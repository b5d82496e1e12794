import Rmr.Route.Ack
import Rmr.Proofs.Route.Robust

/-! Acknowledgements: each table that is ended or given up is answered for once, and truly. -/

namespace Rmr

namespace RtCtx

/-- No message was sent, and the id of the table and the active table are the same. -/
def Mute (ctx next : RtCtx) : Prop :=
  next.acks = ctx.acks ∧ next.tableId = ctx.tableId ∧ next.rtable = ctx.rtable

variable {ctx mid next : RtCtx} {rt : Nat} {table : RouteTable} {conf : RtConf} {mem : Mem}

/-- Doing nothing sends no state message. -/
theorem Mute.refl (ctx : RtCtx) : Mute ctx ctx := ⟨rfl, rfl, rfl⟩

/-- Two steps without one are without one. -/
theorem Mute.trans (first : Mute ctx mid) (second : Mute mid next) : Mute ctx next :=
  ⟨second.1.trans first.1, second.2.1.trans first.2.1, second.2.2.trans first.2.2⟩

/-- Dropping a reference sends none. -/
theorem delRte_mute {id : Nat} (ran : ctx.delRte id = .ok next) : Mute ctx next := by
  -- The entry is kept with a count less, or freed.
  obtain ⟨rte, _, ran⟩ := bind_eq_ok.mp ran
  split at ran
  · cases ran
    exact Mute.refl ctx
  · cases ran
    exact Mute.refl ctx

/-- Neither does dropping those of a table. -/
theorem delRtes_mute {mt : AList fun _ : UInt64 => Nat} (ran : ctx.delRtes mt = .ok next) :
    Mute ctx next := by
  -- Deleting one entry after the other says no more than deleting each of them.
  refine foldlM_invariant (Mute ctx) ?_ (Mute.refl ctx) ran
  intro mid thing after mute stepped
  exact mute.trans (delRte_mute stepped)

/-- Neither does freeing a table. -/
theorem utaRtDrop_mute (ran : ctx.utaRtDrop rt = .ok next) : Mute ctx next := by
  obtain ⟨table, _, ran⟩ := bind_eq_ok.mp ran
  obtain ⟨mid, deleted, ran⟩ := bind_eq_ok.mp ran
  cases ran
  have mute := delRtes_mute deleted
  exact mute

/-- Neither does freeing the table in progress. -/
theorem dropNew_mute (ran : ctx.dropNew rt = .ok next) :
    Mute ctx next := by
  obtain ⟨mid, dropped, ran⟩ := bind_eq_ok.mp ran
  cases ran
  have mute := utaRtDrop_mute dropped
  exact mute

/-- Neither does clearing a table. -/
theorem prepClear_mute (ran : ctx.prepClear = .ok next) : Mute ctx next := by
  -- The references are dropped one by one, and then the table is emptied.
  unfold prepClear at ran
  split at ran
  · cases ran
    exact Mute.refl ctx
  · obtain ⟨table, _, ran⟩ := bind_eq_ok.mp ran
    obtain ⟨mid, deleted, ran⟩ := bind_eq_ok.mp ran
    cases ran
    have mute := delRtes_mute deleted
    exact mute

/-- Neither does cloning managed elements. -/
theorem cloneMe_mute {srt nrt : Nat} (ran : ctx.cloneMe srt nrt = .ok next) : Mute ctx next := by
  -- Each turn of the loop files one owner in the new table.
  obtain ⟨source, _, ran⟩ := bind_eq_ok.mp ran
  refine foldlM_invariant (Mute ctx) ?_ (Mute.refl ctx) ran
  intro mid thing after mute stepped
  obtain ⟨table, _, stepped⟩ := bind_eq_ok.mp stepped
  cases stepped
  exact mute

/-- Neither does cloning entries. -/
theorem cloneMt_mute {srt nrt : Nat} (ran : ctx.cloneMt srt nrt = .ok next) : Mute ctx next := by
  -- Each turn of the loop counts one entry, and files it in the new table.
  obtain ⟨source, _, ran⟩ := bind_eq_ok.mp ran
  refine foldlM_invariant (Mute ctx) ?_ (Mute.refl ctx) ran
  intro mid thing after mute stepped
  obtain ⟨rte, _, stepped⟩ := bind_eq_ok.mp stepped
  obtain ⟨table, _, stepped⟩ := bind_eq_ok.mp stepped
  cases stepped
  exact mute

/-- Neither does cloning either space. -/
theorem rtCloneSpace_mute {srt nrt : Nat} {space : Space}
    (ran : ctx.rtCloneSpace mem srt nrt space = .ok next) : Mute ctx next := by
  -- The collection of the things decides; without all of them only the table is marked.
  unfold rtCloneSpace at ran
  split at ran
  · cases ran
  · obtain ⟨table, _, ran⟩ := bind_eq_ok.mp ran
    cases ran
    exact Mute.refl ctx
  · cases space with
    | me => exact cloneMe_mute ran
    | mt => exact cloneMt_mute ran

/-- Neither does cloning both. -/
theorem cloneSpaces_mute {srt drt : Nat} {all : Bool} {out : Option Nat}
    (ran : (do
      let ctx ← ctx.rtCloneSpace mem srt drt .me
      let ctx ← if all then ctx.rtCloneSpace mem srt drt .mt else .ok ctx
      return (ctx, some drt)) = Except.ok (next, out)) : Mute ctx next := by
  -- The owners are cloned always, the entries only on request.
  obtain ⟨mid, cloned, ran⟩ := bind_eq_ok.mp ran
  have mute := rtCloneSpace_mute cloned
  dsimp only at ran
  split at ran
  · obtain ⟨last, more, ran⟩ := bind_eq_ok.mp ran
    cases ran
    exact mute.trans (rtCloneSpace_mute more)
  · cases ran
    exact mute

/-- Neither does making a table. -/
theorem utaRtInit_mute (ctx : RtCtx) (made : Bool) : Mute ctx (ctx.utaRtInit made).1 := by
  unfold utaRtInit
  split
  · exact Mute.refl ctx
  · exact Mute.refl ctx

/-- Neither does cloning one. -/
theorem utaRtClone_mute {srt drt : Option Nat} {all : Bool} {out : Option Nat}
    (ran : ctx.utaRtClone mem srt drt all = .ok (next, out)) : Mute ctx next := by
  unfold utaRtClone at ran
  cases drt with
  | some drt =>
    cases srt with
    | none =>
      cases ran
      exact Mute.refl ctx
    | some srt => exact cloneSpaces_mute ran
  | none =>
    -- The table to clone into is made first.
    have made := utaRtInit_mute ctx (mem.table 0)
    dsimp only at ran
    generalize ctx.utaRtInit (mem.table 0) = pair at ran made
    obtain ⟨mid, target⟩ := pair
    cases srt with
    | none =>
      cases ran
      exact made
    | some srt =>
      cases target with
      | none => cases ran
      | some drt => exact made.trans (cloneSpaces_mute ran)

/-- Neither does preparing the new table. -/
theorem prepClone_mute {all : Bool} {rt : Nat} (ran : ctx.prepClone mem all = .ok (next, rt)) :
    Mute ctx next := by
  -- The active table is cloned, and if that was not possible an empty one is made.
  obtain ⟨⟨mid, out⟩, cloned, ran⟩ := bind_eq_ok.mp ran
  have mute := utaRtClone_mute cloned
  dsimp only at ran
  split at ran
  · obtain ⟨table, _, ran⟩ := bind_eq_ok.mp ran
    cases ran
    exact mute
  · unfold utaRtInit at ran
    split at ran
    · cases ran
    · rename_i made
      cases ran
      split at made
      · cases made
        exact mute
      · cases made

/-- Starting a table says nothing. -/
theorem startTable_mute {kind : TableKind} (ran : ctx.startTable mem kind = .ok next) :
    Mute ctx next := by
  obtain ⟨⟨mid, rt⟩, cloned, ran⟩ := bind_eq_ok.mp ran
  have mute := prepClone_mute cloned
  obtain ⟨table, _, ran⟩ := bind_eq_ok.mp ran
  cases ran
  exact mute

/-- Neither does adding an entry. -/
theorem utaAddRte_mute {key : UInt64} {nrrgroups : Int} {out : Option Nat}
    (ran : ctx.utaAddRte mem rt key nrrgroups = .ok (next, out)) : Mute ctx next := by
  -- The entry is made and filed, after the one under the same key was given up.
  unfold utaAddRte at ran
  split at ran
  · cases ran
    exact Mute.refl ctx
  · obtain ⟨table, _, ran⟩ := bind_eq_ok.mp ran
    dsimp only at ran
    split at ran
    · obtain ⟨mid, deleted, ran⟩ := bind_eq_ok.mp ran
      cases ran
      have mute := delRte_mute deleted
      exact mute
    · cases ran
      exact Mute.refl ctx

/-- Neither does building one. -/
theorem buildEntry_mute {tsField rrField : Option CStr} {subid : Int}
    (ran : ctx.buildEntry conf mem rt tsField subid rrField = .ok next) : Mute ctx next := by
  -- The branches of `build_entry`: a record that is skipped, and one whose groups are filled.
  obtain ⟨ts, _, ran⟩ := bind_eq_ok.mp ran
  obtain ⟨rr, _, ran⟩ := bind_eq_ok.mp ran
  split at ran
  · dsimp only at ran
    split at ran
    · cases ran
      exact Mute.refl ctx
    · obtain ⟨⟨mid, out⟩, added, ran⟩ := bind_eq_ok.mp ran
      have mute := utaAddRte_mute added
      dsimp only at ran
      split at ran
      · cases ran
      · obtain ⟨rte, _, ran⟩ := bind_eq_ok.mp ran
        cases ran
        exact mute
  · cases ran
    exact Mute.refl ctx

/-- Neither does taking one away. -/
theorem trashEntry_mute {tsField : CStr} {subid : Int}
    (ran : ctx.trashEntry conf rt tsField subid = .ok next) : Mute ctx next := by
  -- The entry is looked for, and given up if it is there.
  unfold trashEntry at ran
  dsimp only at ran
  split at ran
  · obtain ⟨table, _, ran⟩ := bind_eq_ok.mp ran
    split at ran
    · have mute := delRte_mute ran
      exact mute
    · cases ran
      exact Mute.refl ctx
  · cases ran
    exact Mute.refl ctx

/-- Neither does counting a record. -/
theorem bumpUpdates_mute (ran : ctx.bumpUpdates rt = .ok next) : Mute ctx next := by
  obtain ⟨table, _, ran⟩ := bind_eq_ok.mp ran
  cases ran
  exact Mute.refl ctx

/-- Neither does counting one about managed elements. -/
theorem bumpMupdates_mute (ran : ctx.bumpMupdates rt = .ok next) : Mute ctx next := by
  obtain ⟨table, _, ran⟩ := bind_eq_ok.mp ran
  cases ran
  exact Mute.refl ctx

/-- What the end of a table leads to: one message, and the table is active if there is nothing
wrong. -/
structure Stopped (ctx : RtCtx) (rt : Nat) (table : RouteTable) (reason : Option NackReason)
    (next : RtCtx) : Prop where
  acks : next.acks = ctx.acks ++ [⟨ctx.tableId, reason⟩]
  tableId : next.tableId = ctx.tableId
  rtable : next.rtable = if reason = none ∧ table.error = false then some rt else ctx.rtable

/-- A table that is rolled in is reported as good. -/
theorem rollAndAck_stops (new : ctx.newRtable = some rt) (there : ctx.tables rt = some table)
    (ran : ctx.rollAndAck = .ok next) : Stopped ctx rt table none next := by
  obtain ⟨mid, rolled, ran⟩ := bind_eq_ok.mp ran
  cases ran
  simp only [rollTables, new, table_ok there, Bind.bind, Except.bind] at rolled
  split at rolled
  · -- A table in error is laid aside.
    rename_i error
    cases rolled
    exact ⟨rfl, rfl, by simp [error, sendRtAck]⟩
  · rename_i fine
    cases rolled
    exact ⟨rfl, rfl, by simp [fine, sendRtAck]⟩

/-- One that is dropped is reported with its reason. -/
theorem reject_stops {reason : NackReason}
    (ran : (ctx.sendRtAck (some reason)).dropNew rt = .ok next) :
    Stopped ctx rt table (some reason) next := by
  obtain ⟨acks, tableId, rtable⟩ := dropNew_mute ran
  refine ⟨acks, tableId, ?_⟩
  rw [if_neg (by simp)]
  exact rtable

/-- The reason that an end record gives a table up for. -/
def stopReason (kind : TableKind) (table : RouteTable) (count : Option CStr) : Option NackReason :=
  (count.filter (fun count => counter kind table ≠ atoi count)).map fun count =>
    match kind with
    | .updatert => .unwritten
    | _ => .missing count table.updates

/-- The end of a table gives it up for a count that is not its own, and takes it otherwise. -/
theorem counted_stops {wrong : Option CStr} {taken : Except RtFault RtCtx}
    (reason : CStr → NackReason)
    (ran : (match wrong with
      | some count => (ctx.sendRtAck (some (reason count))).dropNew rt
      | none => taken) = .ok next)
    (takes : taken = .ok next → Stopped ctx rt table none next) :
    Stopped ctx rt table (wrong.map reason) next := by
  -- Only a count that is wrong keeps the table from being taken.
  cases wrong with
  | some count => exact reject_stops ran
  | none => exact takes ran

/-- The end of a table reports what its count says. -/
theorem newrtEnd_stops {count : Option CStr} (new : ctx.newRtable = some rt)
    (there : ctx.tables rt = some table) (ran : ctx.newrtEnd count = .ok next) :
    Stopped ctx rt table (stopReason .newrt table count) next := by
  -- Without a count that differs the table is rolled in, and that is what is told.
  unfold newrtEnd at ran
  simp only [new, table_ok there, Bind.bind, Except.bind] at ran
  refine counted_stops _ ran fun taken => ?_
  obtain ⟨mid, rolled, taken⟩ := bind_eq_ok.mp taken
  cases taken
  obtain ⟨acks, tableId, rtable⟩ := rollAndAck_stops new there rolled
  exact ⟨acks, tableId, rtable⟩

/-- So does the end of an update. -/
theorem updatertEnd_stops {count : Option CStr} (new : ctx.newRtable = some rt)
    (there : ctx.tables rt = some table) (ran : ctx.updatertEnd count = .ok next) :
    Stopped ctx rt table (stopReason .updatert table count) next := by
  -- Without a count that differs the table is rolled in, and that is what is told.
  unfold updatertEnd at ran
  simp only [new, table_ok there, Bind.bind, Except.bind] at ran
  refine counted_stops _ ran fun taken => ?_
  obtain ⟨mid, rolled, taken⟩ := bind_eq_ok.mp taken
  cases taken
  obtain ⟨acks, tableId, rtable⟩ := rollAndAck_stops new there rolled
  exact ⟨acks, tableId, rtable⟩

/-- So does the end of a map. -/
theorem meidMapEnd_stops {count : Option CStr} (new : ctx.newRtable = some rt)
    (there : ctx.tables rt = some table) (ran : ctx.meidMapEnd count = .ok next) :
    Stopped ctx rt table (stopReason .meidMap table count) next := by
  unfold meidMapEnd at ran
  simp only [new, table_ok there, Bind.bind, Except.bind] at ran
  exact counted_stops _ ran (rollAndAck_stops new there)

/-- A table that is forced out is answered for. -/
theorem forceOut_tells (ran : ctx.forceOut = .ok next) :
    next.acks = ctx.acks ++ (ctx.newRtable.map fun _ => ⟨ctx.tableId, some .notComplete⟩).toList ∧
      next.tableId = ctx.tableId ∧ next.rtable = ctx.rtable := by
  -- The answer is sent before the table is dropped, which sends none.
  unfold forceOut at ran
  cases new : ctx.newRtable with
  | none =>
    rw [new] at ran
    cases ran
    exact ⟨(List.append_nil _).symm, rfl, rfl⟩
  | some rt =>
    rw [new] at ran
    have mute := dropNew_mute ran
    exact mute

/-- What a record does to messages, by what it does to tables. -/
def Tells (ctx : RtCtx) (event : Option TableEvent) (next : RtCtx) : Prop :=
  match event with
  | none => Mute ctx next
  | some (.start kind id) =>
    next.acks = ctx.acks ++ (ctx.newRtable.map fun _ => ⟨ctx.tableId, some .notComplete⟩).toList ∧
      next.tableId = (if kind = .updatert ∧ id = none then ctx.tableId else id) ∧
      next.rtable = ctx.rtable
  | some (.stop kind count) =>
    (ctx.newRtable = none → Mute ctx next) ∧
      ∀ rt table, ctx.newRtable = some rt → ctx.tables rt = some table →
        Stopped ctx rt table (stopReason kind table count) next

/-- A record that starts no table has the outcome alone. -/
theorem plainly_eq_ok {outcome : Except RtFault RtCtx} {start : Option TableKind}
    (ran : plainly outcome = .ok (next, start)) : outcome = .ok next ∧ start = none := by
  obtain ⟨mid, is, ran⟩ := bind_eq_ok.mp ran
  cases ran
  exact ⟨is, rfl⟩

/-- A `del` record sends no state message. -/
theorem delRec_mute {fields : List CStr} (ran : ctx.delRec conf fields = .ok next) :
    Mute ctx next := by
  -- Of the steps of the record, neither sends a state message.
  unfold delRec at ran
  split at ran
  · obtain ⟨mid, trashed, ran⟩ := bind_eq_ok.mp ran
    exact (trashEntry_mute trashed).trans (bumpUpdates_mute ran)
  · cases ran
    exact Mute.refl ctx

/-- Neither does an `mse` record. -/
theorem mseRec_mute {fields : List CStr} (ran : ctx.mseRec conf mem fields = .ok next) :
    Mute ctx next := by
  -- Of the steps of the record, neither sends a state message.
  unfold mseRec at ran
  split at ran
  · obtain ⟨mid, built, ran⟩ := bind_eq_ok.mp ran
    exact (buildEntry_mute built).trans (bumpUpdates_mute ran)
  · cases ran
    exact Mute.refl ctx

/-- Neither does an `rte` record. -/
theorem rteRec_mute {fields : List CStr} (ran : ctx.rteRec conf mem fields = .ok next) :
    Mute ctx next := by
  -- Of the steps of the record, neither sends a state message.
  unfold rteRec at ran
  split at ran
  · cases ran
    exact Mute.refl ctx
  · obtain ⟨mid, bumped, ran⟩ := bind_eq_ok.mp ran
    exact (bumpUpdates_mute bumped).trans (buildEntry_mute ran)

/-- Neither does adding managed elements. -/
theorem parseMeidAr_mute {owner meidList : CStr}
    (ran : ctx.parseMeidAr mem rt owner meidList = .ok next) : Mute ctx next := by
  obtain ⟨table, _, ran⟩ := bind_eq_ok.mp ran
  cases ran
  exact Mute.refl ctx

/-- Neither does taking them away. -/
theorem parseMeidDel_mute {meidList : CStr} (ran : ctx.parseMeidDel rt meidList = .ok next) :
    Mute ctx next := by
  obtain ⟨table, _, ran⟩ := bind_eq_ok.mp ran
  cases ran
  exact Mute.refl ctx

/-- Neither does a record about managed elements. -/
theorem mmeRec_mute {name first : CStr} {fields : List CStr}
    (ran : ctx.mmeRec mem name first fields = .ok next) : Mute ctx next := by
  -- The branches of the record, in none of which a state message is sent.
  unfold mmeRec at ran
  split at ran
  · cases ran
    exact Mute.refl ctx
  · split at ran
    · split at ran
      · cases ran
        exact Mute.refl ctx
      · obtain ⟨mid, owned, ran⟩ := bind_eq_ok.mp ran
        exact (parseMeidAr_mute owned).trans (bumpMupdates_mute ran)
    · split at ran
      · obtain ⟨mid, disowned, ran⟩ := bind_eq_ok.mp ran
        exact (parseMeidDel_mute disowned).trans (bumpMupdates_mute ran)
      · cases ran
        exact Mute.refl ctx

/-- A start record, with the id that the table gets. -/
theorem start_tells {kind : TableKind} {id : Option CStr} (tableId : RtCtx → Option CStr)
    {start : Option TableKind}
    (ids : ∀ mid : RtCtx, mid.tableId = ctx.tableId →
      tableId mid = if kind = .updatert ∧ id = none then ctx.tableId else id)
    (ran : (do
      let mid ← ctx.forceOut
      return ({ mid with tableId := tableId mid }, some kind)) = Except.ok (next, start)) :
    Tells ctx (some (.start kind id)) next := by
  obtain ⟨mid, forced, ran⟩ := bind_eq_ok.mp ran
  cases ran
  obtain ⟨acks, same, rtable⟩ := forceOut_tells forced
  exact ⟨acks, ids mid same, rtable⟩

/-- A `newrt` record is told by its second field. -/
theorem newrtRec_tells {what : CStr} {rest : List CStr} {start : Option TableKind}
    (ran : ctx.newrtRec (what :: rest) = .ok (next, start)) :
    Tells ctx (some (if clip what = ['e', 'n', 'd'] then .stop .newrt rest[0]?
      else .start .newrt (rest[0]?.map clip))) next := by
  unfold newrtRec at ran
  simp only [clipped, List.getElem?_cons_zero, List.getElem?_cons_succ, Bind.bind,
    Except.bind] at ran
  split at ran
  · rename_i ended
    rw [if_pos ended]
    obtain ⟨ran, _⟩ := plainly_eq_ok ran
    refine ⟨fun new => ?_, fun rt table new there => newrtEnd_stops new there ran⟩
    -- Without a table in progress, only an end without a count comes through.
    unfold newrtEnd at ran
    rw [new] at ran
    split at ran
    · cases ran
    · cases ran
      exact Mute.refl ctx
    · contradiction
  · rename_i started
    rw [if_neg started]
    exact start_tells (fun _ => rest[0]?.map clip) (fun _ _ => by simp) ran

/-- So is an `updatert` record, once there was a full table. -/
theorem updatertRec_tells {what : CStr} {rest : List CStr} {start : Option TableKind}
    (ran : ctx.updatertRec (what :: rest) = .ok (next, start)) :
    Tells ctx (if ctx.fullrt = false then none
      else some (if clip what = ['e', 'n', 'd'] then .stop .updatert rest[0]?
        else .start .updatert (rest[0]?.map clip))) next := by
  -- Before a full table nothing is told; then the word is that of an end, or it is a start.
  unfold updatertRec at ran
  split at ran
  · rename_i early
    cases ran
    rw [if_pos early]
    exact Mute.refl ctx
  · rename_i full
    rw [if_neg full]
    simp only [clipped, List.getElem?_cons_zero, List.getElem?_cons_succ, Bind.bind,
      Except.bind] at ran
    split at ran
    · rename_i ended
      rw [if_pos ended]
      obtain ⟨ran, _⟩ := plainly_eq_ok ran
      refine ⟨fun new => ?_, fun rt table new there => updatertEnd_stops new there ran⟩
      unfold updatertEnd at ran
      rw [new] at ran
      cases ran
      exact Mute.refl ctx
    · rename_i started
      rw [if_neg started]
      cases given : rest[0]? with
      | none =>
        rw [given] at ran
        exact start_tells (fun mid => mid.tableId) (fun _ same => by simp [same]) ran
      | some id =>
        rw [given] at ran
        exact start_tells (fun _ => some (clip id)) (fun _ _ => by simp) ran

/-- So is a `meid_map` record, whose start is told by a letter. -/
theorem meidMapRec_tells {what : CStr} {rest : List CStr} {start : Option TableKind}
    (ran : ctx.meidMapRec what rest = .ok (next, start)) :
    Tells ctx (if (clip what).head? = some 's' then some (.start .meidMap (rest[0]?.map clip))
      else if clip what = ['e', 'n', 'd'] then some (.stop .meidMap rest[0]?) else none) next := by
  -- The letter is looked at first, so that a word that starts with it is a start.
  unfold meidMapRec at ran
  dsimp only at ran
  split at ran
  · rename_i started
    rw [if_pos started]
    exact start_tells (fun _ => rest[0]?.map clip) (fun _ _ => by simp) ran
  · rename_i notStarted
    rw [if_neg notStarted]
    split at ran
    · rename_i ended
      rw [if_pos ended]
      obtain ⟨ran, _⟩ := plainly_eq_ok ran
      refine ⟨fun new => ?_, fun rt table new there => meidMapEnd_stops new there ran⟩
      unfold meidMapEnd at ran
      rw [new] at ran
      split at ran
      · cases ran
      · cases ran
        exact Mute.refl ctx
      · contradiction
    · rename_i other
      rw [if_neg other]
      cases ran
      exact Mute.refl ctx

/-- What a record does at once to messages. -/
theorem beginRec_tells {buf : CStr} {start : Option TableKind}
    (ran : ctx.beginRec conf mem buf = .ok (next, start)) :
    Tells ctx (tableEvent ctx.fullrt buf) next := by
  unfold beginRec at ran
  unfold tableEvent
  cases tokens : utaTokenise (trimEnd (buf.dropWhile isspace)) 128 '|' with
  | nil =>
    rw [tokens] at ran
    cases ran
    exact Mute.refl ctx
  | cons name fields =>
    rw [tokens] at ran
    dsimp only at ran
    -- One case for each letter that a record may begin with.
    split at ran
    · rename_i letter
      have mute := delRec_mute (plainly_eq_ok ran).1
      cases fields with
      | nil => exact mute
      | cons what rest =>
        simp only [letter]
        exact mute
    · rename_i letter
      cases fields with
      | nil => cases ran
      | cons what rest =>
        simp only [letter]
        have tells := newrtRec_tells ran
        split
        · rename_i ended
          rwa [if_pos ended] at tells
        · rename_i started
          rwa [if_neg started] at tells
    · rename_i letter
      split at ran
      · rename_i entry
        have mute := mseRec_mute (plainly_eq_ok ran).1
        cases fields with
        | nil => exact mute
        | cons what rest =>
          simp only [letter]
          rw [if_neg (by rw [entry]; decide)]
          exact mute
      · unfold meidParser at ran
        cases fields with
        | nil =>
          cases ran
          exact Mute.refl ctx
        | cons what rest =>
          simp only [letter]
          dsimp only at ran
          split at ran
          · rename_i isMap
            rw [if_pos isMap]
            exact meidMapRec_tells ran
          · rename_i notMap
            rw [if_neg notMap]
            have mute := mmeRec_mute (plainly_eq_ok ran).1
            exact mute
    · rename_i letter
      have mute := rteRec_mute (plainly_eq_ok ran).1
      cases fields with
      | nil => exact mute
      | cons what rest =>
        simp only [letter]
        exact mute
    · rename_i letter
      cases fields with
      | nil =>
        unfold updatertRec at ran
        split at ran
        · cases ran
          exact Mute.refl ctx
        · cases ran
      | cons what rest =>
        simp only [letter]
        have tells := updatertRec_tells ran
        split
        · rename_i early
          rwa [if_pos early] at tells
        · rename_i full
          rw [if_neg full] at tells
          split
          · rename_i ended
            rwa [if_pos ended] at tells
          · rename_i started
            rwa [if_neg started] at tells
    · rename_i noD noN noM noR noU
      cases ran
      cases fields with
      | nil => exact Mute.refl ctx
      | cons what rest =>
        dsimp only
        split
        · exact absurd ‹_› noN
        · exact absurd ‹_› noU
        · exact absurd ‹_› noM
        · exact Mute.refl ctx

/-- What comes after a record without a word changes nothing of what it told. -/
theorem Tells.mute {event : Option TableEvent} (tells : Tells ctx event mid)
    (mute : Mute mid next) : Tells ctx event next := by
  -- A record without a word changes none of the three parts that are told of.
  obtain ⟨acks, tableId, rtable⟩ := mute
  unfold Tells Mute at *
  cases event with
  | none => exact ⟨acks.trans tells.1, tableId.trans tells.2.1, rtable.trans tells.2.2⟩
  | some event =>
    cases event with
    | start kind id => exact ⟨acks.trans tells.1, tableId.trans tells.2.1, rtable.trans tells.2.2⟩
    | stop kind count =>
      obtain ⟨without, stopped⟩ := tells
      constructor
      · intro new
        obtain ⟨acks', tableId', rtable'⟩ := without new
        exact ⟨acks.trans acks', tableId.trans tableId', rtable.trans rtable'⟩
      · intro rt table new there
        obtain ⟨acks', tableId', rtable'⟩ := stopped rt table new there
        exact ⟨acks.trans acks', tableId.trans tableId', rtable.trans rtable'⟩

/-- What a record does to messages. -/
theorem parseRtRec_tells {buf : CStr} (ran : ctx.parseRtRec conf mem buf = .ok next) :
    Tells ctx (tableEvent ctx.fullrt buf) next := by
  obtain ⟨⟨mid, start⟩, begun, ran⟩ := bind_eq_ok.mp ran
  have tells := beginRec_tells begun
  cases start with
  | none =>
    cases ran
    exact tells
  | some kind =>
    -- Preparing the table that is started sends nothing more.
    obtain ⟨cleared, clears, started⟩ := bind_eq_ok.mp ran
    have mute := (prepClear_mute clears).trans (startTable_mute started)
    exact tells.mute mute

end RtCtx

/-- A state message that tells what became of a table, and of two counts that differ which. -/
def Answers (table : Settled) (payload : CStr) : Prop :=
  ∃ reason, payload = tableState table.active table.id reason ∧
    ∀ counts ∈ table.disputed, reason = missingText counts.1 counts.2

/-- The state message that is due for a table. -/
def stateDue (own : Option CStr) (table : RouteTable) (event : TableEvent) : CStr :=
  match event with
  | .start _ _ => tableState false own "table not complete".toList
  | .stop _ _ => (event.disputed table).elim (tableState true own [])
    fun counts => tableState false own (missingText counts.1 counts.2)

/-- The end of a table that is not in error, or the end with another count of a table whose sender
is told the counts. -/
def ToldTruly (table : RouteTable) (event : TableEvent) : Prop :=
  match event with
  | .start _ _ => True
  | .stop kind _ =>
    if event.disputed table = none then table.error = false
    else kind ≠ .updatert ∧ (kind = .meidMap → table.mupdates = table.updates)

/-- A record that is answered for as it should be: an update without an id follows a table without
one, and for a table that is settled there is a connection, a buffer and room in it, and the truth
to tell. -/
def AckSafe (col : Reporter) (rec : TableRec) : Prop :=
  (col.event rec = some (.start .updatert none) → col.ctx.tableId = none) ∧
    ∀ due ∈ col.settles rec, col.link.whid = true ∧ rec.outcome ≠ .noBuffer ∧
      (stateDue col.own due.2.1 due.2.2).length ≤ ackMax ∧ ToldTruly due.2.1 due.2.2

namespace Reporter

variable {conf : RtConf} {col next : Reporter} {rec : TableRec}

/-- With a connection and a buffer, the payload is sent. -/
theorem sendRtAck_sent {link : RtgLink} {outcome : AckOutcome} (whid : link.whid = true)
    (buffer : outcome ≠ .noBuffer) (payload : CStr) :
    (link.sendRtAck payload outcome).sent = link.sent ++ [payload] := by
  -- A message that is refused was sent all the same.
  cases outcome with
  | noBuffer => exact absurd rfl buffer
  | refused => simp [RtgLink.sendRtAck, whid]
  | delivered => simp [RtgLink.sendRtAck, whid]

/-- All of a good report is in the buffer where there is room for it. -/
theorem payload_ok {tableId : Option CStr} {wbuf : CStr}
    (room : (tableState true tableId []).length ≤ ackMax) :
    RtAck.payload ⟨tableId, none⟩ wbuf = tableState true tableId [] :=
  List.take_of_length_le room

/-- A reason is a part of the message that it is in. -/
theorem length_reason_le (ok : Bool) (tableId : Option CStr) (reason : CStr) :
    reason.length ≤ (tableState ok tableId reason).length := by
  unfold tableState
  simp only [List.length_append, List.length_cons]
  omega

/-- So is all of one that tells of a wrong count. -/
theorem payload_missing {tableId : Option CStr} {wbuf expected : CStr} {got : Int}
    (room : (tableState false tableId (missingText expected got)).length ≤ ackMax) :
    RtAck.payload ⟨tableId, some (.missing expected got)⟩ wbuf =
      tableState false tableId (missingText expected got) := by
  -- The text is shorter than the buffer of the reason, so that it is not cut there.
  have whole : NackReason.text wbuf (.missing expected got) = missingText expected got := by
    apply List.take_of_length_le
    have part := length_reason_le false tableId (missingText expected got)
    have bound : ackMax ≤ 1023 := by decide
    omega
  unfold RtAck.payload
  rw [Option.map_some, Option.getD_some, Option.isNone_some, whole]
  exact List.take_of_length_le room

/-- What holds between records: the id of the table is its own, and all that were settled were
answered for. -/
structure Inv (col : Reporter) : Prop where
  idle : col.ctx.Idle
  own : col.ctx.tableId = col.own
  answered : List.Forall₂ Answers col.settled col.link.sent

/-- One record: what is parsed, what is sent, and which table it settles. -/
theorem step_eq_ok (ran : col.step conf rec = .ok next) :
    col.ctx.parseRtRec conf rec.mem rec.buf = .ok next.ctx ∧
      next.link = (next.ctx.acks.drop col.ctx.acks.length).foldl
        (fun link ack => link.sendRtAck (ack.payload rec.wbuf) rec.outcome) col.link ∧
      next.settled = col.settled ++ (col.note rec next.ctx).toList := by
  obtain ⟨mid, parsed, ran⟩ := bind_eq_ok.mp ran
  cases ran
  exact ⟨parsed, rfl, rfl⟩

/-- The id on the start record is the id of the table. -/
theorem step_own (idle : col.ctx.Idle) (safe : AckSafe col rec) (own : col.ctx.tableId = col.own)
    (ran : col.step conf rec = .ok next) : next.ctx.tableId = next.own := by
  obtain ⟨mid, parsed, ran⟩ := bind_eq_ok.mp ran
  cases ran
  have tells := RtCtx.parseRtRec_tells parsed
  dsimp only
  unfold event
  unfold AckSafe event at safe
  cases event : tableEvent col.ctx.fullrt rec.buf with
  | none =>
    rw [event] at tells
    exact tells.2.1.trans own
  | some event' =>
    rw [event] at tells
    cases event' with
    | start kind id =>
      obtain ⟨_, tableId, _⟩ := tells
      rw [tableId]
      split
      · -- An update that has no id keeps the one before, which is none.
        rename_i kept
        obtain ⟨rfl, rfl⟩ := kept
        exact safe.1 event
      · rfl
    | stop kind count =>
      obtain ⟨without, stopped⟩ := tells
      cases new : col.ctx.newRtable with
      | none => exact (without new).2.1.trans own
      | some rt =>
        obtain ⟨table, there⟩ := idle.toOk.new_there new
        exact (stopped rt table new there).tableId.trans own

/-- The table that is settled is the one in progress. -/
theorem settles_eq_some {rt : Nat} {table : RouteTable} {event : TableEvent}
    (due : col.settles rec = some (rt, table, event)) :
    col.ctx.newRtable = some rt ∧ col.ctx.tables rt = some table ∧ col.event rec = some event := by
  obtain ⟨rt', new, due⟩ := Option.bind_eq_some_iff.mp due
  obtain ⟨table', there, due⟩ := Option.bind_eq_some_iff.mp due
  obtain ⟨event', happens, due⟩ := Option.bind_eq_some_iff.mp due
  cases due
  exact ⟨new, there, happens⟩

/-- Where no table is settled, no message is sent. -/
theorem acks_of_settles_none (idle : col.ctx.Idle) (due : col.settles rec = none) {next : RtCtx}
    (tells : RtCtx.Tells col.ctx (col.event rec) next) : next.acks = col.ctx.acks := by
  -- Without an event nothing is told; an event that settles no table finds none in progress.
  cases happens : col.event rec with
  | none =>
    rw [happens] at tells
    exact tells.1
  | some event =>
    rw [happens] at tells
    have new : col.ctx.newRtable = none := by
      by_contra some_
      obtain ⟨rt, new⟩ := Option.ne_none_iff_exists'.mp some_
      obtain ⟨table, there⟩ := idle.toOk.new_there new
      simp [settles, new, there, happens] at due
    cases event with
    | start kind id =>
      obtain ⟨acks, _⟩ := tells
      rw [acks, new]
      exact List.append_nil _
    | stop kind count => exact (tells.1 new).1

/-- The counts that are in dispute at the end of a table. -/
theorem disputed_stop (kind : TableKind) (count : Option CStr) (table : RouteTable) :
    (TableEvent.stop kind count).disputed table =
      (count.filter (fun count => RtCtx.counter kind table ≠ atoi count)).map
        fun count => (count, RtCtx.counter kind table) := by
  cases kind with
  | newrt => rfl
  | updatert => rfl
  | meidMap => rfl

/-- A sender that is told the counts is told those that were compared. -/
theorem stopReason_told {kind : TableKind} {table : RouteTable} {count : Option CStr}
    {expected : CStr} (update : kind ≠ .updatert)
    (same : kind = .meidMap → table.mupdates = table.updates)
    (wrong : count.filter (fun count => RtCtx.counter kind table ≠ atoi count) = some expected) :
    RtCtx.stopReason kind table count =
      some (.missing expected (RtCtx.counter kind table)) := by
  -- The count that was compared is the counter of the kind, which the message tells as `updates`.
  unfold RtCtx.stopReason
  rw [wrong]
  cases kind with
  | newrt => rfl
  | updatert => exact absurd rfl update
  | meidMap =>
    have same : RtCtx.counter .meidMap table = table.updates := same rfl
    rw [same]
    rfl

/-- For a table that is settled, one message is sent, and it is the one that is due. -/
theorem acks_of_settles (idle : col.ctx.Idle) {rt : Nat} {table : RouteTable} {event : TableEvent}
    (due : col.settles rec = some (rt, table, event)) (truly : ToldTruly table event)
    (room : (stateDue col.ctx.tableId table event).length ≤ ackMax) {next : RtCtx}
    (tells : RtCtx.Tells col.ctx (col.event rec) next) (wbuf : CStr) :
    ∃ ack : RtAck, next.acks = col.ctx.acks ++ [ack] ∧
      ack.payload wbuf = stateDue col.ctx.tableId table event ∧
      Answers ⟨col.ctx.tableId, next.rtable = some rt, event.disputed table⟩
        (stateDue col.ctx.tableId table event) := by
  obtain ⟨new, there, happens⟩ := settles_eq_some due
  have apart : col.ctx.rtable ≠ some rt := fun active => (idle.apart rt active).2.1 new
  rw [happens] at tells
  cases event with
  | start kind id =>
    obtain ⟨acks, _, rtable⟩ := tells
    rw [new] at acks
    refine ⟨_, acks, List.take_of_length_le room, "table not complete".toList, ?_, ?_⟩
    · -- The table that is forced out is not the active one.
      simp [stateDue, rtable, apart]
    · intro counts disputed
      cases disputed
  | stop kind count =>
    obtain ⟨acks, _, rtable⟩ := tells.2 rt table new there
    have disputed := disputed_stop kind count table
    unfold stateDue at room ⊢
    unfold ToldTruly at truly
    dsimp only at room truly ⊢
    cases wrong : count.filter (fun count => RtCtx.counter kind table ≠ atoi count) with
    | none =>
      -- A table that is not in error becomes the active one.
      have reason : RtCtx.stopReason kind table count = none := by
        unfold RtCtx.stopReason
        rw [wrong]
        rfl
      rw [wrong, Option.map_none] at disputed
      rw [disputed] at room truly ⊢
      rw [reason] at acks rtable
      rw [if_pos rfl] at truly
      rw [if_pos ⟨rfl, truly⟩] at rtable
      refine ⟨_, acks, payload_ok room, [], ?_, ?_⟩
      · simp [rtable]
      · intro counts none
        cases none
    | some expected =>
      rw [wrong, Option.map_some] at disputed
      rw [disputed] at room truly ⊢
      rw [if_neg (by simp)] at truly
      have reason := stopReason_told truly.1 truly.2 wrong
      rw [reason] at acks rtable
      rw [if_neg (by simp)] at rtable
      refine ⟨_, acks, payload_missing room,
        missingText expected (RtCtx.counter kind table), ?_, ?_⟩
      · simp [rtable, apart]
      · rintro counts ⟨⟩
        rfl

/-- One record keeps what holds between records. -/
theorem Inv.step (inv : Inv col) (safe : AckSafe col rec) (ran : col.step conf rec = .ok next) :
    Inv next := by
  -- The record is parsed first; then what it told is compared with what it settled.
  obtain ⟨parsed, link, settled⟩ := step_eq_ok ran
  have ends := RtCtx.parseRtRec_ends inv.idle conf rec.mem rec.buf
  rw [parsed] at ends
  refine ⟨RtCtx.Advances.idle ends, step_own inv.idle safe inv.own ran, ?_⟩
  have tells : RtCtx.Tells col.ctx (col.event rec) next.ctx := RtCtx.parseRtRec_tells parsed
  unfold note at settled
  cases due : col.settles rec with
  | none =>
    rw [acks_of_settles_none inv.idle due tells, List.drop_length] at link
    rw [due] at settled
    rw [settled, link]
    simpa using inv.answered
  | some it =>
    obtain ⟨rt, table, event⟩ := it
    obtain ⟨whid, buffer, room, truly⟩ := safe.2 _ due
    dsimp only at room truly
    rw [← inv.own] at room
    obtain ⟨ack, acks, payload, answers⟩ :=
      acks_of_settles inv.idle due truly room tells rec.wbuf
    rw [acks, List.drop_left, List.foldl_cons, List.foldl_nil, payload] at link
    rw [due] at settled
    rw [settled, link, sendRtAck_sent whid buffer]
    rw [inv.own] at answers
    exact List.rel_append inv.answered (.cons (inv.own ▸ answers) .nil)

instance (table : RouteTable) (event : TableEvent) : Decidable (ToldTruly table event) :=
  match event with
  | .start _ _ => isTrue trivial
  | .stop kind count => inferInstanceAs (Decidable
      (if (TableEvent.stop kind count).disputed table = none then table.error = false
        else kind ≠ .updatert ∧ (kind = .meidMap → table.mupdates = table.updates)))

instance (col : Reporter) (rec : TableRec) : Decidable (AckSafe col rec) :=
  inferInstanceAs (Decidable (_ ∧ _))

/-- Records that come with memory, and whose state messages get through. -/
def delivered (texts : List String) : List TableRec :=
  texts.map fun text => ⟨text.toList, .ample, .delivered, []⟩

end Reporter

end Rmr
