import Rmr.Proofs.Route.Load
import Rmr.Route.Serial

/-! What records do has nothing to do with how many senders use a table. -/

namespace Rmr

/-- Computations in sequence agree, up to what is erased, when their parts do. -/
theorem bind_erased {ε σ σ' τ τ' : Type} {erase : σ → σ'} {eraseLast : τ → τ'}
    {first : Except ε σ} {first' : Except ε σ'} {next : σ → Except ε τ} {next' : σ' → Except ε τ'}
    (same : first' = first.map erase)
    (then_ : ∀ value, next' (erase value) = (next value).map eraseLast) :
    first' >>= next' = (first >>= next).map eraseLast := by
  -- A fault of the first computation is the fault of both.
  rw [same]
  cases first with
  | error fault => rfl
  | ok value => exact then_ value

/-- Runs agree, up to what is erased, when each step does. -/
theorem foldlM_erased {ε σ α : Type} {erase : σ → σ} {step : σ → α → Except ε σ}
    (same : ∀ state input, step (erase state) input = (step state input).map erase)
    (inputs : List α) (start : σ) :
    inputs.foldlM step (erase start) = (inputs.foldlM step start).map erase := by
  -- By induction on the inputs.
  induction inputs generalizing start with
  | nil => rfl
  | cons input inputs ih =>
    rw [List.foldlM_cons, List.foldlM_cons]
    exact bind_erased (same start input) ih

namespace RtCtx

/-- What is made beside the context is left alone. -/
def uncountedOut {α : Type} (out : RtCtx × α) : RtCtx × α := (out.1.uncounted, out.2)

/-- A table is found the same, but for its count. -/
theorem table_uncounted (ctx : RtCtx) (rt : Nat) :
    ctx.uncounted.table rt = (ctx.table rt).map RouteTable.uncounted := by
  have read : ctx.uncounted.tables rt = (ctx.tables rt).map RouteTable.uncounted := rfl
  unfold table
  rw [read]
  cases ctx.tables rt <;> rfl

/-- An entry is found the same. -/
theorem rte_uncounted (ctx : RtCtx) (at_ : Nat) :
    ctx.uncounted.rte at_ = (ctx.rte at_).map fun rte => rte := by
  have read : ctx.uncounted.rte at_ = ctx.rte at_ := rfl
  rw [read]
  cases ctx.rte at_ <;> rfl

/-- A table may be put in with its count or without it. -/
theorem setTable_uncounted (ctx : RtCtx) (rt : Nat) (table : RouteTable) :
    ctx.uncounted.setTable rt table.uncounted = (ctx.setTable rt table).uncounted := by
  -- The table is the one that was set, or another one.
  unfold setTable uncounted
  congr 1
  funext other
  dsimp only
  by_cases own : other = rt
  · subst own
    rw [Function.update_self, Function.update_self]
    rfl
  · rw [Function.update_of_ne own, Function.update_of_ne own]

/-- Dropping a reference does not look at the use counts. -/
theorem delRte_uncounted (ctx : RtCtx) (at_ : Nat) :
    ctx.uncounted.delRte at_ = (ctx.delRte at_).map uncounted := by
  unfold delRte
  refine bind_erased (rte_uncounted ctx at_) fun rte => ?_
  split <;> rfl

/-- Nor does dropping those of a table. -/
theorem delRtes_uncounted (ctx : RtCtx) (mt : AList fun _ : UInt64 => Nat) :
    ctx.uncounted.delRtes mt = (ctx.delRtes mt).map uncounted :=
  foldlM_erased (fun ctx (thing : Sigma fun _ : UInt64 => Nat) => delRte_uncounted ctx thing.2)
    mt.entries ctx

/-- Nor does counting a record. -/
theorem bumpUpdates_uncounted (ctx : RtCtx) (rt : Nat) :
    ctx.uncounted.bumpUpdates rt = (ctx.bumpUpdates rt).map uncounted :=
  bind_erased (table_uncounted ctx rt) fun table =>
    congrArg Except.ok
      (setTable_uncounted ctx rt { table with updates := toInt (table.updates + 1) })

/-- Nor does counting one about managed elements. -/
theorem bumpMupdates_uncounted (ctx : RtCtx) (rt : Nat) :
    ctx.uncounted.bumpMupdates rt = (ctx.bumpMupdates rt).map uncounted :=
  bind_erased (table_uncounted ctx rt) fun table =>
    congrArg Except.ok
      (setTable_uncounted ctx rt { table with mupdates := toInt (table.mupdates + 1) })

/-- A new entry is put into a table. -/
theorem utaAddRte_uncounted (ctx : RtCtx) (mem : Mem) (rt : Nat) (key : UInt64) (nrrgroups : Int) :
    ctx.uncounted.utaAddRte mem rt key nrrgroups =
      (ctx.utaAddRte mem rt key nrrgroups).map uncountedOut := by
  by_cases made : mem.rte = false
  · unfold utaAddRte
    rw [if_pos made, if_pos made]
    rfl
  · -- The entry is made, and whatever was in its place in the table is given up.
    obtain ⟨rte, steps⟩ : ∃ rte, ∀ ctx : RtCtx, ctx.utaAddRte mem rt key nrrgroups =
        (ctx.withRte rte).table rt >>= fun table =>
          (table.hash.mt.lookup key).elim Except.ok (fun old ctx => ctx.delRte old)
            (ctx.withRte rte) >>= fun last =>
          .ok (last.setTable rt { table with hash.mt := table.hash.mt.insert key ctx.nextRte },
            some ctx.nextRte) := by
      refine ⟨⟨⟨key, 0, List.replicate (if nrrgroups < 0 then 10 else nrrgroups.toNat) none⟩, 1⟩,
        fun ctx => ?_⟩
      unfold utaAddRte
      rw [if_neg made]
      refine congrArg (RtCtx.table (ctx.withRte _) rt >>= ·) (funext fun table => ?_)
      cases table.hash.mt.lookup key <;> rfl
    have replaced : ∀ (mid : RtCtx) (table : RouteTable),
        (table.uncounted.hash.mt.lookup key).elim Except.ok (fun old ctx => ctx.delRte old)
            mid.uncounted =
          ((table.hash.mt.lookup key).elim Except.ok (fun old ctx => ctx.delRte old) mid).map
            uncounted := by
      intro mid table
      have same : table.uncounted.hash = table.hash := rfl
      rw [same]
      cases table.hash.mt.lookup key with
      | none => rfl
      | some old => exact delRte_uncounted mid old
    rw [steps, steps]
    refine bind_erased (table_uncounted (ctx.withRte rte) rt) fun table => ?_
    refine bind_erased (replaced (ctx.withRte rte) table) fun last => ?_
    exact congrArg (fun ctx => Except.ok (ctx, some _)) (setTable_uncounted last rt
      { table with hash.mt := table.hash.mt.insert key ctx.nextRte })

/-- Nor does building an entry. -/
theorem buildEntry_uncounted (ctx : RtCtx) (conf : RtConf) (mem : Mem) (rt : Nat)
    (tsField : Option CStr) (subid : Int) (rrField : Option CStr) :
    ctx.uncounted.buildEntry conf mem rt tsField subid rrField =
      (ctx.buildEntry conf mem rt tsField subid rrField).map uncounted := by
  -- The branches of `build_entry`, in none of which a use count is looked at.
  unfold buildEntry
  cases tsField with
  | none => rfl
  | some tsField =>
    cases rrField with
    | none => rfl
    | some rrField =>
      simp only [clipped, ok_bind]
      split
      · split
        · rfl
        · refine bind_erased (utaAddRte_uncounted ctx mem rt _ _) ?_
          rintro ⟨mid, at_⟩
          cases at_ with
          | none => rfl
          | some at_ => exact bind_erased (rte_uncounted mid at_) fun rte => rfl
      · rfl

/-- Nor does taking one away. -/
theorem trashEntry_uncounted (ctx : RtCtx) (conf : RtConf) (rt : Nat) (tsField : CStr)
    (subid : Int) :
    ctx.uncounted.trashEntry conf rt tsField subid =
      (ctx.trashEntry conf rt tsField subid).map uncounted := by
  -- The table has the same entries with its count left out, so that the same one is found.
  unfold trashEntry
  dsimp only
  split
  · refine bind_erased (table_uncounted ctx rt) fun table => ?_
    have same : table.uncounted.hash = table.hash := rfl
    rw [same]
    cases table.hash.mt.lookup (buildRtKey subid (atoi (clip tsField))) with
    | none => rfl
    | some at_ =>
      exact (congrArg (fun ctx : RtCtx => ctx.delRte at_) (setTable_uncounted ctx rt
        { table with hash.mt := table.hash.mt.erase _ })).trans (delRte_uncounted _ at_)
  · rfl

/-- Nor does adding managed elements. -/
theorem parseMeidAr_uncounted (ctx : RtCtx) (mem : Mem) (rt : Nat) (owner meidList : CStr) :
    ctx.uncounted.parseMeidAr mem rt owner meidList =
      (ctx.parseMeidAr mem rt owner meidList).map uncounted := by
  -- Neither the endpoints nor the managed elements depend on a count.
  unfold parseMeidAr
  refine bind_erased (table_uncounted ctx rt) fun table => ?_
  have same : table.uncounted.hash = table.hash := rfl
  have known : ctx.uncounted.ephash = ctx.ephash := rfl
  rw [same, known]
  generalize List.foldl (ownMeid mem (clip owner)) _ _ = out
  obtain ⟨ephash, me⟩ := out
  exact congrArg (fun ctx : RtCtx => Except.ok { ctx with ephash := ephash })
    (setTable_uncounted ctx rt { table with hash.me := me })

/-- Nor does taking them away. -/
theorem parseMeidDel_uncounted (ctx : RtCtx) (rt : Nat) (meidList : CStr) :
    ctx.uncounted.parseMeidDel rt meidList = (ctx.parseMeidDel rt meidList).map uncounted :=
  bind_erased (table_uncounted ctx rt) fun table =>
    congrArg Except.ok (setTable_uncounted ctx rt { table with hash.me := _ })

/-- A table is freed. -/
theorem utaRtDrop_uncounted (ctx : RtCtx) (rt : Nat) :
    ctx.uncounted.utaRtDrop rt = (ctx.utaRtDrop rt).map uncounted := by
  -- The counts of entries do change here; both sides then lose the same table.
  unfold utaRtDrop
  refine bind_erased (table_uncounted ctx rt) fun table => ?_
  refine bind_erased (delRtes_uncounted ctx table.hash.mt) fun mid => ?_
  refine congrArg Except.ok ?_
  unfold uncounted
  congr 1
  funext other
  dsimp only
  by_cases own : other = rt
  · subst own
    rw [Function.update_self, Function.update_self]
    rfl
  · rw [Function.update_of_ne own, Function.update_of_ne own]

/-- Nor does freeing the table in progress. -/
theorem dropNew_uncounted (ctx : RtCtx) (rt : Nat) :
    ctx.uncounted.dropNew rt = (ctx.dropNew rt).map uncounted :=
  bind_erased (utaRtDrop_uncounted ctx rt) fun _ => rfl

/-- Nor does rolling it in. -/
theorem rollAndAck_uncounted (ctx : RtCtx) :
    ctx.uncounted.rollAndAck = ctx.rollAndAck.map uncounted := by
  -- The roll asks only whether the pending table has an error, which it has either way.
  have rolled : ctx.uncounted.rollTables = ctx.rollTables.map uncounted := by
    unfold rollTables
    have new : ctx.uncounted.newRtable = ctx.newRtable := rfl
    rw [new]
    cases ctx.newRtable with
    | none => rfl
    | some rt =>
      refine bind_erased (table_uncounted ctx rt) fun table => ?_
      have error : table.uncounted.error = table.error := rfl
      rw [error]
      cases table.error <;> rfl
  exact bind_erased rolled fun _ => rfl

/-- The end of a table, whose counts are looked at. -/
theorem counted_uncounted (ctx : RtCtx) (rt : Nat) (reason : CStr → RouteTable → NackReason)
    (counts : RouteTable → Int) (same : ∀ table, counts table.uncounted = counts table)
    (alike : ∀ count table, reason count table.uncounted = reason count table)
    {taken taken' : Except RtFault RtCtx} (takes : taken' = taken.map uncounted)
    (count : Option CStr) :
    (ctx.uncounted.table rt >>= fun table =>
      match count.filter (fun count => counts table ≠ atoi count) with
      | some count => (ctx.uncounted.sendRtAck (some (reason count table))).dropNew rt
      | none => taken') =
    (ctx.table rt >>= fun table =>
      match count.filter (fun count => counts table ≠ atoi count) with
      | some count => (ctx.sendRtAck (some (reason count table))).dropNew rt
      | none => taken).map uncounted := by
  -- The counts compared here are those of records, not those of users.
  refine bind_erased (table_uncounted ctx rt) fun table => ?_
  rw [same]
  cases count.filter fun count => counts table ≠ atoi count with
  | none => exact takes
  | some count =>
    dsimp only
    rw [alike]
    exact dropNew_uncounted (ctx.sendRtAck (some (reason count table))) rt

/-- Nor does the end of a table. -/
theorem newrtEnd_uncounted (ctx : RtCtx) (count : Option CStr) :
    ctx.uncounted.newrtEnd count = (ctx.newrtEnd count).map uncounted := by
  -- A full table is rolled in if the count of its records is as announced, and dropped otherwise.
  have new : ctx.uncounted.newRtable = ctx.newRtable := rfl
  unfold newrtEnd
  rw [new]
  have takes : (do
      let ctx ← ctx.uncounted.rollAndAck
      return { ctx with rtableReady := true, fullrt := true } : Except RtFault RtCtx) =
      (do
        let ctx ← ctx.rollAndAck
        return { ctx with rtableReady := true, fullrt := true }).map uncounted :=
    bind_erased (rollAndAck_uncounted ctx) fun _ => rfl
  have counted := fun rt => counted_uncounted ctx rt
    (fun count table => .missing count table.updates)
    RouteTable.updates (fun _ => rfl) (fun _ _ => rfl) takes
  cases count with
  | none =>
    cases ctx.newRtable with
    | none => rfl
    | some rt => exact counted rt none
  | some count =>
    cases ctx.newRtable with
    | none => rfl
    | some rt => exact counted rt (some count)

/-- Nor does the end of an update. -/
theorem updatertEnd_uncounted (ctx : RtCtx) (count : Option CStr) :
    ctx.uncounted.updatertEnd count = (ctx.updatertEnd count).map uncounted := by
  -- As at the end of a full table, but `fullrt` stays as it is.
  have new : ctx.uncounted.newRtable = ctx.newRtable := rfl
  unfold updatertEnd
  rw [new]
  have takes : (do
      let ctx ← ctx.uncounted.rollAndAck
      return { ctx with rtableReady := true } : Except RtFault RtCtx) =
      (do
        let ctx ← ctx.rollAndAck
        return { ctx with rtableReady := true }).map uncounted :=
    bind_erased (rollAndAck_uncounted ctx) fun _ => rfl
  cases ctx.newRtable with
  | none => rfl
  | some rt =>
    exact counted_uncounted ctx rt (fun _ _ => .unwritten) RouteTable.updates (fun _ => rfl)
      (fun _ _ => rfl) takes count

/-- Nor does the end of a map. -/
theorem meidMapEnd_uncounted (ctx : RtCtx) (count : Option CStr) :
    ctx.uncounted.meidMapEnd count = (ctx.meidMapEnd count).map uncounted := by
  -- Here the updates of the map are counted; the records of the table only fill the message.
  have new : ctx.uncounted.newRtable = ctx.newRtable := rfl
  unfold meidMapEnd
  rw [new]
  have counted := fun rt => counted_uncounted ctx rt
    (fun count table => .missing count table.updates)
    RouteTable.mupdates (fun _ => rfl) (fun _ _ => rfl) (rollAndAck_uncounted ctx)
  cases count with
  | none =>
    cases ctx.newRtable with
    | none => rfl
    | some rt => exact counted rt none
  | some count =>
    cases ctx.newRtable with
    | none => rfl
    | some rt => exact counted rt (some count)

/-- Nor does forcing out the table in progress. -/
theorem forceOut_uncounted (ctx : RtCtx) :
    ctx.uncounted.forceOut = ctx.forceOut.map uncounted := by
  -- Without a table in progress there is nothing to force out.
  have new : ctx.uncounted.newRtable = ctx.newRtable := rfl
  unfold forceOut
  rw [new]
  cases ctx.newRtable with
  | none => rfl
  | some rt => exact dropNew_uncounted (ctx.sendRtAck (some .notComplete)) rt

/-- A record that starts no table. -/
theorem plainly_uncounted {outcome outcome' : Except RtFault RtCtx}
    (same : outcome' = outcome.map uncounted) :
    plainly outcome' = (plainly outcome).map uncountedOut :=
  bind_erased same fun _ => rfl

/-- Nor does a `del` record. -/
theorem delRec_uncounted (ctx : RtCtx) (conf : RtConf) (fields : List CStr) :
    ctx.uncounted.delRec conf fields = (ctx.delRec conf fields).map uncounted := by
  -- Only a table in progress is changed by the record.
  have new : ctx.uncounted.newRtable = ctx.newRtable := rfl
  unfold delRec
  rw [new]
  split
  · exact bind_erased (trashEntry_uncounted ctx conf _ _ _) fun mid => bumpUpdates_uncounted mid _
  · rfl

/-- Nor does an `mse` record. -/
theorem mseRec_uncounted (ctx : RtCtx) (conf : RtConf) (mem : Mem) (fields : List CStr) :
    ctx.uncounted.mseRec conf mem fields = (ctx.mseRec conf mem fields).map uncounted := by
  -- The entry comes first, and then the record is counted.
  have new : ctx.uncounted.newRtable = ctx.newRtable := rfl
  unfold mseRec
  rw [new]
  split
  · exact bind_erased (buildEntry_uncounted ctx conf mem _ _ _ _) fun mid =>
      bumpUpdates_uncounted mid _
  · rfl

/-- Nor does an `rte` record. -/
theorem rteRec_uncounted (ctx : RtCtx) (conf : RtConf) (mem : Mem) (fields : List CStr) :
    ctx.uncounted.rteRec conf mem fields = (ctx.rteRec conf mem fields).map uncounted := by
  -- Other than for `mse`, the record is counted before the entry is built.
  have new : ctx.uncounted.newRtable = ctx.newRtable := rfl
  unfold rteRec
  rw [new]
  split
  · rfl
  · exact bind_erased (bumpUpdates_uncounted ctx _) fun mid =>
      buildEntry_uncounted mid conf mem _ _ _ _

/-- Nor does a record about managed elements. -/
theorem mmeRec_uncounted (ctx : RtCtx) (mem : Mem) (name first : CStr) (fields : List CStr) :
    ctx.uncounted.mmeRec mem name first fields =
      (ctx.mmeRec mem name first fields).map uncounted := by
  -- The records are told apart by the name and the fields, the same on both sides.
  have new : ctx.uncounted.newRtable = ctx.newRtable := rfl
  unfold mmeRec
  rw [new]
  split
  · rfl
  · split
    · split
      · rfl
      · exact bind_erased (parseMeidAr_uncounted ctx mem _ _ _) fun mid =>
          bumpMupdates_uncounted mid _
    · split
      · exact bind_erased (parseMeidDel_uncounted ctx _ _) fun mid => bumpMupdates_uncounted mid _
      · rfl

/-- Nor does a `newrt` record. -/
theorem newrtRec_uncounted (ctx : RtCtx) (fields : List CStr) :
    ctx.uncounted.newrtRec fields = (ctx.newrtRec fields).map uncountedOut := by
  -- An end of the table, or anything else, which forces the table in progress out.
  unfold newrtRec
  cases clipped fields[0]? with
  | error fault => rfl
  | ok what =>
    simp only [ok_bind]
    split
    · exact plainly_uncounted (newrtEnd_uncounted ctx _)
    · exact bind_erased (forceOut_uncounted ctx) fun _ => rfl

/-- Nor does an `updatert` record. -/
theorem updatertRec_uncounted (ctx : RtCtx) (fields : List CStr) :
    ctx.uncounted.updatertRec fields = (ctx.updatertRec fields).map uncountedOut := by
  -- Without a full table the record is refused on either side.
  have full : ctx.uncounted.fullrt = ctx.fullrt := rfl
  unfold updatertRec
  rw [full]
  split
  · rfl
  · cases clipped fields[0]? with
    | error fault => rfl
    | ok what =>
      simp only [ok_bind]
      split
      · exact plainly_uncounted (updatertEnd_uncounted ctx _)
      · exact bind_erased (forceOut_uncounted ctx) fun _ => rfl

/-- Nor does a `meid_map` record. -/
theorem meidParser_uncounted (ctx : RtCtx) (mem : Mem) (name : CStr) (fields : List CStr) :
    ctx.uncounted.meidParser mem name fields =
      (ctx.meidParser mem name fields).map uncountedOut := by
  -- The kinds of record the parser of the map knows, one by one.
  unfold meidParser
  cases fields with
  | nil => rfl
  | cons first fields =>
    dsimp only
    split
    · unfold meidMapRec
      dsimp only
      split
      · exact bind_erased (forceOut_uncounted ctx) fun _ => rfl
      · split
        · exact plainly_uncounted (meidMapEnd_uncounted ctx _)
        · rfl
    · exact plainly_uncounted (mmeRec_uncounted ctx mem name first fields)

/-- A record does the same, up to the point where it may start a table. -/
theorem beginRec_uncounted (ctx : RtCtx) (conf : RtConf) (mem : Mem) (buf : CStr) :
    ctx.uncounted.beginRec conf mem buf = (ctx.beginRec conf mem buf).map uncountedOut := by
  -- The record is told by its name, and each kind of record was seen above.
  unfold beginRec
  split
  · rfl
  · dsimp only
    split
    · exact plainly_uncounted (delRec_uncounted ctx conf _)
    · exact newrtRec_uncounted ctx _
    · split
      · exact plainly_uncounted (mseRec_uncounted ctx conf mem _)
      · exact meidParser_uncounted ctx mem _ _
    · exact plainly_uncounted (rteRec_uncounted ctx conf mem _)
    · exact updatertRec_uncounted ctx _
    · rfl

/-- The old table is cleared. -/
theorem prepClear_uncounted (ctx : RtCtx) :
    ctx.uncounted.prepClear = ctx.prepClear.map uncounted := by
  -- The table that is cleared keeps its count, which is left out on both sides.
  have prep : ctx.uncounted.prepRt = ctx.prepRt := rfl
  unfold prepClear
  rw [prep]
  cases ctx.prepRt with
  | none => rfl
  | some rt =>
    refine bind_erased (table_uncounted ctx rt) fun table => ?_
    refine bind_erased (delRtes_uncounted ctx table.hash.mt) fun mid => ?_
    exact congrArg Except.ok
      (setTable_uncounted mid rt { table with hash := ⟨∅, ∅⟩, error := false })

/-- Nor does cloning managed elements. -/
theorem cloneMe_uncounted (ctx : RtCtx) (srt nrt : Nat) :
    ctx.uncounted.cloneMe srt nrt = (ctx.cloneMe srt nrt).map uncounted := by
  refine bind_erased (table_uncounted ctx srt) fun source => ?_
  refine foldlM_erased (fun ctx thing => ?_) source.hash.me.entries ctx
  exact bind_erased (table_uncounted ctx nrt) fun table => congrArg Except.ok
    (setTable_uncounted ctx nrt { table with hash.me := table.hash.me.insert thing.1 thing.2 })

/-- Nor does cloning entries. -/
theorem cloneMt_uncounted (ctx : RtCtx) (srt nrt : Nat) :
    ctx.uncounted.cloneMt srt nrt = (ctx.cloneMt srt nrt).map uncounted := by
  -- Each entry is counted up for its new table; those are counts of entries, not of users.
  refine bind_erased (table_uncounted ctx srt) fun source => ?_
  refine foldlM_erased (fun ctx thing => ?_) source.hash.mt.entries ctx
  refine bind_erased (rte_uncounted ctx thing.2) fun rte => ?_
  exact bind_erased (table_uncounted (ctx.setRte thing.2 _) nrt) fun table => congrArg Except.ok
    (setTable_uncounted (ctx.setRte thing.2 _) nrt
      { table with hash.mt := table.hash.mt.insert rte.entry.key thing.2 })

/-- Nor does cloning either space. -/
theorem rtCloneSpace_uncounted (ctx : RtCtx) (mem : Mem) (srt nrt : Nat) (space : Space) :
    ctx.uncounted.rtCloneSpace mem srt nrt space =
      (ctx.rtCloneSpace mem srt nrt space).map uncounted := by
  -- If the space for the things to clone is not there, the table is only marked.
  unfold rtCloneSpace
  cases mem.capture space with
  | unchecked => rfl
  | failed =>
    exact bind_erased (table_uncounted ctx nrt) fun table =>
      congrArg Except.ok (setTable_uncounted ctx nrt { table with error := true })
  | all =>
    cases space with
    | me => exact cloneMe_uncounted ctx srt nrt
    | mt => exact cloneMt_uncounted ctx srt nrt

/-- At first nothing is counted. -/
theorem init_uncounted : RtCtx.init.uncounted = RtCtx.init := by
  -- The first table is in nobody's use; the others are not there.
  unfold uncounted
  congr 1
  funext rt
  by_cases zero : rt = 0
  · subst zero
    rfl
  · simp [init, Function.update_of_ne zero]

/-- A new table is in nobody's use. -/
theorem utaRtInit_uncounted (ctx : RtCtx) (made : Bool) :
    ctx.uncounted.utaRtInit made = uncountedOut (ctx.utaRtInit made) := by
  -- The new table is written with count 0, so that leaving counts out changes nothing.
  cases made with
  | false => rfl
  | true =>
    have added := setTable_uncounted ctx ctx.nextTable RouteTable.empty
    have tables := congrArg RtCtx.tables added
    refine Prod.ext ?_ rfl
    change { ctx.uncounted with
      tables := Function.update ctx.uncounted.tables ctx.nextTable (some RouteTable.empty)
      nextTable := ctx.nextTable + 1 } = _
    have same : Function.update ctx.uncounted.tables ctx.nextTable (some RouteTable.empty) =
        ((ctx.setTable ctx.nextTable RouteTable.empty).uncounted).tables := tables
    rw [same]
    rfl

/-- A table is cloned into one that is there. -/
theorem cloneInto_uncounted (ctx : RtCtx) (mem : Mem) (srt drt : Nat) (all : Bool) :
    (do
      let ctx ← ctx.uncounted.rtCloneSpace mem srt drt .me
      let ctx ← if all then ctx.rtCloneSpace mem srt drt .mt else .ok ctx
      return (ctx, some drt) : Except RtFault (RtCtx × Option Nat)) =
    (do
      let ctx ← ctx.rtCloneSpace mem srt drt .me
      let ctx ← if all then ctx.rtCloneSpace mem srt drt .mt else .ok ctx
      return (ctx, some drt) : Except RtFault (RtCtx × Option Nat)).map uncountedOut := by
  -- Managed elements are always cloned, and entries only where all is asked for.
  refine bind_erased (rtCloneSpace_uncounted ctx mem srt drt .me) fun mid => ?_
  cases all with
  | true => exact bind_erased (rtCloneSpace_uncounted mid mem srt drt .mt) fun _ => rfl
  | false => rfl

/-- Nor does cloning a table. -/
theorem utaRtClone_uncounted (ctx : RtCtx) (mem : Mem) (srt drt : Option Nat) (all : Bool) :
    ctx.uncounted.utaRtClone mem srt drt all =
      (ctx.utaRtClone mem srt drt all).map uncountedOut := by
  -- The clone goes into the table that is given, or into a new one.
  unfold utaRtClone
  cases drt with
  | some drt =>
    cases srt with
    | none => rfl
    | some srt => exact cloneInto_uncounted ctx mem srt drt all
  | none =>
    dsimp only
    rw [utaRtInit_uncounted]
    obtain ⟨made, drt⟩ := ctx.utaRtInit (mem.table 0)
    cases drt with
    | some drt =>
      cases srt with
      | none => rfl
      | some srt => exact cloneInto_uncounted made mem srt drt all
    | none =>
      cases srt with
      | none => rfl
      | some srt => rfl

/-- Nor does cloning into the new one that is prepared. -/
theorem prepClone_uncounted (ctx : RtCtx) (mem : Mem) (all : Bool) :
    ctx.uncounted.prepClone mem all = (ctx.prepClone mem all).map uncountedOut := by
  unfold prepClone
  refine bind_erased (utaRtClone_uncounted ctx mem ctx.rtable ctx.prepRt all) fun cloned => ?_
  obtain ⟨mid, rt⟩ := cloned
  cases rt with
  | some rt =>
    -- Nobody uses a table that was cloned just now.
    exact bind_erased (table_uncounted mid rt) fun table =>
      congrArg (fun ctx : RtCtx => Except.ok (ctx, rt))
        (setTable_uncounted mid rt { table with refCount := 0 })
  | none =>
    -- No table could be had, and a dummy one is made.
    dsimp only [uncountedOut]
    rw [utaRtInit_uncounted]
    obtain ⟨made, rt⟩ := mid.utaRtInit (mem.table 1)
    cases rt with
    | none => rfl
    | some rt =>
      exact congrArg (fun ctx : RtCtx => Except.ok (ctx, rt))
        (setTable_uncounted made rt { RouteTable.empty with error := true })

/-- A table is started. -/
theorem startTable_uncounted (ctx : RtCtx) (mem : Mem) (kind : TableKind) :
    ctx.uncounted.startTable mem kind = (ctx.startTable mem kind).map uncounted := by
  unfold startTable
  refine bind_erased (prepClone_uncounted ctx mem _) fun cloned => ?_
  obtain ⟨mid, rt⟩ := cloned
  refine bind_erased (table_uncounted mid rt) fun table => ?_
  have put := fun table : RouteTable => congrArg
    (fun ctx : RtCtx => (.ok { ctx with newRtable := some rt, prepRt := none } :
      Except RtFault RtCtx))
    (setTable_uncounted mid rt table)
  -- Only one of the two counts starts anew.
  cases kind with
  | meidMap => exact put { table with mupdates := 0 }
  | newrt => exact put { table with updates := 0 }
  | updatert => exact put { table with updates := 0 }

/-- A sender that gets a table or releases it changes nothing else. -/
theorem setCount_uncounted {ctx : RtCtx} {rt : Nat} {table : RouteTable}
    (there : ctx.table rt = .ok table) (count : Int) :
    (ctx.setTable rt { table with refCount := count }).uncounted = ctx.uncounted := by
  -- Written over with another count, the table reads the same when counts are left out.
  have there : ctx.tables rt = some table := by
    unfold RtCtx.table at there
    cases is : ctx.tables rt with
    | none =>
      rw [is] at there
      cases there
    | some other =>
      rw [is] at there
      cases there
      rfl
  unfold uncounted
  congr 1
  funext other
  by_cases own : other = rt
  · subst own
    rw [there]
    simp [setTable, RouteTable.uncounted]
  · simp [setTable, Function.update_of_ne own]

end RtCtx

end Rmr
