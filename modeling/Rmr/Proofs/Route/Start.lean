import Rmr.Proofs.Route.Record

/-! How a table is started: the old one is taken for it, cleared, and the active one cloned into it.
-/

namespace Rmr

namespace RtCtx

variable {ctx mid next : RtCtx} {rt srt nrt : Nat} {table source : RouteTable}

/-- The old table is taken off the context. -/
theorem prepDetach_ok (ok : ctx.Ok) (new : ctx.newRtable = none) (prep : ctx.prepRt = none) :
    ctx.prepDetach.Ok := by
  -- The old table is still reached: the pointer in preparation has it now.
  refine ⟨Sound.congr ok.sound rfl rfl rfl fun _ => rfl, ?_, ?_, ?_, ?_, ?_⟩
  · intro rt
    refine (ok.reached rt).trans ?_
    rw [new, prep]
    simp only [prepDetach, new, reduceCtorEq, false_or, or_false]
  · intro rt active
    exact ⟨by simp [prepDetach], (ok.apart rt active).2.1, (ok.apart rt active).1⟩
  · intro some_
    exact absurd new some_
  · intro _
    rfl
  · exact ok.active

/-- What clearing the table that was taken off does. -/
structure Clears (ctx next : RtCtx) : Prop where
  ok : next.Ok
  later : ctx.Later next
  others : ∀ rt, ctx.prepRt ≠ some rt → next.tables rt = ctx.tables rt
  cleared : ∀ rt, ctx.prepRt = some rt → ∃ table, ctx.tables rt = some table ∧
    next.tables rt = some { table with hash := ⟨∅, ∅⟩, error := false }
  place : next.place = ctx.place

/-- The table that was taken off is cleared, with all its entries. -/
theorem prepClear_ok (ok : ctx.Ok) : ∃ next, ctx.prepClear = .ok next ∧ Clears ctx next := by
  unfold prepClear
  cases prep : ctx.prepRt with
  | none =>
    exact ⟨ctx, rfl, ok, .refl ctx, fun _ _ => rfl, by simp [prep], rfl⟩
  | some rt =>
    obtain ⟨table, there⟩ := Option.ne_none_iff_exists'.mp
      ((ok.reached rt).mpr (.inr (.inr (.inr prep))))
    obtain ⟨rtes, deleted, objs, later⟩ := delRtes_ok fun key id => ok.sound.held there
    refine ⟨RtCtx.setTable { ctx with rtes := rtes } rt
      { table with hash := ⟨∅, ∅⟩, error := false },
      bind_eq_ok.mpr ⟨table, table_ok there, bind_eq_ok.mpr ⟨_, deleted, rfl⟩⟩,
      ⟨?_, ?_, ok.apart, ok.pending, ok.detached, ok.active⟩, ⟨later.grows, later.kept⟩,
        ?_, ?_, rfl⟩
    · -- Giving up everything leaves the table empty.
      refine ok.sound.giveUp there (fun _ _ is => is) objs rfl rfl rfl ?_
      intro key
      rw [AList.lookup_empty, without]
      split
      · rename_i absent
        exact absent.symm
      · rfl
    · intro other
      by_cases own : other = rt
      · subst own
        simp [setTable, prep]
      · simp only [setTable, Function.update_of_ne own]
        exact ok.reached other
    · intro other different
      apply Function.update_of_ne
      intro equal
      rw [equal] at different
      exact different prep
    · intro other is
      cases prep.symm.trans is
      exact ⟨table, there, Function.update_self _ _ _⟩

/-- The managed element ids of one table are put into another. -/
theorem rtCloneSpace_me (sound : ctx.Sound) (from_ : ctx.tables srt = some source)
    (there : ctx.tables nrt = some table) (mem : Mem) :
    Ends (fun fault => fault = RtFault.nil ∧ mem.capture .me ≠ .all)
      (fun next => Edits ctx nrt next ∧ ∃ table', next.tables nrt = some table' ∧
        table'.hash.mt = table.hash.mt ∧
        (mem.capture .me = .all → table'.error = table.error ∧
          ∀ meid, table'.hash.me.lookup meid =
            (source.hash.me.lookup meid).or (table.hash.me.lookup meid)))
      (ctx.rtCloneSpace mem srt nrt .me) := by
  -- The branches follow what the collection of the ids comes to: all of them, none, or a nil table.
  unfold rtCloneSpace
  cases capture : mem.capture .me with
  | all =>
    obtain ⟨me, cloned, lookup⟩ := cloneMe_ok from_ there
    simp only [cloned]
    exact ⟨edits_setTable sound there ctx.ephash rfl rfl, { table with hash.me := me },
      Function.update_self _ _ _, rfl, fun _ => ⟨rfl, lookup⟩⟩
  | failed =>
    simp only [table_ok there]
    exact ⟨edits_setTable sound there ctx.ephash rfl rfl, { table with error := true },
      Function.update_self _ _ _, rfl, fun all => absurd all (by simp)⟩
  | unchecked => exact ⟨rfl, by simp⟩

/-- The entries of one table are put into another one, which has none. -/
theorem rtCloneSpace_mt (sound : ctx.Sound) (from_ : ctx.tables srt = some source)
    (there : ctx.tables nrt = some table) (empty : ∀ key, table.hash.mt.lookup key = none)
    (mem : Mem) :
    Ends (fun fault => fault = RtFault.nil ∧ mem.capture .mt ≠ .all)
      (fun next => Edits ctx nrt next ∧ ∃ table', next.tables nrt = some table' ∧
        (mem.capture .mt = .all → table'.error = table.error ∧ table'.hash.me = table.hash.me ∧
          ∀ key, table'.hash.mt.lookup key = source.hash.mt.lookup key))
      (ctx.rtCloneSpace mem srt nrt .mt) := by
  -- The branches follow what the collection of the entries comes to: all of them, or not.
  unfold rtCloneSpace
  cases capture : mem.capture .mt with
  | all =>
    obtain ⟨rtes, mt, cloned, objs, lookup, later⟩ := cloneMt_ok from_ there
      fun key id => sound.held from_
    simp only [cloned]
    refine ⟨⟨?_, ⟨later.grows, later.kept⟩, ?_, ?_, rfl⟩, { table with hash.mt := mt },
      Function.update_self _ _ _, fun _ => ⟨rfl, rfl, ?_⟩⟩
    · exact sound.share there (fun key id => sound.held from_) (fun key _ => empty key) objs rfl rfl
        rfl lookup
    · intro other different
      exact Function.update_of_ne different _ _
    · exact ⟨table, { table with hash.mt := mt }, there, Function.update_self _ _ _, rfl⟩
    · intro key
      refine (lookup key).trans ?_
      rw [empty, Option.or_none]
  | failed =>
    simp only [table_ok there]
    exact ⟨edits_setTable sound there ctx.ephash rfl rfl, { table with error := true },
      Function.update_self _ _ _, fun all => absurd all (by simp)⟩
  | unchecked => exact ⟨rfl, by simp⟩

/-- Nothing that a table is cloned with fails. -/
def Captures (mem : Mem) : Prop := mem.table 0 = true ∧ ∀ space, mem.capture space = .all

/-- What a table that was cloned from another one is to hold. -/
def Copies (source : RouteTable) (all : Bool) (copy : RouteTable) : Prop :=
  copy.error = false ∧
    (∀ meid, copy.hash.me.lookup meid = source.hash.me.lookup meid) ∧
    ∀ key, copy.hash.mt.lookup key = if all then source.hash.mt.lookup key else none

/-- A table is cloned into one that is empty. -/
theorem utaRtClone_ends (sound : ctx.Sound) (from_ : ctx.tables srt = some source)
    (there : ctx.tables nrt = some table) (empty : table.hash = ⟨∅, ∅⟩)
    (error : table.error = false) (apart : srt ≠ nrt) (mem : Mem) (all : Bool) :
    Ends (fun fault => fault = RtFault.nil ∧ ¬ Captures mem)
      (fun out => out.2 = some nrt ∧ Edits ctx nrt out.1 ∧
        ∃ table', out.1.tables nrt = some table' ∧ (Captures mem → Copies source all table'))
      (ctx.utaRtClone mem (some srt) (some nrt) all) := by
  -- The ids are cloned first; the entries only if all of the table is asked for.
  have noMe : ∀ meid, table.hash.me.lookup meid = none := by
    intro meid
    rw [empty]
    exact AList.lookup_empty meid
  have noMt : ∀ key, table.hash.mt.lookup key = none := by
    intro key
    rw [empty]
    exact AList.lookup_empty key
  refine Ends.bind ((rtCloneSpace_me sound from_ there mem).allow ?_) ?_
  · intro fault nil_
    exact ⟨nil_.1, fun captures => nil_.2 (captures.2 .me)⟩
  · rintro mid ⟨first, table', there', mt, me⟩
    have owners : Captures mem → table'.error = false ∧
        ∀ meid, table'.hash.me.lookup meid = source.hash.me.lookup meid := by
      intro captures
      obtain ⟨error', lookup⟩ := me (captures.2 .me)
      refine ⟨error'.trans error, fun meid => ?_⟩
      rw [lookup, noMe, Option.or_none]
    cases all with
    | false =>
      refine ⟨rfl, first, table', there', fun captures => ?_⟩
      refine ⟨(owners captures).1, (owners captures).2, fun key => ?_⟩
      rw [mt, noMt]
      rfl
    | true =>
      have from' : mid.tables srt = some source := by rw [first.others srt apart, from_]
      have empty' : ∀ key, table'.hash.mt.lookup key = none := fun key => by rw [mt, noMt]
      refine Ends.bind ((rtCloneSpace_mt first.sound from' there' empty' mem).allow ?_) ?_
      · intro fault nil_
        exact ⟨nil_.1, fun captures => nil_.2 (captures.2 .mt)⟩
      · rintro next ⟨second, table'', there'', mt'⟩
        refine ⟨rfl, first.trans second, table'', there'', fun captures => ?_⟩
        obtain ⟨error', me', lookup⟩ := mt' (captures.2 .mt)
        refine ⟨error'.trans (owners captures).1, fun meid => ?_, lookup⟩
        rw [me']
        exact (owners captures).2 meid

/-- What starting a table does. -/
structure Starts (ctx : RtCtx) (mem : Mem) (kind : TableKind) (source : RouteTable) (next : RtCtx)
    (rt : Nat) : Prop where
  ok : next.Ok
  later : ctx.Later next
  /-- The table is the one that was taken off, or it was allocated. -/
  taken : ctx.prepRt = some rt ∨ ctx.prepRt = none ∧ rt = ctx.nextTable
  others : ∀ other, other ≠ rt → next.tables other = ctx.tables other
  started : ∃ table, next.tables rt = some table ∧ table.refCount = 0 ∧
    (if kind = .meidMap then table.mupdates = 0 else table.updates = 0) ∧
    (Captures mem → Copies source (kind ≠ .newrt) table)
  rtable : next.rtable = ctx.rtable
  oldRtable : next.oldRtable = ctx.oldRtable
  newRtable : next.newRtable = some rt
  prepRt : next.prepRt = none
  rolls : next.rolls = ctx.rolls
  fullrt : next.fullrt = ctx.fullrt

/-- The table that is to be started is there, with nothing in it. -/
structure Target (ctx mid : RtCtx) (nrt : Nat) : Prop where
  sound : mid.Sound
  later : ctx.Later mid
  taken : ctx.prepRt = some nrt ∨ ctx.prepRt = none ∧ nrt = ctx.nextTable
  others : ∀ other, other ≠ nrt → mid.tables other = ctx.tables other
  empty : ∃ table, mid.tables nrt = some table ∧ table.hash = ⟨∅, ∅⟩ ∧ table.error = false
  place : mid = { ctx with tables := mid.tables, nextTable := mid.nextTable }

/-- Whichever table is to be started, the clone goes into one that is there and empty. -/
theorem target_ok (ok : ctx.Ok) (cleared : ∀ rt, ctx.prepRt = some rt → ∃ table,
      ctx.tables rt = some table ∧ table.hash = ⟨∅, ∅⟩ ∧ table.error = false)
    {mem : Mem} (made : ctx.prepRt = none → mem.table 0 = true) (srt : Nat) :
    ∃ mid nrt, Target ctx mid nrt ∧ ∀ all, ctx.utaRtClone mem (some srt) ctx.prepRt all =
      mid.utaRtClone mem (some srt) (some nrt) all := by
  cases prep : ctx.prepRt with
  | some nrt =>
    exact ⟨ctx, nrt, ⟨ok.sound, .refl ctx, .inl prep, fun _ _ => rfl, cleared nrt prep, rfl⟩,
      fun _ => rfl⟩
  | none =>
    -- A table is allocated when none was taken off.
    refine ⟨(ctx.utaRtInit true).1, ctx.nextTable, ⟨?_, ?_, .inr ⟨prep, rfl⟩, ?_, ?_, rfl⟩, ?_⟩
    · exact ok.sound.alloc rfl rfl rfl rfl fun key => AList.lookup_empty key
    · exact ⟨Nat.le_refl _, (Later.refl ctx).kept⟩
    · intro other different
      exact Function.update_of_ne different _ _
    · exact ⟨RouteTable.empty, Function.update_self _ _ _, rfl, rfl⟩
    · intro all
      unfold utaRtClone
      rw [made prep]
      rfl

/-- The table that was prepared becomes the one in progress. -/
theorem Target.starts (ok : ctx.Ok) (new : ctx.newRtable = none) (old : ctx.oldRtable = none)
    (target : Target ctx mid nrt) (edits : Edits mid nrt next) {kind : TableKind} {mem : Mem}
    (there : next.tables nrt = some table)
    (copies : Captures mem → Copies source (kind ≠ .newrt) table) {table' : RouteTable}
    (hash : table'.hash = table.hash) (error : table'.error = table.error)
    (count : table'.refCount = 0)
    (reset : if kind = .meidMap then table'.mupdates = 0 else table'.updates = 0) :
    Starts ctx mem kind source
      { next.setTable nrt table' with newRtable := some nrt, prepRt := none } nrt := by
  have place := edits.place
  rw [target.place] at place
  simp only [RtCtx.place, Prod.mk.injEq] at place
  obtain ⟨rtable, oldRtable, _, prepRt, nextTable, rolls, fullrt⟩ := place
  have others : ∀ other, other ≠ nrt →
      Function.update next.tables nrt (some table') other = ctx.tables other := by
    intro other different
    rw [Function.update_of_ne different, edits.others other different,
      target.others other different]
  -- Nothing else referred to the table that is taken.
  have unused : ctx.rtable ≠ some nrt := by
    intro active
    rcases target.taken with prep | ⟨_, fresh⟩
    · exact (ok.apart nrt active).2.2 prep
    · have there := (ok.reached nrt).mpr (.inl active)
      exact there (ok.sound.newTable nrt (by omega))
  have prepped : ∀ other, other ≠ nrt → ctx.prepRt ≠ some other := by
    intro other different
    rcases target.taken with prep | ⟨prep, _⟩
    · rw [prep]
      exact fun equal => different (Option.some.inj equal).symm
    · rw [prep]
      simp
  refine ⟨⟨?_, ?_, ?_, ?_, ?_, ?_⟩, ?_, target.taken, others, ?_, rtable, oldRtable,
    rfl, rfl, rolls,
    fullrt⟩
  · exact Sound.congr (edits.sound.setTable there (by rw [hash])) rfl rfl rfl fun _ => rfl
  · intro other
    show Function.update next.tables nrt (some table') other ≠ none ↔ next.rtable = some other ∨
      next.oldRtable = some other ∨ some nrt = some other ∨ none = some other
    by_cases own : other = nrt
    · subst own
      simp
    · rw [others other own, ok.reached other, rtable, oldRtable, new]
      simp [prepped other own, Ne.symm own]
  · intro other active
    have active : next.rtable = some other := active
    rw [rtable] at active
    refine ⟨?_, ?_, by simp⟩
    · show next.oldRtable ≠ some other
      rw [oldRtable, old]
      simp
    · intro equal
      cases equal
      exact unused active
  · intro _
    exact ⟨oldRtable.trans old, rfl⟩
  · intro some_
    exact absurd rfl some_
  · show next.rtable ≠ none
    rw [rtable]
    exact ok.active
  · have later := target.later.trans edits.later
    exact ⟨later.grows, later.kept⟩
  · refine ⟨table', Function.update_self _ _ _, count, reset, fun captures => ?_⟩
    obtain ⟨noError, me, mt⟩ := copies captures
    refine ⟨error.trans noError, ?_, ?_⟩
    · rw [hash]
      exact me
    · rw [hash]
      exact mt

/-- A table is started. -/
theorem startTable_ends (ok : ctx.Ok) (new : ctx.newRtable = none) (old : ctx.oldRtable = none)
    (cleared : ∀ rt, ctx.prepRt = some rt → ∃ table, ctx.tables rt = some table ∧
      table.hash = ⟨∅, ∅⟩ ∧ table.error = false)
    (active : ctx.rtable = some srt) (from_ : ctx.tables srt = some source) (mem : Mem)
    (kind : TableKind) :
    Ends (fun fault => fault = RtFault.nil ∧ ¬ Captures mem)
      (fun next => ∃ rt, Starts ctx mem kind source next rt) (ctx.startTable mem kind) := by
  by_cases made : ctx.prepRt = none → mem.table 0 = true
  · obtain ⟨mid, nrt, target, same⟩ := target_ok ok cleared made srt
    obtain ⟨table, there, empty, error⟩ := target.empty
    have apart : srt ≠ nrt := by
      intro equal
      subst equal
      rcases target.taken with prep | ⟨_, fresh⟩
      · exact (ok.apart srt active).2.2 prep
      · rw [ok.sound.newTable srt (by omega)] at from_
        cases from_
    have from' : mid.tables srt = some source := by rw [target.others srt apart, from_]
    have cloned := utaRtClone_ends target.sound from' there empty error apart mem (kind ≠ .newrt)
    rw [← same] at cloned
    -- The clone becomes the table in progress, once its counters are reset.
    have prepared : Ends (fun fault => fault = RtFault.nil ∧ ¬ Captures mem)
        (fun out => ∃ next table', out = (next.setTable nrt { table' with refCount := 0 }, nrt) ∧
          Edits mid nrt next ∧ next.tables nrt = some table' ∧
          (Captures mem → Copies source (kind ≠ .newrt) table'))
        (ctx.prepClone mem (kind ≠ .newrt)) := by
      unfold prepClone
      rw [active]
      refine cloned.bind ?_
      rintro ⟨next, out⟩ ⟨rfl, edits, table', there', copies⟩
      simp only [table_ok there', Bind.bind, Except.bind]
      exact ⟨next, table', rfl, edits, there', copies⟩
    refine prepared.bind ?_
    rintro out ⟨next, table', rfl, edits, there', copies⟩
    have again : (next.setTable nrt { table' with refCount := 0 }).tables nrt =
        some { table' with refCount := 0 } := Function.update_self _ _ _
    have twice : ∀ one two, (next.setTable nrt one).setTable nrt two = next.setTable nrt two := by
      intro one two
      simp [setTable]
    simp only [table_ok again, Bind.bind, Except.bind, twice]
    refine ⟨nrt, target.starts ok new old edits there' copies ?_ ?_ ?_ ?_⟩
    · cases kind <;> rfl
    · cases kind <;> rfl
    · cases kind <;> rfl
    · cases kind <;> simp
  · obtain ⟨prep, unmade⟩ := Classical.not_imp.mp made
    have unmade' : mem.table 0 = false := by simpa using unmade
    have faults : ctx.startTable mem kind = .error .nil := by
      unfold startTable prepClone utaRtClone
      rw [active, prep, unmade']
      rfl
    rw [faults]
    exact ⟨rfl, fun captures => unmade captures.1⟩

/-- Between records no table is taken off. -/
structure Idle (ctx : RtCtx) : Prop extends ctx.Ok where
  idle : ctx.prepRt = none

/-- What the start of a table does once there is none in progress. -/
theorem start_ok (ok : ctx.Idle) (new : ctx.newRtable = none) (active : ctx.rtable = some srt)
    (from_ : ctx.tables srt = some source) (mem : Mem) (kind : TableKind) :
    ∃ mid, ctx.prepDetach.prepClear = .ok mid ∧ Clears ctx.prepDetach mid ∧
      mid.tables srt = some source ∧
      Ends (fun fault => fault = RtFault.nil ∧ ¬ Captures mem)
        (fun next => ∃ rt, Starts mid mem kind source next rt) (mid.startTable mem kind) := by
  -- The old table is detached and cleared, and then the active one is cloned into it.
  obtain ⟨mid, cleared, clears⟩ := prepClear_ok (prepDetach_ok ok.toOk new ok.idle)
  have place := clears.place
  simp only [RtCtx.place, Prod.mk.injEq] at place
  obtain ⟨rtable, old, new', prep, _⟩ := place
  have from' : mid.tables srt = some source := by
    rw [clears.others srt (ok.apart srt active).1]
    exact from_
  refine ⟨mid, cleared, clears, from', ?_⟩
  refine startTable_ends clears.ok (new'.trans new) old ?_ (rtable.trans active) from' mem kind
  intro rt is
  obtain ⟨table, _, there⟩ := clears.cleared rt (prep.symm.trans is)
  exact ⟨_, there, rfl, rfl⟩

/-- What one record does to a context between records. -/
structure Advances (ctx : RtCtx) (buf : CStr) (next : RtCtx) : Prop where
  idle : next.Idle
  later : ctx.Later next
  rolls : ctx.rolls ≤ next.rolls
  kept : next.rolls = ctx.rolls → next.rtable = ctx.rtable ∧
    ∀ rt, ctx.rtable = some rt → next.tables rt = ctx.tables rt
  rolled : next.rolls ≠ ctx.rolls → MayRoll ctx buf

/-- What a record does at once is part of what it does. -/
theorem Begins.advances (begins : Begins ctx next) (ok : ctx.Idle) {buf : CStr}
    (rolled : next.rolls ≠ ctx.rolls → MayRoll ctx buf) : Advances ctx buf next := by
  -- A record either leaves the pointers, puts a table aside, or rolls one in.
  have unchanged : ∀ rt, ctx.rtable = some rt → next.tables rt = ctx.tables rt :=
    fun rt active => begins.others rt (ok.apart rt active).2.1
  refine ⟨⟨begins.ok, begins.prep.trans ok.idle⟩, begins.later, ?_, ?_, rolled⟩
  · cases begins.moves with
    | stays rolls => omega
    | aside _ rolls => omega
    | rolls _ _ _ _ _ rolls => omega
  · intro same
    cases begins.moves with
    | stays _ rtable => exact ⟨rtable, unchanged⟩
    | aside _ _ rtable => exact ⟨rtable, unchanged⟩
    | rolls _ _ _ _ _ rolls => omega

/-- Every record leaves the tables where they should be, or ends with a nil pointer. -/
theorem parseRtRec_ends (ok : ctx.Idle) (conf : RtConf) (mem : Mem) (buf : CStr) :
    Ends (· = RtFault.nil) (Advances ctx buf) (ctx.parseRtRec conf mem buf) := by
  refine (beginRec_ends ok.toOk conf mem buf).bind ?_
  rintro ⟨mid, start⟩ begun
  have first := begun.begins.advances ok begun.rolled
  cases start with
  | none => exact first
  | some kind =>
    have new : mid.newRtable = none := begun.starts (by simp)
    obtain ⟨srt, source, active, from_⟩ := first.idle.toOk.active_there
    obtain ⟨cleared, ran, clears, from', starts⟩ := start_ok first.idle new active from_ mem kind
    have place := clears.place
    simp only [RtCtx.place, Prod.mk.injEq] at place
    simp only [ran, Bind.bind, Except.bind]
    refine (starts.allow fun fault is => is.1).imp ?_
    rintro next ⟨rt, starts⟩
    -- Neither clearing the old table nor starting the new one touches the active one.
    have rolls : next.rolls = mid.rolls := starts.rolls.trans place.2.2.2.2.2.1
    have rtable : next.rtable = mid.rtable := starts.rtable.trans place.1
    have apart : srt ≠ rt := by
      intro equal
      subst equal
      exact (starts.ok.apart srt (rtable.trans active)).2.1 starts.newRtable
    refine ⟨⟨starts.ok, starts.prepRt⟩, ?_, ?_, ?_, ?_⟩
    · have detached : mid.Later mid.prepDetach := ⟨Nat.le_refl _, (Later.refl mid).kept⟩
      exact ((first.later.trans detached).trans clears.later).trans starts.later
    · rw [rolls]
      exact first.rolls
    · intro same
      rw [rolls] at same
      obtain ⟨rtable', kept⟩ := first.kept same
      refine ⟨rtable.trans rtable', fun rt' active' => ?_⟩
      cases active.symm.trans (rtable'.trans active')
      rw [starts.others srt apart, from', ← kept srt active', from_]
    · rw [rolls]
      exact first.rolled

end RtCtx

end Rmr
