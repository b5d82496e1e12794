import Rmr.Proofs.Route.Edit

/-! What one record does to the tables of a context, up to the point where a table is started. -/

namespace Rmr

namespace RtCtx

/-- The tables of a context are those that it refers to, and the counts of their entries are exact.
-/
structure Ok (ctx : RtCtx) : Prop where
  sound : ctx.Sound
  reached : ∀ rt, ctx.tables rt ≠ none ↔ ctx.rtable = some rt ∨ ctx.oldRtable = some rt ∨
    ctx.newRtable = some rt ∨ ctx.prepRt = some rt
  /-- The active table is not also another one. -/
  apart : ∀ rt, ctx.rtable = some rt →
    ctx.oldRtable ≠ some rt ∧ ctx.newRtable ≠ some rt ∧ ctx.prepRt ≠ some rt
  /-- A new table is started only when the old one was taken for it. -/
  pending : ctx.newRtable ≠ none → ctx.oldRtable = none ∧ ctx.prepRt = none
  detached : ctx.prepRt ≠ none → ctx.oldRtable = none
  active : ctx.rtable ≠ none

/-- What an `Ok` context depends on, and the number of its rolls. -/
def vital (ctx : RtCtx) : (Nat → Option Rte) × Nat × (Nat → Option RouteTable) × Nat × Option Nat ×
    Option Nat × Option Nat × Option Nat × Nat :=
  (ctx.rtes, ctx.nextRte, ctx.tables, ctx.nextTable, ctx.rtable, ctx.oldRtable, ctx.newRtable,
    ctx.prepRt, ctx.rolls)

variable {ctx mid next : RtCtx} {rt : Nat} {table table' : RouteTable}

/-- The other parts of a context do not matter. -/
theorem Ok.congr (ok : ctx.Ok) (same : next.vital = ctx.vital) : next.Ok := by
  -- The invariant is about entries, tables and the four pointers to these.
  simp only [vital, Prod.mk.injEq] at same
  obtain ⟨rtes, nextRte, tables, nextTable, rtable, old, new, prep, _⟩ := same
  refine ⟨?_, ?_, ?_, ?_, ?_, ?_⟩
  · apply ok.sound.congr _ nextRte nextTable fun rt => by rw [tables]
    funext id
    rw [objs, objs, rtes]
  · rw [tables, rtable, old, new, prep]
    exact ok.reached
  · rw [rtable, old, new, prep]
    exact ok.apart
  · rw [old, new, prep]
    exact ok.pending
  · rw [old, prep]
    exact ok.detached
  · rw [rtable]
    exact ok.active

/-- The table in progress is there. -/
theorem Ok.new_there (ok : ctx.Ok) (new : ctx.newRtable = some rt) :
    ∃ table, ctx.tables rt = some table :=
  Option.ne_none_iff_exists'.mp ((ok.reached rt).mpr (.inr (.inr (.inl new))))

/-- The active table is there. -/
theorem Ok.active_there (ok : ctx.Ok) :
    ∃ rt table, ctx.rtable = some rt ∧ ctx.tables rt = some table := by
  -- There is an active table, and a table that is active is in memory.
  obtain ⟨rt, active⟩ := Option.ne_none_iff_exists'.mp ok.active
  obtain ⟨table, there⟩ := Option.ne_none_iff_exists'.mp ((ok.reached rt).mpr (.inl active))
  exact ⟨rt, table, active, there⟩

/-- Where the tables of a context go while a record is processed. -/
inductive Moves (ctx next : RtCtx) : Prop where
  /-- At most the table in progress goes. -/
  | stays (rolls : next.rolls = ctx.rolls) (rtable : next.rtable = ctx.rtable)
    (old : next.oldRtable = ctx.oldRtable)
    (new : next.newRtable = ctx.newRtable ∨ next.newRtable = none)
  /-- A table in error is put aside. -/
  | aside (was : ctx.newRtable ≠ none) (rolls : next.rolls = ctx.rolls)
    (rtable : next.rtable = ctx.rtable) (old : next.oldRtable = ctx.newRtable)
    (new : next.newRtable = none)
  /-- The new table becomes the active one. -/
  | rolls (rt : Nat) (table : RouteTable) (was : ctx.newRtable = some rt)
    (there : ctx.tables rt = some table) (error : table.error = false)
    (rolls : next.rolls = ctx.rolls + 1) (rtable : next.rtable = some rt)
    (old : next.oldRtable = ctx.rtable) (new : next.newRtable = none)

/-- What a record does to the context at once. -/
structure Begins (ctx next : RtCtx) : Prop where
  ok : next.Ok
  later : ctx.Later next
  others : ∀ rt, ctx.newRtable ≠ some rt → next.tables rt = ctx.tables rt
  counts : ∀ rt table', next.tables rt = some table' →
    ∃ table, ctx.tables rt = some table ∧ table'.refCount = table.refCount
  prep : next.prepRt = ctx.prepRt
  moves : Moves ctx next

/-- Doing nothing changes nothing. -/
theorem Begins.refl (ok : ctx.Ok) : Begins ctx ctx :=
  ⟨ok, .refl ctx, fun _ _ => rfl, fun _ table' is => ⟨table', is, rfl⟩, rfl,
    .stays rfl rfl rfl (.inl rfl)⟩

/-- The parts that do not matter may change afterwards. -/
theorem Begins.congr_right (begins : Begins ctx mid) (same : next.vital = mid.vital) :
    Begins ctx next := by
  -- What is said of the later context is about its entries, tables and pointers.
  have ok := begins.ok.congr same
  simp only [vital, Prod.mk.injEq] at same
  obtain ⟨rtes, nextRte, tables, _, rtable, old, new, prep, rolls⟩ := same
  refine ⟨ok, ⟨?_, ?_⟩, ?_, ?_, ?_, ?_⟩
  · rw [nextRte]
    exact begins.later.grows
  · rw [rtes]
    exact begins.later.kept
  · rw [tables]
    exact begins.others
  · rw [tables]
    exact begins.counts
  · rw [prep]
    exact begins.prep
  · cases begins.moves with
    | stays rolls' rtable' old' new' =>
      exact .stays (rolls.trans rolls') (rtable.trans rtable') (old.trans old') (by rwa [new])
    | aside was rolls' rtable' old' new' =>
      exact .aside was (rolls.trans rolls') (rtable.trans rtable') (old.trans old') (by rwa [new])
    | rolls rt table was there error rolls' rtable' old' new' =>
      exact .rolls rt table was there error (rolls.trans rolls') (rtable.trans rtable')
        (old.trans old') (by rwa [new])

/-- The parts that do not matter may change before. -/
theorem Begins.congr_left (begins : Begins mid next) (same : mid.vital = ctx.vital) :
    Begins ctx next := by
  -- What is said of the earlier context is about its entries, tables and pointers.
  simp only [vital, Prod.mk.injEq] at same
  obtain ⟨rtes, nextRte, tables, _, rtable, old, new, prep, rolls⟩ := same
  refine ⟨begins.ok, ⟨?_, ?_⟩, ?_, ?_, ?_, ?_⟩
  · rw [← nextRte]
    exact begins.later.grows
  · rw [← nextRte, ← rtes]
    exact begins.later.kept
  · rw [← tables, ← new]
    exact begins.others
  · rw [← tables]
    exact begins.counts
  · rw [← prep]
    exact begins.prep
  · cases begins.moves with
    | stays rolls' rtable' old' new' =>
      exact .stays (rolls'.trans rolls) (rtable'.trans rtable) (old'.trans old) (by rwa [← new])
    | aside was rolls' rtable' old' new' =>
      exact .aside (new ▸ was) (rolls'.trans rolls) (rtable'.trans rtable) (old'.trans new) new'
    | rolls rt table was there error rolls' rtable' old' new' =>
      exact .rolls rt table (new ▸ was) (tables ▸ there) error (by rw [rolls', rolls]) rtable'
        (old'.trans rtable) new'

/-- Records that edit the table in progress move nothing. -/
theorem Edits.begins (edits : Edits ctx rt next) (ok : ctx.Ok) (new : ctx.newRtable = some rt) :
    Begins ctx next := by
  -- The table in progress is the only one edited, and the four pointers stay.
  obtain ⟨table, table', was, now, count⟩ := edits.edited
  have place := edits.place
  simp only [RtCtx.place, Prod.mk.injEq] at place
  obtain ⟨rtable, old, new', prep, nextTable, rolls, _⟩ := place
  have present : ∀ other, next.tables other ≠ none ↔ ctx.tables other ≠ none := by
    intro other
    by_cases own : other = rt
    · subst own
      simp [was, now]
    · rw [edits.others other own]
  refine ⟨⟨edits.sound, ?_, ?_, ?_, ?_, ?_⟩, edits.later, ?_, ?_, prep, ?_⟩
  · intro other
    rw [present, rtable, old, new', prep]
    exact ok.reached other
  · rw [rtable, old, new', prep]
    exact ok.apart
  · rw [old, new', prep]
    exact ok.pending
  · rw [old, prep]
    exact ok.detached
  · rw [rtable]
    exact ok.active
  · intro other different
    apply edits.others
    intro equal
    rw [equal] at different
    exact different new
  · intro other table'' is
    by_cases own : other = rt
    · subst own
      rw [now] at is
      cases is
      exact ⟨table, was, count⟩
    · rw [edits.others other own] at is
      exact ⟨table'', is, rfl⟩
  · exact .stays rolls rtable old (.inl new')

/-- The table in progress is dropped, with all its entries. -/
theorem dropNew_ok (ok : ctx.Ok) (new : ctx.newRtable = some rt) :
    ∃ next, ctx.dropNew rt = .ok next ∧ Begins ctx next ∧ next.newRtable = none ∧
      next.rtable = ctx.rtable ∧ next.rolls = ctx.rolls ∧ next.fullrt = ctx.fullrt := by
  obtain ⟨table, there⟩ := ok.new_there new
  obtain ⟨rtes, deleted, objs, later⟩ := delRtes_ok fun key id => ok.sound.held there
  -- The table gives up its entries, and then is freed with nothing in it.
  obtain ⟨mid, midIs⟩ : ∃ mid, mid = RtCtx.setTable { ctx with rtes := rtes } rt
    { table with hash.mt := ∅ } := ⟨_, rfl⟩
  have midThere : mid.tables rt = some { table with hash.mt := ∅ } := by
    rw [midIs]
    exact Function.update_self _ _ _
  have midSound : mid.Sound := by
    rw [midIs]
    refine ok.sound.giveUp there (fun _ _ is => is) objs rfl rfl rfl ?_
    intro key
    rw [AList.lookup_empty, without]
    split
    · rename_i absent
      exact absent.symm
    · rfl
  obtain ⟨next, nextIs⟩ : ∃ next, next = { ctx with
    rtes := rtes, tables := Function.update ctx.tables rt none, newRtable := none } := ⟨_, rfl⟩
  have nextTables : next.tables = Function.update ctx.tables rt none := by rw [nextIs]
  have sound : next.Sound := by
    apply midSound.free midThere (fun key => AList.lookup_empty key)
    · rw [nextIs, midIs]
      rfl
    · rw [nextIs, midIs]
      rfl
    · rw [nextIs, midIs]
      rfl
    · rw [nextIs, midIs]
      exact (Function.update_idem _ _ _).symm
  obtain ⟨oldNone, prepNone⟩ := ok.pending (by simp [new])
  refine ⟨next, ?_, ⟨⟨sound, ?_, ?_, ?_, ?_, ?_⟩, ?_, ?_, ?_, ?_, ?_⟩, ?_, ?_, ?_, ?_⟩
  · refine bind_eq_ok.mpr ⟨{ ctx with rtes := rtes, tables := Function.update ctx.tables rt none },
      bind_eq_ok.mpr ⟨table, table_ok there, bind_eq_ok.mpr ⟨_, deleted, rfl⟩⟩, ?_⟩
    rw [nextIs]
    rfl
  · intro other
    by_cases own : other = rt
    · subst own
      have inactive : ctx.rtable ≠ some other := fun active => (ok.apart other active).2.1 new
      rw [nextTables, Function.update_self, nextIs]
      simp [inactive, oldNone, prepNone]
    · have different : ctx.newRtable ≠ some other := by
        rw [new]
        exact fun equal => own (Option.some.inj equal).symm
      rw [nextTables, Function.update_of_ne own, ok.reached other, nextIs]
      simp [different]
  · intro other active
    rw [nextIs] at active ⊢
    exact ⟨(ok.apart other active).1, by simp, (ok.apart other active).2.2⟩
  · rw [nextIs]
    simp
  · rw [nextIs]
    exact ok.detached
  · rw [nextIs]
    exact ok.active
  · rw [nextIs]
    exact ⟨later.grows, later.kept⟩
  · intro other different
    rw [nextTables, Function.update_of_ne]
    intro equal
    rw [equal] at different
    exact different new
  · intro other table' is
    rw [nextTables] at is
    by_cases own : other = rt
    · subst own
      rw [Function.update_self] at is
      cases is
    · rw [Function.update_of_ne own] at is
      exact ⟨table', is, rfl⟩
  · rw [nextIs]
  · rw [nextIs]
    exact .stays rfl rfl rfl (.inr rfl)
  all_goals rw [nextIs]

/-- The table in progress is rolled in, or put aside if it is in error. -/
theorem rollTables_ok (ok : ctx.Ok) (new : ctx.newRtable = some rt)
    (there : ctx.tables rt = some table) :
    ∃ next, ctx.rollTables = .ok next ∧ Begins ctx next ∧
      (table.error = false → next.rtable = some rt ∧ next.tables = ctx.tables ∧
        next.rtes = ctx.rtes) := by
  -- A table in error becomes the old one; else it becomes the active one.
  obtain ⟨oldNone, prepNone⟩ := ok.pending (by simp [new])
  have inactive : ctx.rtable ≠ some rt := fun active => (ok.apart rt active).2.1 new
  cases error : table.error with
  | true =>
    have rolled : ctx.rollTables = .ok { ctx with oldRtable := some rt, newRtable := none } := by
      unfold rollTables
      rw [new]
      exact bind_eq_ok.mpr ⟨table, table_ok there, by rw [if_pos error]; rfl⟩
    refine ⟨_, rolled, ⟨⟨?_, ?_, ?_, ?_, ?_, ?_⟩, ?_, ?_, ?_, ?_, ?_⟩, ?_⟩
    · exact Sound.congr ok.sound rfl rfl rfl fun _ => rfl
    · intro other
      refine (ok.reached other).trans ?_
      rw [new, oldNone]
      simp
    · intro other active
      refine ⟨?_, by simp, (ok.apart other active).2.2⟩
      intro equal
      rw [show rt = other from Option.some.inj equal] at inactive
      exact inactive active
    · simp
    · intro some_
      exact absurd prepNone some_
    · exact ok.active
    · exact ⟨Nat.le_refl _, (Later.refl ctx).kept⟩
    · exact fun _ _ => rfl
    · exact fun _ table' is => ⟨table', is, rfl⟩
    · rfl
    · exact .aside (by simp [new]) rfl rfl new.symm rfl
    · simp
  | false =>
    have rolled : ctx.rollTables = .ok { ctx with
        oldRtable := ctx.rtable
        rtable := some rt
        newRtable := none
        rolls := ctx.rolls + 1 } := by
      unfold rollTables
      rw [new]
      exact bind_eq_ok.mpr ⟨table, table_ok there, by rw [if_neg (by simp [error])]; rfl⟩
    refine ⟨_, rolled, ⟨⟨?_, ?_, ?_, ?_, ?_, ?_⟩, ?_, ?_, ?_, ?_, ?_⟩, fun _ => ⟨rfl, rfl, rfl⟩⟩
    · exact Sound.congr ok.sound rfl rfl rfl fun _ => rfl
    · intro other
      refine (ok.reached other).trans ?_
      rw [new, oldNone]
      simp only [reduceCtorEq, false_or]
      constructor
      · rintro (active | new | prep)
        · exact .inr (.inl active)
        · exact .inl new
        · exact .inr (.inr prep)
      · rintro (new | active | prep)
        · exact .inr (.inl new)
        · exact .inl active
        · exact .inr (.inr prep)
    · intro other active
      rw [show rt = other from Option.some.inj active] at inactive
      exact ⟨inactive, by simp, by rw [prepNone]; simp⟩
    · simp
    · intro some_
      exact absurd prepNone some_
    · simp
    · exact ⟨Nat.le_refl _, (Later.refl ctx).kept⟩
    · exact fun _ _ => rfl
    · exact fun _ table' is => ⟨table', is, rfl⟩
    · rfl
    · exact .rolls rt table new there error rfl rfl rfl rfl

/-- The sender of the table is told that it was taken. -/
theorem rollAndAck_ok (ok : ctx.Ok) (new : ctx.newRtable = some rt)
    (there : ctx.tables rt = some table) :
    ∃ next, ctx.rollAndAck = .ok next ∧ Begins ctx next ∧
      (table.error = false → next.rtable = some rt ∧ next.tables = ctx.tables ∧
        next.rtes = ctx.rtes) := by
  obtain ⟨next, rolled, begins, active⟩ := rollTables_ok ok new there
  exact ⟨next.sendRtAck none, bind_eq_ok.mpr ⟨next, rolled, rfl⟩, begins.congr_right rfl, active⟩

/-- What is done without a roll. -/
def Quiet (ctx next : RtCtx) : Prop := Begins ctx next ∧ next.rolls = ctx.rolls

/-- The counter that an end record checks. -/
def counter (kind : TableKind) (table : RouteTable) : Int :=
  if kind = .meidMap then table.mupdates else table.updates

/-- A table is in progress that is not in error and that a count, if there is one, is right for. -/
def Complete (ctx : RtCtx) (kind : TableKind) (count : Option CStr) : Prop :=
  ∃ rt table, ctx.newRtable = some rt ∧ ctx.tables rt = some table ∧ table.error = false ∧
    ∀ expected ∈ count, counter kind table = atoi expected

/-- The table in progress is edited without a roll. -/
theorem Edits.quiet (edits : Edits ctx rt next) (ok : ctx.Ok) (new : ctx.newRtable = some rt) :
    Quiet ctx next := by
  have place := edits.place
  simp only [RtCtx.place, Prod.mk.injEq] at place
  exact ⟨edits.begins ok new, place.2.2.2.2.2.1⟩

/-- What a record that starts no table ends in. -/
theorem ends_of_ok {Holds : RtCtx → Prop} {outcome : Except RtFault RtCtx}
    (is : outcome = .ok next) (holds : Holds next) : Ends (· = RtFault.nil) Holds outcome := by
  rw [is]
  exact holds

/-- What a record that ends a table does. -/
def Closes (ctx : RtCtx) (kind : TableKind) (count : Option CStr) (next : RtCtx) : Prop :=
  Begins ctx next ∧ (next.rolls ≠ ctx.rolls → Complete ctx kind count)

/-- The table in progress is dropped with a message to its sender. -/
theorem sendDrop_ends (ok : ctx.Ok) (new : ctx.newRtable = some rt) (reason : Option NackReason)
    (kind : TableKind) (count : Option CStr) :
    Ends (· = RtFault.nil) (Closes ctx kind count) ((ctx.sendRtAck reason).dropNew rt) := by
  -- The message that is sent does not touch the tables.
  have acked : (ctx.sendRtAck reason).Ok := ok.congr rfl
  obtain ⟨next, dropped, begins, _, _, rolls, _⟩ := dropNew_ok acked new
  exact ends_of_ok dropped ⟨begins.congr_left rfl, fun rolled => absurd rolls rolled⟩

/-- The table in progress is rolled in, for a count that is right for it. -/
theorem Begins.closes (begins : Begins ctx next) {kind : TableKind} {count : Option CStr}
    (right : ∀ rt table, ctx.newRtable = some rt → ctx.tables rt = some table →
      count.filter (fun count => counter kind table ≠ atoi count) = none) :
    Closes ctx kind count next := by
  -- The count was compared before the roll, so that after one it was right.
  refine ⟨begins, fun rolled => ?_⟩
  cases begins.moves with
  | stays rolls => exact absurd rolls rolled
  | aside _ rolls => exact absurd rolls rolled
  | rolls rt table new there error =>
    refine ⟨rt, table, new, there, error, fun expected given => ?_⟩
    have all := Option.filter_eq_none_iff.mp (right rt table new there) expected given
    simpa using all

/-- The end of a full route table. -/
theorem newrtEnd_ends (ok : ctx.Ok) (count : Option CStr) :
    Ends (· = RtFault.nil) (Closes ctx .newrt count) (ctx.newrtEnd count) := by
  -- The branches of the end: no table in progress, a count that differs, and the roll.
  unfold newrtEnd
  cases new : ctx.newRtable with
  | none =>
    cases count with
    | none => exact ⟨Begins.refl ok, fun rolled => absurd rfl rolled⟩
    | some count => exact rfl
  | some rt =>
    obtain ⟨table, there⟩ := ok.new_there new
    simp only [table_ok there, Bind.bind, Except.bind]
    cases differs : count.filter (fun count => table.updates ≠ atoi count) with
    | some count => exact sendDrop_ends ok new _ _ _
    | none =>
      obtain ⟨next, rolled, begins, _⟩ := rollAndAck_ok ok new there
      simp only [rolled]
      have ready : Begins ctx { next with rtableReady := true, fullrt := true } :=
        begins.congr_right rfl
      refine ends_of_ok rfl (ready.closes fun rt' table' new' there' => ?_)
      cases new.symm.trans new'
      cases there.symm.trans there'
      exact differs

/-- The end of an update of the route table. -/
theorem updatertEnd_ends (ok : ctx.Ok) (count : Option CStr) :
    Ends (· = RtFault.nil) (Closes ctx .updatert count) (ctx.updatertEnd count) := by
  -- The branches of the end: no table in progress, a count that differs, and the roll.
  unfold updatertEnd
  cases new : ctx.newRtable with
  | none => exact ⟨Begins.refl ok, fun rolled => absurd rfl rolled⟩
  | some rt =>
    obtain ⟨table, there⟩ := ok.new_there new
    simp only [table_ok there, Bind.bind, Except.bind]
    cases differs : count.filter (fun count => table.updates ≠ atoi count) with
    | some count => exact sendDrop_ends ok new _ _ _
    | none =>
      obtain ⟨next, rolled, begins, _⟩ := rollAndAck_ok ok new there
      simp only [rolled]
      have ready : Begins ctx { next with rtableReady := true } := begins.congr_right rfl
      refine ends_of_ok rfl (ready.closes fun rt' table' new' there' => ?_)
      cases new.symm.trans new'
      cases there.symm.trans there'
      exact differs

/-- The end of a managed element map. -/
theorem meidMapEnd_ends (ok : ctx.Ok) (count : Option CStr) :
    Ends (· = RtFault.nil) (Closes ctx .meidMap count) (ctx.meidMapEnd count) := by
  -- The branches of the end: no table in progress, a count that differs, and the roll.
  unfold meidMapEnd
  cases new : ctx.newRtable with
  | none =>
    cases count with
    | none => exact ⟨Begins.refl ok, fun rolled => absurd rfl rolled⟩
    | some count => exact rfl
  | some rt =>
    obtain ⟨table, there⟩ := ok.new_there new
    simp only [table_ok there, Bind.bind, Except.bind]
    cases differs : count.filter (fun count => table.mupdates ≠ atoi count) with
    | some count => exact sendDrop_ends ok new _ _ _
    | none =>
      obtain ⟨next, rolled, begins, _⟩ := rollAndAck_ok ok new there
      refine ends_of_ok rolled (Begins.closes begins fun rt' table' new' there' => ?_)
      cases new.symm.trans new'
      cases there.symm.trans there'
      exact differs

/-- What a record has done when it may start a table: there is none in progress then, and what was
rolled in was rolled in under some condition. -/
structure Begun (ctx : RtCtx) (condition : Prop) (out : RtCtx × Option TableKind) : Prop where
  begins : Begins ctx out.1
  starts : out.2 ≠ none → out.1.newRtable = none
  rolled : out.1.rolls ≠ ctx.rolls → condition

/-- A record that does nothing. -/
theorem Begun.refl (ok : ctx.Ok) (condition : Prop) : Begun ctx condition (ctx, none) :=
  ⟨Begins.refl ok, fun none_ => absurd rfl none_, fun rolled => absurd rfl rolled⟩

/-- A record that edits the table in progress. -/
theorem plainly_quiet {outcome : Except RtFault RtCtx}
    (ends : Ends (· = RtFault.nil) (Quiet ctx) outcome) (condition : Prop) :
    Ends (· = RtFault.nil) (Begun ctx condition) (plainly outcome) :=
  ends.bind fun _ quiet =>
    ⟨quiet.1, fun none_ => absurd rfl none_, fun rolled => absurd quiet.2 rolled⟩

/-- A record that ends a table. -/
theorem plainly_closes {outcome : Except RtFault RtCtx} {kind : TableKind} {count : Option CStr}
    (ends : Ends (· = RtFault.nil) (Closes ctx kind count) outcome) {condition : Prop}
    (implies : Complete ctx kind count → condition) :
    Ends (· = RtFault.nil) (Begun ctx condition) (plainly outcome) :=
  ends.bind fun _ closes =>
    ⟨closes.1, fun none_ => absurd rfl none_, fun rolled => implies (closes.2 rolled)⟩

/-- A table in progress is forced out. -/
theorem forceOut_ok (ok : ctx.Ok) :
    ∃ next, ctx.forceOut = .ok next ∧ Begins ctx next ∧ next.newRtable = none ∧
      next.rtable = ctx.rtable ∧ next.rolls = ctx.rolls ∧ next.fullrt = ctx.fullrt := by
  -- Without a table in progress nothing happens; else it is dropped after an answer was sent.
  unfold forceOut
  cases new : ctx.newRtable with
  | none => exact ⟨ctx, rfl, Begins.refl ok, new, rfl, rfl, rfl⟩
  | some rt =>
    have acked : (ctx.sendRtAck (some .notComplete)).Ok := ok.congr rfl
    obtain ⟨next, dropped, begins, rest⟩ := dropNew_ok acked new
    exact ⟨next, dropped, begins.congr_left rfl, rest⟩

/-- A record that starts a table, whose id is kept. -/
theorem start_ends (ok : ctx.Ok) (kind : TableKind) (tableId : RtCtx → Option CStr)
    (condition : Prop) :
    Ends (· = RtFault.nil) (Begun ctx condition) (do
      let ctx ← ctx.forceOut
      return ({ ctx with tableId := tableId ctx }, some kind)) := by
  -- What was in progress is given up first, and then the id is taken over.
  obtain ⟨next, forced, begins, gone, _, rolls, _⟩ := forceOut_ok ok
  rw [forced]
  exact ⟨begins.congr_right rfl, fun _ => gone, fun rolled => absurd rolls rolled⟩

/-- A `del` record. -/
theorem delRec_ends (ok : ctx.Ok) (conf : RtConf) (fields : List CStr) :
    Ends (· = RtFault.nil) (Quiet ctx) (ctx.delRec conf fields) := by
  -- An entry is taken from the table in progress, and then the record is counted.
  unfold delRec
  split
  · rename_i rt tsField subid _ new
    obtain ⟨table, there⟩ := ok.new_there new
    obtain ⟨mid, trashed, first, _⟩ := trashEntry_ok ok.sound there conf tsField (atoi subid)
    obtain ⟨table', there'⟩ := first.there
    obtain ⟨next, bumped, second, _⟩ := bumpUpdates_ok first.sound there'
    exact ends_of_ok (bind_eq_ok.mpr ⟨mid, trashed, bumped⟩) ((first.trans second).quiet ok new)
  · exact ⟨Begins.refl ok, rfl⟩

/-- An `mse` record. -/
theorem mseRec_ends (ok : ctx.Ok) (conf : RtConf) (mem : Mem) (fields : List CStr) :
    Ends (· = RtFault.nil) (Quiet ctx) (ctx.mseRec conf mem fields) := by
  -- An entry is put into the table in progress, and then the record is counted.
  unfold mseRec
  split
  · rename_i rt tsField subid rrField _ new
    obtain ⟨table, there⟩ := ok.new_there new
    refine (buildEntry_edits ok.sound there conf mem _ _ _).bind fun mid first => ?_
    obtain ⟨table', there'⟩ := first.there
    obtain ⟨next, bumped, second, _⟩ := bumpUpdates_ok first.sound there'
    exact ends_of_ok bumped ((first.trans second).quiet ok new)
  · exact ⟨Begins.refl ok, rfl⟩

/-- An `rte` record. -/
theorem rteRec_ends (ok : ctx.Ok) (conf : RtConf) (mem : Mem) (fields : List CStr) :
    Ends (· = RtFault.nil) (Quiet ctx) (ctx.rteRec conf mem fields) := by
  -- The record is counted first, and then its entry is put into the table in progress.
  unfold rteRec
  cases new : ctx.newRtable with
  | none => exact ⟨Begins.refl ok, rfl⟩
  | some rt =>
    obtain ⟨table, there⟩ := ok.new_there new
    obtain ⟨mid, bumped, first, there', _⟩ := bumpUpdates_ok ok.sound there
    simp only [bumped, Bind.bind, Except.bind]
    exact (buildEntry_edits first.sound there' conf mem _ _ _).imp fun next second =>
      (first.trans second).quiet ok new

/-- The other managed element records. -/
theorem mmeRec_ends (ok : ctx.Ok) (mem : Mem) (name first : CStr) (fields : List CStr) :
    Ends (· = RtFault.nil) (Quiet ctx) (ctx.mmeRec mem name first fields) := by
  -- An `mme_ar` adds ids, an `mme_del` takes some away, and both are counted.
  unfold mmeRec
  cases new : ctx.newRtable with
  | none => exact ⟨Begins.refl ok, rfl⟩
  | some rt =>
    obtain ⟨table, there⟩ := ok.new_there new
    simp only
    split
    · split
      · exact ⟨Begins.refl ok, rfl⟩
      · rename_i meidList _
        obtain ⟨mid, put, edits, there'⟩ := parseMeidAr_ok ok.sound there mem first meidList
        obtain ⟨next, bumped, more, _⟩ := bumpMupdates_ok edits.sound there'
        exact ends_of_ok (bind_eq_ok.mpr ⟨mid, put, bumped⟩) ((edits.trans more).quiet ok new)
    · split
      · obtain ⟨mid, deleted, edits, there'⟩ := parseMeidDel_ok ok.sound there first
        obtain ⟨next, bumped, more, _⟩ := bumpMupdates_ok edits.sound there'
        exact ends_of_ok (bind_eq_ok.mpr ⟨mid, deleted, bumped⟩) ((edits.trans more).quiet ok new)
      · exact ⟨Begins.refl ok, rfl⟩

/-- The kind of table that a record ends, and the count that it comes with, if it is an end record.
-/
def endOf (buf : CStr) : Option (TableKind × Option CStr) :=
  match utaTokenise (trimEnd (buf.dropWhile isspace)) 128 '|' with
  | name :: what :: rest =>
    if clip what = ['e', 'n', 'd'] then
      match (clip name).head? with
      | some 'n' => some (.newrt, rest[0]?)
      | some 'u' => some (.updatert, rest[0]?)
      | some 'm' =>
        if clip name = ['m', 'e', 'i', 'd', '_', 'm', 'a', 'p'] then some (.meidMap, rest[0]?)
        else none
      | _ => none
    else none
  | _ => none

/-- The condition under which a record may roll a table in: it ends a table that is complete. -/
def MayRoll (ctx : RtCtx) (buf : CStr) : Prop :=
  ∃ kind count, endOf buf = some (kind, count) ∧ Complete ctx kind count

/-- A `newrt` record. -/
theorem newrtRec_ends (ok : ctx.Ok) (fields : List CStr) {condition : Prop}
    (implies : ∀ what rest, fields = what :: rest → clip what = ['e', 'n', 'd'] →
      Complete ctx .newrt rest[0]? → condition) :
    Ends (· = RtFault.nil) (Begun ctx condition) (ctx.newrtRec fields) := by
  -- The record starts a table, or ends the one in progress.
  unfold newrtRec
  cases fields with
  | nil => exact rfl
  | cons what rest =>
    simp only [clipped, List.getElem?_cons_zero, Bind.bind, Except.bind]
    split
    · rename_i ended
      exact plainly_closes (newrtEnd_ends ok _) (implies what rest rfl ended)
    · exact start_ends ok .newrt (fun _ => rest[0]?.map clip) condition

/-- An `updatert` record. -/
theorem updatertRec_ends (ok : ctx.Ok) (fields : List CStr) {condition : Prop}
    (implies : ∀ what rest, fields = what :: rest → clip what = ['e', 'n', 'd'] →
      Complete ctx .updatert rest[0]? → condition) :
    Ends (· = RtFault.nil) (Begun ctx condition) (ctx.updatertRec fields) := by
  unfold updatertRec
  split
  · exact Begun.refl ok condition
  · cases fields with
    | nil => exact rfl
    | cons what rest =>
      simp only [clipped, List.getElem?_cons_zero, Bind.bind, Except.bind]
      split
      · rename_i ended
        exact plainly_closes (updatertEnd_ends ok _) (implies what rest rfl ended)
      · -- Without an id on it, a start record leaves the id of an earlier table.
        cases rest with
        | nil => exact start_ends ok .updatert (fun ctx => ctx.tableId) condition
        | cons id rest => exact start_ends ok .updatert (fun _ => some (clip id)) condition

/-- A `meid_map` record. -/
theorem meidMapRec_ends (ok : ctx.Ok) (what : CStr) (fields : List CStr) {condition : Prop}
    (implies : clip what = ['e', 'n', 'd'] → Complete ctx .meidMap fields[0]? → condition) :
    Ends (· = RtFault.nil) (Begun ctx condition) (ctx.meidMapRec what fields) := by
  -- The record starts a map, ends the one in progress, or is neither.
  unfold meidMapRec
  simp only
  split
  · exact start_ends ok .meidMap (fun _ => fields[0]?.map clip) condition
  · split
    · rename_i ended
      exact plainly_closes (meidMapEnd_ends ok _) (implies ended)
    · exact Begun.refl ok condition

/-- Whatever a record is, it leaves the tables where they should be. -/
theorem beginRec_ends (ok : ctx.Ok) (conf : RtConf) (mem : Mem) (buf : CStr) :
    Ends (· = RtFault.nil) (Begun ctx (MayRoll ctx buf)) (ctx.beginRec conf mem buf) := by
  -- The branches follow the first letters of the record in the order of the parser.
  have unchanged := Begun.refl ok (MayRoll ctx buf)
  unfold beginRec
  split
  · exact unchanged
  · rename_i name fields tokens
    simp only
    split
    · exact plainly_quiet (delRec_ends ok conf _) _
    · rename_i letter
      refine newrtRec_ends ok _ fun what rest is ended complete => ⟨.newrt, rest[0]?, ?_, complete⟩
      simp only [endOf, tokens, is, if_pos ended, letter]
    · rename_i letter
      split
      · exact plainly_quiet (mseRec_ends ok conf mem _) _
      · unfold meidParser
        split
        · exact unchanged
        · rename_i first rest
          split
          · rename_i named
            refine meidMapRec_ends ok _ _ fun ended complete => ⟨.meidMap, rest[0]?, ?_, complete⟩
            simp only [endOf, tokens, if_pos ended, named, List.head?_cons, if_true]
          · exact plainly_quiet (mmeRec_ends ok mem _ _ _) _
    · exact plainly_quiet (rteRec_ends ok conf mem _) _
    · rename_i letter
      refine updatertRec_ends ok _ fun what rest is ended complete =>
        ⟨.updatert, rest[0]?, ?_, complete⟩
      simp only [endOf, tokens, is, if_pos ended, letter]
    · exact unchanged

end RtCtx

end Rmr
