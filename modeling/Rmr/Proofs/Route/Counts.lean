import Mathlib.Data.List.ReduceOption
import Rmr.Proofs.Route.Start

/-! The reference counts of route entries, after any records. -/

namespace Rmr

namespace RtCtx

variable {ctx : RtCtx}

/-- Whether the table that a pointer refers to, if it does, contains an entry. -/
def contains (ctx : RtCtx) (id : Nat) (rt : Option Nat) : Bool :=
  ((rt.bind ctx.tables).map fun table => table.hash.mt.entries.any (·.2 = id)).getD false

/-- How many of the tables of a context contain an entry. -/
def uses (ctx : RtCtx) (id : Nat) : Nat :=
  [ctx.rtable, ctx.oldRtable, ctx.newRtable].countP (ctx.contains id)

/-- The counts of the entries are exact, and an entry is there for as long as a table contains it.
-/
structure Counted (ctx : RtCtx) : Prop where
  refs : ∀ id rte, ctx.rtes id = some rte → rte.refs = ctx.uses id
  live : ∀ id, ctx.rtes id ≠ none ↔ 0 < ctx.uses id
  pending : ctx.newRtable ≠ none → ctx.oldRtable = none

/-- A table contains what it has under some key. -/
theorem contains_iff (id rt : Nat) :
    ctx.contains id (some rt) = true ↔ ∃ key, ctx.holds rt key = some id := by
  -- A table contains an entry if its list of things has it under some key.
  unfold contains holds
  rw [Option.bind_some]
  cases ctx.tables rt with
  | none => simp
  | some table =>
    simp only [Option.map_some, Option.getD_some, Option.bind_some, List.any_eq_true,
      decide_eq_true_eq]
    constructor
    · rintro ⟨⟨key, id'⟩, among, is⟩
      exact ⟨key, AList.mem_lookup_iff.mpr (is ▸ among)⟩
    · rintro ⟨key, found⟩
      exact ⟨⟨key, id⟩, AList.mem_lookup_iff.mp found, rfl⟩

/-- What a table that is there contains is an entry that it has under the key of the entry. -/
theorem Sound.contains_iff (sound : ctx.Sound) {id rt : Nat} {key : UInt64} {refs : Int}
    (live : ctx.objs id = some (key, refs)) (there : rt ∈ ctx.live) :
    ctx.contains id (some rt) = true ↔ ctx.holds rt key = some id := by
  -- An entry is held under its own key only, which is the one that its object tells.
  rw [RtCtx.contains_iff]
  constructor
  · rintro ⟨other, found⟩
    obtain ⟨refs', live'⟩ := sound.exact.held rt there other id found
    cases live.symm.trans live'
    exact found
  · exact fun found => ⟨key, found⟩

/-- Between records the tables that are there are those that the three pointers refer to. -/
theorem Idle.live_eq (ok : ctx.Idle) :
    ctx.live = [ctx.rtable, ctx.oldRtable, ctx.newRtable].reduceOption.toFinset := by
  -- Every table that is there is reached, and every pointer's table is there.
  ext rt
  rw [ok.sound.mem_live, ok.reached, List.mem_toFinset, List.reduceOption_mem_iff, ok.idle]
  simp only [List.mem_cons, List.not_mem_nil, or_false, reduceCtorEq]
  constructor
  · rintro (active | old | new)
    · exact .inl active.symm
    · exact .inr (.inl old.symm)
    · exact .inr (.inr new.symm)
  · rintro (active | old | new)
    · exact .inl active.symm
    · exact .inr (.inl old.symm)
    · exact .inr (.inr new.symm)

/-- The three pointers refer to different tables. -/
theorem Ok.nodup (ok : ctx.Ok) :
    [ctx.rtable, ctx.oldRtable, ctx.newRtable].reduceOption.Nodup := by
  obtain ⟨rt, _, active, _⟩ := ok.active_there
  obtain ⟨notOld, notNew, _⟩ := ok.apart rt active
  cases new : ctx.newRtable with
  | some other =>
    -- There is no old table while one is in progress.
    rw [(ok.pending (by simp [new])).1, active]
    rw [new] at notNew
    simp only [List.reduceOption_cons_of_some, List.reduceOption_cons_of_none,
      List.reduceOption_nil, List.nodup_cons, List.mem_singleton, List.not_mem_nil,
      not_false_iff, List.nodup_nil, and_true]
    exact fun equal => notNew (by rw [equal])
  | none =>
    rw [active]
    cases old : ctx.oldRtable with
    | none => simp
    | some other =>
      rw [old] at notOld
      simp only [List.reduceOption_cons_of_some, List.reduceOption_cons_of_none,
        List.reduceOption_nil, List.nodup_cons, List.mem_singleton, List.not_mem_nil,
        not_false_iff, List.nodup_nil, and_true]
      exact fun equal => notOld (by rw [equal])

/-- Pointers that are nil do not count. -/
theorem countP_reduceOption {α : Type*} (p : Option α → Bool) (none_ : p none = false)
    (pointers : List (Option α)) :
    pointers.countP p = pointers.reduceOption.countP fun a => p (some a) := by
  -- By induction on the pointers.
  induction pointers with
  | nil => rfl
  | cons pointer pointers ih =>
    cases pointer with
    | none => rw [List.reduceOption_cons_of_none, List.countP_cons_of_neg (by simp [none_]), ih]
    | some a => rw [List.reduceOption_cons_of_some, List.countP_cons, List.countP_cons, ih]

/-- Counting the tables that hold an entry is counting those that contain it. -/
theorem Idle.uses_eq (ok : ctx.Idle) {id : Nat} {key : UInt64} {refs : Int}
    (live : ctx.objs id = some (key, refs)) :
    ctx.uses id = (ctx.live.filter fun rt => ctx.holds rt key = some id).card := by
  -- No table is pointed to twice, so that counting pointers is counting tables.
  have same : ctx.live.filter (fun rt => ctx.holds rt key = some id) =
      ctx.live.filter fun rt => ctx.contains id (some rt) = true :=
    Finset.filter_congr fun rt there => (ok.sound.contains_iff live there).symm
  rw [same, ok.live_eq, ← List.toFinset_filter,
    List.toFinset_card_of_nodup (ok.toOk.nodup.filter _), ← List.countP_eq_length_filter]
  exact countP_reduceOption _ rfl _

/-- Where the tables are as they should be, the counts are exact. -/
theorem Idle.counted (ok : ctx.Idle) : Counted ctx := by
  refine ⟨?_, ?_, fun new => (ok.pending new).1⟩
  · intro id rte is
    have live : ctx.objs id = some (rte.entry.key, rte.refs) := by
      rw [objs, is]
      rfl
    rw [ok.uses_eq live]
    exact (ok.sound.exact.counted id _ _ live).2
  · intro id
    constructor
    · -- An entry that is there is contained in some table.
      intro there
      obtain ⟨rte, is⟩ := Option.ne_none_iff_exists'.mp there
      have live : ctx.objs id = some (rte.entry.key, rte.refs) := by
        rw [objs, is]
        rfl
      obtain ⟨positive, counted⟩ := ok.sound.exact.counted id _ _ live
      rw [ok.uses_eq live]
      omega
    · -- What a table contains is there.
      intro used
      obtain ⟨pointer, among, contained⟩ := List.countP_pos_iff.mp used
      cases pointer with
      | none => simp [contains] at contained
      | some rt =>
        obtain ⟨key, found⟩ := (contains_iff id rt).mp contained
        have there : rt ∈ ctx.live := by
          rw [ok.live_eq, List.mem_toFinset, List.reduceOption_mem_iff]
          exact among
        obtain ⟨refs, live⟩ := ok.sound.exact.held rt there key id found
        obtain ⟨rte, is, _⟩ := Option.map_eq_some_iff.mp live
        simp [is]

/-- A context that was just initialised is as it should be. -/
theorem init_idle : RtCtx.init.Idle := by
  -- The only table is the active one, which is empty.
  have nothing : RtCtx.init.objs = fun _ => none := rfl
  have first : ∀ rt, RtCtx.init.tables rt = if rt = 0 then some RouteTable.empty else none := by
    intro rt
    by_cases zero : rt = 0
    · subst zero
      rfl
    · simp [RtCtx.init, zero]
  refine ⟨⟨⟨⟨?_, ?_⟩, fun _ _ => rfl, ?_⟩, ?_, ?_, ?_, ?_, ?_⟩, rfl⟩
  · intro rt _ key id found
    rw [holds, first] at found
    split at found
    · rw [Option.bind_some] at found
      exact absurd found (by simp [RouteTable.empty])
    · cases found
  · intro id key refs live
    rw [nothing] at live
    cases live
  · intro rt beyond
    have beyond : 1 ≤ rt := beyond
    rw [first, if_neg (by omega)]
  · intro rt
    rw [first]
    by_cases zero : rt = 0
    · subst zero
      simp [RtCtx.init]
    · simp [RtCtx.init, zero, Ne.symm zero]
  · intro rt _
    simp [RtCtx.init]
  · simp [RtCtx.init]
  · simp [RtCtx.init]
  · simp [RtCtx.init]

/-- Every run of records ends with the tables where they should be, or with a nil pointer. -/
theorem parseRecs_idle (ok : ctx.Idle) (conf : RtConf) (recs : List (CStr × Mem)) :
    Ends (· = RtFault.nil) Idle (ctx.parseRecs conf recs) :=
  foldlM_ends (fun rec ok => (parseRtRec_ends ok conf rec.2 rec.1).imp fun _ advances =>
    advances.idle)
    recs ok

/-- After any records, whatever the allocations made for them come to, the count of every entry is
the number of tables that contain it, entries are there for exactly as long as there is such a
table, and nothing that was freed was used. -/
theorem parseRecs_counts (conf : RtConf) (recs : List (CStr × Mem)) :
    Ends (· = RtFault.nil) Counted (RtCtx.init.parseRecs conf recs) :=
  (parseRecs_idle init_idle conf recs).imp fun _ ok => ok.counted

end RtCtx

end Rmr
