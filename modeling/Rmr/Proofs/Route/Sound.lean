import Rmr.Proofs.Route.Heap

/-! The entries of all route tables: whatever is done to one table, the counts stay exact. -/

namespace Rmr

namespace RtCtx

/-- The tables that are there. -/
def live (ctx : RtCtx) : Finset Nat :=
  (Finset.range ctx.nextTable).filter fun rt => (ctx.tables rt).isSome

/-- The entries that are there are those of the tables that are there, with their counts, and what
is allocated next was never used. -/
structure Sound (ctx : RtCtx) : Prop where
  exact : Exact ctx.live ctx.objs ctx.holds
  newRte : ∀ id, ctx.nextRte ≤ id → ctx.rtes id = none
  newTable : ∀ rt, ctx.nextTable ≤ rt → ctx.tables rt = none

variable {ctx next : RtCtx} {rt : Nat} {table table' : RouteTable}

/-- A table that is there is among those that are there. -/
theorem Sound.mem_live (sound : ctx.Sound) : rt ∈ ctx.live ↔ ctx.tables rt ≠ none := by
  -- A table that is there has an address that was given out before.
  unfold live
  rw [Finset.mem_filter, Finset.mem_range, Option.isSome_iff_ne_none]
  constructor
  · intro member
    exact member.2
  · intro there
    refine ⟨?_, there⟩
    by_contra beyond
    exact there (sound.newTable rt (by omega))

/-- What a table holds is an entry with that key. -/
theorem Sound.held (sound : ctx.Sound) (there : ctx.tables rt = some table) {key : UInt64}
    {id : Nat} (found : table.hash.mt.lookup key = some id) :
    ∃ refs, ctx.objs id = some (key, refs) := by
  have member : rt ∈ ctx.live := sound.mem_live.mpr (by simp [there])
  exact sound.exact.held rt member key id (by simp [holds, there, found])

/-- The entry that a table holds can be read. -/
theorem Sound.found (sound : ctx.Sound) (there : ctx.tables rt = some table) {key : UInt64}
    {id : Nat} (found : table.hash.mt.lookup key = some id) :
    ∃ rte, ctx.rtes id = some rte ∧ id < ctx.nextRte := by
  -- An entry that is held is live, and a live one has an address that was given out before.
  obtain ⟨refs, live⟩ := sound.held there found
  obtain ⟨rte, is, _⟩ := Option.map_eq_some_iff.mp live
  refine ⟨rte, is, ?_⟩
  by_contra beyond
  rw [sound.newRte id (by omega)] at is
  cases is

/-- An entry that is found in a table before and after tells the same. -/
theorem entry_kept (sound : ctx.Sound) (sound' : next.Sound) (later : ctx.Later next)
    (there : ctx.tables rt = some table) (there' : next.tables rt = some table') {key : UInt64}
    {id : Nat}
    (found : table.hash.mt.lookup key = some id) (found' : table'.hash.mt.lookup key = some id) :
    ∃ rte rte', ctx.rtes id = some rte ∧ next.rtes id = some rte' ∧ rte'.entry = rte.entry := by
  obtain ⟨_, _, below⟩ := sound.found there found
  obtain ⟨rte', is', _⟩ := sound'.found there' found'
  -- The entry is still there, and entries do not change while they are.
  obtain ⟨rte, is, same⟩ := later.kept id below rte' is'
  exact ⟨rte, rte', is, is', same⟩

/-- No entry is there under an address that is not used yet. -/
theorem Sound.objs_next (sound : ctx.Sound) : ctx.objs ctx.nextRte = none := by
  rw [objs, sound.newRte _ (Nat.le_refl _), Option.map_none]

/-- What a context says of a table that is there. -/
theorem Sound.at_table (sound : ctx.Sound) (there : ctx.tables rt = some table) :
    rt ∈ ctx.live ∧ ctx.holds rt = fun key => table.hash.mt.lookup key := by
  refine ⟨sound.mem_live.mpr (by simp [there]), ?_⟩
  funext key
  simp [holds, there]

/-- A table that is changed holds what it holds then. -/
theorem holds_of_update (tables : next.tables = Function.update ctx.tables rt (some table)) :
    next.holds = Function.update ctx.holds rt fun key => table.hash.mt.lookup key := by
  -- The table that is changed is looked at by itself, and the others are as they were.
  funext other key
  by_cases own : other = rt
  · subst own
    simp [holds, tables]
  · simp [holds, tables, own]

/-- A table that is changed is as much there as it was. -/
theorem live_of_update (there : ctx.tables rt = some table)
    (tables : next.tables = Function.update ctx.tables rt (some table'))
    (nextTable : next.nextTable = ctx.nextTable) : next.live = ctx.live := by
  -- The table was there and still is, and no other is written.
  unfold live
  rw [nextTable]
  apply Finset.filter_congr
  intro other _
  by_cases own : other = rt
  · subst own
    simp [tables, there]
  · simp [tables, own]

/-- Addresses that are not used yet stay so when a table changes. -/
theorem Sound.newTable_update (sound : ctx.Sound) (there : ctx.tables rt = some table)
    (tables : next.tables = Function.update ctx.tables rt (some table'))
    (nextTable : next.nextTable = ctx.nextTable) :
    ∀ other, next.nextTable ≤ other → next.tables other = none := by
  -- The table that changed was there, so that its address is not an unused one.
  intro other beyond
  have unused := sound.newTable other (by omega)
  have different : other ≠ rt := by
    intro equal
    subst equal
    rw [there] at unused
    cases unused
  rw [tables, Function.update_of_ne different]
  exact unused

/-- The entries of a context are those before, with other counts. -/
theorem newRte_of_objs (newRte : ∀ id, ctx.nextRte ≤ id → ctx.rtes id = none)
    (grows : ctx.nextRte ≤ next.nextRte)
    (gone : ∀ id, next.nextRte ≤ id → ctx.objs id = none → next.objs id = none) :
    ∀ id, next.nextRte ≤ id → next.rtes id = none := by
  intro id beyond
  have none_ := gone id beyond (by rw [objs, newRte id (by omega), Option.map_none])
  simpa [objs] using none_

/-- Only the entries that tables hold matter. -/
theorem Sound.congr (sound : ctx.Sound) (objs : next.objs = ctx.objs)
    (nextRte : next.nextRte = ctx.nextRte) (nextTable : next.nextTable = ctx.nextTable)
    (same : ∀ rt, (next.tables rt).map (·.hash.mt) = (ctx.tables rt).map (·.hash.mt)) :
    next.Sound := by
  -- Which tables are there, and what they hold, is the same in both states.
  have present : ∀ rt, (next.tables rt).isSome = (ctx.tables rt).isSome := by
    intro rt
    have equal := congrArg Option.isSome (same rt)
    simpa only [Option.isSome_map] using equal
  have live : next.live = ctx.live := by
    unfold RtCtx.live
    rw [nextTable]
    exact Finset.filter_congr fun rt _ => by rw [present]
  have holds : next.holds = ctx.holds := by
    funext rt key
    have equal := congrArg (fun mt => mt.bind fun mt : AList _ => mt.lookup key) (same rt)
    simpa only [RtCtx.holds, Option.bind_map, Function.comp_def] using equal
  refine ⟨by rw [live, holds, objs]; exact sound.exact, ?_, ?_⟩
  · apply newRte_of_objs sound.newRte (by omega)
    intro id _ gone
    rw [objs]
    exact gone
  · intro rt beyond
    rw [nextTable] at beyond
    have equal := present rt
    rw [sound.newTable rt beyond] at equal
    simpa using equal

/-- A table whose entries are not touched may be changed. -/
theorem Sound.setTable (sound : ctx.Sound) (there : ctx.tables rt = some table)
    (same : table'.hash.mt = table.hash.mt) : (ctx.setTable rt table').Sound := by
  -- Only that table can hold something else, and its map is the same.
  refine Sound.congr sound rfl rfl rfl fun other => ?_
  by_cases own : other = rt
  · subst own
    simp [RtCtx.setTable, there, same]
  · simp [RtCtx.setTable, own]

/-- A table gives up some of its entries. -/
theorem Sound.giveUp (sound : ctx.Sound) (there : ctx.tables rt = some table)
    {part : UInt64 → Option Nat}
    (within : ∀ key id, part key = some id → table.hash.mt.lookup key = some id)
    (objs : next.objs = release ctx.objs part) (nextRte : next.nextRte = ctx.nextRte)
    (nextTable : next.nextTable = ctx.nextTable)
    (tables : next.tables = Function.update ctx.tables rt (some table'))
    (lookup : ∀ key, table'.hash.mt.lookup key =
      without (fun key => table.hash.mt.lookup key) part key) : next.Sound := by
  obtain ⟨member, held⟩ := sound.at_table there
  refine ⟨?_, ?_, sound.newTable_update there tables nextTable⟩
  · -- The table holds what it held, without what it gives up.
    rw [live_of_update there tables nextTable, holds_of_update tables, objs]
    have had : ∀ key id, part key = some id → ctx.holds rt key = some id := by
      intro key id is
      rw [held]
      exact within key id is
    have after := sound.exact.release member had
    rw [held] at after
    have same : (fun key => table'.hash.mt.lookup key) =
        without (fun key => table.hash.mt.lookup key) part := funext lookup
    rw [same]
    exact after
  · apply newRte_of_objs sound.newRte (by omega)
    intro id _ gone
    rw [objs, release, gone, Option.bind_none]

/-- A table also holds entries that other tables hold. -/
theorem Sound.share (sound : ctx.Sound) (there : ctx.tables rt = some table)
    {part : UInt64 → Option Nat}
    (live : ∀ key id, part key = some id → ∃ refs, ctx.objs id = some (key, refs))
    (free : ∀ key, part key ≠ none → table.hash.mt.lookup key = none)
    (objs : next.objs = retain ctx.objs part) (nextRte : next.nextRte = ctx.nextRte)
    (nextTable : next.nextTable = ctx.nextTable)
    (tables : next.tables = Function.update ctx.tables rt (some table'))
    (lookup : ∀ key, table'.hash.mt.lookup key = (part key).or (table.hash.mt.lookup key)) :
    next.Sound := by
  -- Each shared entry has one reference more, and this table as one more of its owners.
  obtain ⟨member, held⟩ := sound.at_table there
  refine ⟨?_, ?_, sound.newTable_update there tables nextTable⟩
  · rw [live_of_update there tables nextTable, holds_of_update tables, objs]
    have unused : ∀ key, part key ≠ none → ctx.holds rt key = none := by
      intro key more
      rw [held]
      exact free key more
    have after := sound.exact.retain member live unused
    rw [held] at after
    have same : (fun key => table'.hash.mt.lookup key) =
        fun key => (part key).or (table.hash.mt.lookup key) := funext lookup
    rw [same]
    exact after
  · apply newRte_of_objs sound.newRte (by omega)
    intro id _ gone
    rw [objs, retain, gone, Option.map_none]

/-- A table gets an entry that was not there. -/
theorem Sound.fresh (sound : ctx.Sound) (there : ctx.tables rt = some table) {key : UInt64}
    (free : table.hash.mt.lookup key = none)
    (objs : next.objs = Function.update ctx.objs ctx.nextRte (some (key, 1)))
    (nextRte : next.nextRte = ctx.nextRte + 1) (nextTable : next.nextTable = ctx.nextTable)
    (tables : next.tables = Function.update ctx.tables rt (some table'))
    (lookup : ∀ other, table'.hash.mt.lookup other =
      Function.update (fun other => table.hash.mt.lookup other) key (some ctx.nextRte) other) :
    next.Sound := by
  -- The new entry has one reference, and this table as its only owner.
  obtain ⟨member, held⟩ := sound.at_table there
  refine ⟨?_, ?_, sound.newTable_update there tables nextTable⟩
  · rw [live_of_update there tables nextTable, holds_of_update tables, objs]
    have unused : ctx.holds rt key = none := by
      rw [held]
      exact free
    have after := sound.exact.fresh member sound.objs_next unused
    rw [held] at after
    have same : (fun key => table'.hash.mt.lookup key) =
        Function.update (fun other => table.hash.mt.lookup other) key (some ctx.nextRte) :=
      funext lookup
    rw [same]
    exact after
  · apply newRte_of_objs sound.newRte (by omega)
    intro id beyond gone
    rw [objs, Function.update_of_ne (by omega)]
    exact gone

/-- A new table is there, with nothing in it. -/
theorem Sound.alloc (sound : ctx.Sound) (rtes : next.rtes = ctx.rtes)
    (nextRte : next.nextRte = ctx.nextRte) (nextTable : next.nextTable = ctx.nextTable + 1)
    (tables : next.tables = Function.update ctx.tables ctx.nextTable (some table))
    (empty : ∀ key, table.hash.mt.lookup key = none) : next.Sound := by
  -- The new table's address was not used before, and the table holds nothing.
  have unused := sound.newTable _ (Nat.le_refl ctx.nextTable)
  have live : next.live = insert ctx.nextTable ctx.live := by
    ext rt
    unfold RtCtx.live
    rw [nextTable, tables, Finset.mem_insert, Finset.mem_filter, Finset.mem_filter,
      Finset.mem_range, Finset.mem_range]
    by_cases own : rt = ctx.nextTable
    · subst own
      simp
    · rw [Function.update_of_ne own]
      have below : rt < ctx.nextTable + 1 ↔ rt < ctx.nextTable := by omega
      simp [own, below]
  have objs : next.objs = ctx.objs := by
    funext id
    rw [RtCtx.objs, RtCtx.objs, rtes]
  refine ⟨?_, ?_, ?_⟩
  · rw [live, holds_of_update tables, objs]
    apply sound.exact.join _ empty
    rw [sound.mem_live]
    exact fun there => there unused
  · rw [nextRte, rtes]
    exact sound.newRte
  · intro rt beyond
    rw [tables, Function.update_of_ne (by omega)]
    exact sound.newTable rt (by omega)

/-- A table with nothing in it may be freed. -/
theorem Sound.free (sound : ctx.Sound) (there : ctx.tables rt = some table)
    (empty : ∀ key, table.hash.mt.lookup key = none) (rtes : next.rtes = ctx.rtes)
    (nextRte : next.nextRte = ctx.nextRte) (nextTable : next.nextTable = ctx.nextTable)
    (tables : next.tables = Function.update ctx.tables rt none) : next.Sound := by
  -- The table held nothing, so that no entry loses an owner.
  have live : next.live = ctx.live.erase rt := by
    ext other
    unfold RtCtx.live
    rw [nextTable, tables, Finset.mem_erase, Finset.mem_filter, Finset.mem_filter]
    by_cases own : other = rt
    · subst own
      simp
    · simp [own]
  have objs : next.objs = ctx.objs := by
    funext id
    rw [RtCtx.objs, RtCtx.objs, rtes]
  refine ⟨?_, ?_, ?_⟩
  · rw [live, objs]
    have left := sound.exact.leave (c := rt) (by simp [holds, there, empty])
    apply left.congr
    intro other member key
    simp [holds, tables, (Finset.mem_erase.mp member).1]
  · rw [nextRte, rtes]
    exact sound.newRte
  · intro other beyond
    rw [tables]
    by_cases own : other = rt
    · subst own
      rw [Function.update_self]
    · rw [Function.update_of_ne own]
      exact sound.newTable other (by omega)

end RtCtx

end Rmr
