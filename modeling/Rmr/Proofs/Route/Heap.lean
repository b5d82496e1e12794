import Rmr.Lib.RefCount
import Rmr.Lib.Run
import Rmr.Route.Table

/-! What the loops over a route table come to: entries given up, and entries cloned. -/

namespace Rmr

/-- The key and the reference count of an entry. -/
def Rte.obj (rte : Rte) : UInt64 × Int := (rte.entry.key, rte.refs)

namespace RtCtx

/-- The keys and reference counts of all entries. -/
def objs (ctx : RtCtx) (id : Nat) : Option (UInt64 × Int) := (ctx.rtes id).map Rte.obj

/-- The entry that a table has under a key. -/
def holds (ctx : RtCtx) (rt : Nat) (key : UInt64) : Option Nat :=
  (ctx.tables rt).bind fun table => table.hash.mt.lookup key

/-- A table that is there can be used. -/
theorem table_ok {ctx : RtCtx} {rt : Nat} {table : RouteTable}
    (there : ctx.tables rt = some table) :
    ctx.table rt = .ok table := by
  simp [RtCtx.table, there]

/-- An entry that is there can be used. -/
theorem rte_ok {ctx : RtCtx} {id : Nat} {rte : Rte} (there : ctx.rtes id = some rte) :
    ctx.rte id = .ok rte := by
  simp [RtCtx.rte, there]

/-- Entries stay what they are for as long as they live, and no address is used again. -/
structure Later (ctx next : RtCtx) : Prop where
  grows : ctx.nextRte ≤ next.nextRte
  kept : ∀ id < ctx.nextRte, ∀ rte', next.rtes id = some rte' →
    ∃ rte, ctx.rtes id = some rte ∧ rte'.entry = rte.entry

/-- A context is not earlier than itself. -/
theorem Later.refl (ctx : RtCtx) : ctx.Later ctx :=
  ⟨Nat.le_refl _, fun _ _ rte' is => ⟨rte', is, rfl⟩⟩

/-- What comes later than a later one comes later. -/
theorem Later.trans {ctx mid next : RtCtx} (first : ctx.Later mid) (second : mid.Later next) :
    ctx.Later next := by
  -- An entry of the last one is one of the middle one, and so one of the first.
  refine ⟨Nat.le_trans first.grows second.grows, fun id below rte' is => ?_⟩
  obtain ⟨mid, midIs, midSame⟩ := second.kept id (Nat.lt_of_lt_of_le below first.grows) rte' is
  obtain ⟨rte, rteIs, same⟩ := first.kept id below mid midIs
  exact ⟨rte, rteIs, midSame.trans same⟩

/-- Other entries than one that is changed are what they were. -/
theorem objs_update (ctx : RtCtx) (id : Nat) (rte : Option Rte) :
    RtCtx.objs { ctx with rtes := Function.update ctx.rtes id rte } =
      Function.update ctx.objs id (rte.map Rte.obj) := by
  -- The address is that of the entry, or one at which nothing was written.
  funext other
  by_cases own : other = id
  · subst own
    simp [objs]
  · simp [objs, own]

/-- An entry that is freed, or whose count is changed, is the only one that differs. -/
theorem later_update (ctx : RtCtx) (id : Nat) (now : Option Rte)
    (same : ∀ rte', now = some rte' → ∃ rte, ctx.rtes id = some rte ∧ rte'.entry = rte.entry) :
    ctx.Later { ctx with rtes := Function.update ctx.rtes id now } := by
  -- The address is that of the entry, or one at which nothing was written.
  refine ⟨Nat.le_refl _, fun other _ rte' is => ?_⟩
  have is : Function.update ctx.rtes id now other = some rte' := is
  by_cases own : other = id
  · subst own
    rw [Function.update_self] at is
    exact same rte' is
  · rw [Function.update_of_ne own] at is
    exact ⟨rte', is, rfl⟩

/-- `del_rte` for an entry that is there takes one reference from it. -/
theorem delRte_ok {ctx : RtCtx} {id : Nat} {key : UInt64} {refs : Int}
    (live : ctx.objs id = some (key, refs)) :
    ∃ rtes, ctx.delRte id = .ok { ctx with rtes := rtes } ∧
      RtCtx.objs { ctx with rtes := rtes } = Function.update ctx.objs id
        (if 0 < refs - 1 then some (key, refs - 1) else none) ∧
      ctx.Later { ctx with rtes := rtes } := by
  obtain ⟨rte, is, obj⟩ := Option.map_eq_some_iff.mp live
  obtain ⟨rfl, rfl⟩ : rte.entry.key = key ∧ rte.refs = refs := by simpa [Rte.obj] using obj
  have read := rte_ok is
  by_cases more : 0 < rte.refs - 1
  · -- Something else refers to the entry.
    refine ⟨Function.update ctx.rtes id (some { rte with refs := rte.refs - 1 }), ?_, ?_, ?_⟩
    · exact bind_eq_ok.mpr ⟨rte, read, by rw [if_pos more]; rfl⟩
    · rw [objs_update, if_pos more]
      rfl
    · apply later_update
      intro rte' now
      cases now
      exact ⟨rte, is, rfl⟩
  · -- It was the last reference.
    refine ⟨Function.update ctx.rtes id none, ?_, ?_, ?_⟩
    · exact bind_eq_ok.mpr ⟨rte, read, by rw [if_neg more]; rfl⟩
    · rw [objs_update, if_neg more]
      rfl
    · apply later_update
      intro rte' now
      cases now

/-- The loop that gives up the entries of a table. -/
theorem delThings_ok (things : List (Sigma fun _ : UInt64 => Nat)) (nodup : things.NodupKeys)
    {ctx : RtCtx} (live : ∀ thing ∈ things, ∃ refs, ctx.objs thing.2 = some (thing.1, refs)) :
    ∃ rtes, things.foldlM (fun ctx thing => ctx.delRte thing.2) ctx =
      .ok { ctx with rtes := rtes } ∧
      RtCtx.objs { ctx with rtes := rtes } = release ctx.objs (fun key => things.dlookup key) ∧
      ctx.Later { ctx with rtes := rtes } := by
  -- Induction on the entries: the first one has a key of its own, so the others are still there.
  induction things generalizing ctx with
  | nil =>
    refine ⟨ctx.rtes, rfl, ?_, Later.refl ctx⟩
    funext id
    cases is : ctx.objs id with
    | none => simp [release, is]
    | some obj => simp [release, is]
  | cons thing things ih =>
    obtain ⟨key, id⟩ := thing
    obtain ⟨fresh, rest⟩ := List.nodupKeys_cons.mp nodup
    obtain ⟨refs, first⟩ := live ⟨key, id⟩ (by simp)
    obtain ⟨rtes, deleted, objs, later⟩ := delRte_ok first
    have others : ∀ thing ∈ things,
        ∃ refs, RtCtx.objs { ctx with rtes := rtes } thing.2 = some (thing.1, refs) := by
      rintro ⟨otherKey, other⟩ among
      obtain ⟨otherRefs, is⟩ := live ⟨otherKey, other⟩ (by simp [among])
      have present := List.mem_keys_of_mem among
      have different : other ≠ id := by
        -- The same entry would have two keys.
        intro equal
        subst equal
        obtain ⟨same, _⟩ : key = otherKey ∧ refs = otherRefs := by simpa [first] using is
        exact fresh (same ▸ present)
      exact ⟨otherRefs, by rw [objs, Function.update_of_ne different, is]⟩
    obtain ⟨final, ran, finalObjs, finalLater⟩ := ih rest others
    refine ⟨final, foldlM_cons_ok.mpr ⟨_, deleted, ran⟩, ?_, later.trans finalLater⟩
    rw [show RtCtx.objs { ctx with rtes := final } =
      RtCtx.objs { { ctx with rtes := rtes } with rtes := final } from rfl, finalObjs, objs]
    exact release_first first (List.dlookup_cons_eq _ _ _) (List.dlookup_eq_none.mpr fresh)
      fun other different => List.dlookup_cons_ne _ _ different

/-- `rmr_sym_foreach_class` with `del_rte` takes one reference from each entry of a table. -/
theorem delRtes_ok {ctx : RtCtx} {mt : AList fun _ : UInt64 => Nat}
    (live : ∀ key id, mt.lookup key = some id → ∃ refs, ctx.objs id = some (key, refs)) :
    ∃ rtes, ctx.delRtes mt = .ok { ctx with rtes := rtes } ∧
      RtCtx.objs { ctx with rtes := rtes } = release ctx.objs mt.lookup ∧
      ctx.Later { ctx with rtes := rtes } := by
  apply delThings_ok mt.entries mt.nodupKeys
  intro thing among
  exact live thing.1 thing.2 (AList.mem_lookup_iff.mpr among)

/-- Entries with one reference more for each that a map has under its own key. -/
def referred (rtes : Nat → Option Rte) (map : UInt64 → Option Nat) (id : Nat) : Option Rte :=
  (rtes id).map fun rte =>
    if map rte.entry.key = some id then { rte with refs := rte.refs + 1 } else rte

/-- Referring to a map is referring to one of its keys and then to the others. -/
theorem referred_first {rtes : Nat → Option Rte} {map rest : UInt64 → Option Nat} {id : Nat}
    {rte : Rte} (is : rtes id = some rte) (first : map rte.entry.key = some id)
    (absent : rest rte.entry.key = none)
    (others : ∀ other, other ≠ rte.entry.key → map other = rest other) :
    referred (Function.update rtes id (some { rte with refs := rte.refs + 1 })) rest =
      referred rtes map := by
  funext other
  by_cases own : other = id
  · subst own
    simp [referred, is, first, absent]
  · rw [referred, referred, Function.update_of_ne own]
    cases there : rtes other with
    | none => rfl
    | some found =>
      by_cases same : found.entry.key = rte.entry.key
      · -- Under this key another entry is referred to.
        have different : id ≠ other := fun equal => own equal.symm
        simp [same, absent, first, different]
      · simp [others _ same]

/-- The loop that puts the entries of a table into another one. -/
theorem cloneThings_goes (things : List (Sigma fun _ : UInt64 => Nat)) (nodup : things.NodupKeys)
    {ctx : RtCtx} {nrt : Nat} {table : RouteTable} (there : ctx.tables nrt = some table)
    (filed : ∀ thing ∈ things, ∃ rte, ctx.rtes thing.2 = some rte ∧ rte.entry.key = thing.1) :
    ∃ mt, things.foldlM (fun ctx thing => do
        let rte ← ctx.rte thing.2
        let ctx := ctx.setRte thing.2 { rte with refs := rte.refs + 1 }
        let table ← ctx.table nrt
        return ctx.setTable nrt
          { table with hash.mt := table.hash.mt.insert rte.entry.key thing.2 }) ctx =
        .ok (RtCtx.setTable { ctx with rtes := referred ctx.rtes (things.dlookup ·) } nrt
          { table with hash.mt := mt }) ∧
      ∀ key, mt.lookup key = (things.dlookup key).or (table.hash.mt.lookup key) := by
  -- The induction is on the things: the first one has a key of its own, so the others are as they
  -- were.
  induction things generalizing ctx table with
  | nil =>
    refine ⟨table.hash.mt, ?_, fun key => by simp⟩
    have same : referred ctx.rtes (fun _ => none) = ctx.rtes := by
      funext id
      cases is : ctx.rtes id with
      | none => simp [referred, is]
      | some rte => simp [referred, is]
    show Except.ok ctx = Except.ok
      (RtCtx.setTable { ctx with rtes := referred ctx.rtes fun _ => none } nrt table)
    rw [same, setTable, ← there, Function.update_eq_self]
  | cons thing things ih =>
    obtain ⟨key, id⟩ := thing
    obtain ⟨fresh, rest⟩ := List.nodupKeys_cons.mp nodup
    obtain ⟨rte, is, rfl⟩ := filed ⟨key, id⟩ (by simp)
    -- After the first entry it has one reference more, and the table has it.
    obtain ⟨mid, midIs⟩ : ∃ mid, mid = RtCtx.setTable
        (ctx.setRte id { rte with refs := rte.refs + 1 }) nrt
        { table with hash.mt := table.hash.mt.insert rte.entry.key id } := ⟨_, rfl⟩
    have midRtes : mid.rtes = Function.update ctx.rtes id
        (some { rte with refs := rte.refs + 1 }) := by
      rw [midIs]
      rfl
    have midThere : mid.tables nrt =
        some { table with hash.mt := table.hash.mt.insert rte.entry.key id } := by
      rw [midIs]
      simp [setTable]
    have others : ∀ thing ∈ things,
        ∃ rte, mid.rtes thing.2 = some rte ∧ rte.entry.key = thing.1 := by
      intro thing among
      obtain ⟨found, was, named⟩ := filed thing (by simp [among])
      have present := List.mem_keys_of_mem among
      have different : thing.2 ≠ id := by
        -- The same entry would have two keys.
        intro equal
        rw [equal, is] at was
        cases was
        exact fresh (named ▸ present)
      exact ⟨found, by rw [midRtes, Function.update_of_ne different, was], named⟩
    obtain ⟨mt, ran, lookup⟩ := ih rest midThere others
    refine ⟨mt, foldlM_cons_ok.mpr ⟨mid, ?_, ?_⟩, ?_⟩
    · refine bind_eq_ok.mpr ⟨rte, rte_ok is, bind_eq_ok.mpr ⟨table, ?_, ?_⟩⟩
      · simp [RtCtx.table, setRte, there]
      · rw [midIs]
        rfl
    · have same : referred mid.rtes (things.dlookup ·) =
          referred ctx.rtes fun key => List.dlookup key (⟨rte.entry.key, id⟩ :: things) := by
        rw [midRtes]
        exact referred_first is (List.dlookup_cons_eq things rte.entry.key id)
          (List.dlookup_eq_none.mpr fresh) fun other different => List.dlookup_cons_ne _ _ different
      rw [ran, same, midIs]
      simp [setTable, setRte]
    · intro other
      rw [lookup]
      by_cases same : other = rte.entry.key
      · subst same
        rw [List.dlookup_cons_eq, List.dlookup_eq_none.mpr fresh]
        simp
      · rw [List.dlookup_cons_ne _ _ same, AList.lookup_insert_ne same]

/-- What it does to keys and counts, and that entries stay what they are. -/
theorem cloneThings_ok (things : List (Sigma fun _ : UInt64 => Nat)) (nodup : things.NodupKeys)
    {ctx : RtCtx} {nrt : Nat} {table : RouteTable} (there : ctx.tables nrt = some table)
    (live : ∀ thing ∈ things, ∃ refs, ctx.objs thing.2 = some (thing.1, refs)) :
    ∃ rtes mt, things.foldlM (fun ctx thing => do
        let rte ← ctx.rte thing.2
        let ctx := ctx.setRte thing.2 { rte with refs := rte.refs + 1 }
        let table ← ctx.table nrt
        return ctx.setTable nrt
          { table with hash.mt := table.hash.mt.insert rte.entry.key thing.2 }) ctx =
        .ok (RtCtx.setTable { ctx with rtes := rtes } nrt { table with hash.mt := mt }) ∧
      RtCtx.objs { ctx with rtes := rtes } = retain ctx.objs (fun key => things.dlookup key) ∧
      (∀ key, mt.lookup key = (things.dlookup key).or (table.hash.mt.lookup key)) ∧
      ctx.Later { ctx with rtes := rtes } := by
  -- By induction on the entries, each of which is counted before it is put into the new table.
  have filed : ∀ thing ∈ things,
      ∃ rte, ctx.rtes thing.2 = some rte ∧ rte.entry.key = thing.1 := by
    intro thing among
    obtain ⟨refs, is⟩ := live thing among
    obtain ⟨rte, rteIs, obj⟩ := Option.map_eq_some_iff.mp is
    exact ⟨rte, rteIs, congrArg Prod.fst obj⟩
  obtain ⟨mt, ran, lookup⟩ := cloneThings_goes things nodup there filed
  refine ⟨_, mt, ran, ?_, lookup, Nat.le_refl _, ?_⟩
  · funext id
    cases is : ctx.rtes id with
    | none => simp [objs, referred, retain, is]
    | some rte =>
      simp only [objs, referred, retain, is, Option.map_some, Rte.obj]
      split <;> rfl
  · intro id _ rte' now
    obtain ⟨rte, is, rfl⟩ := Option.map_eq_some_iff.mp now
    refine ⟨rte, is, ?_⟩
    split <;> rfl

/-- Cloning the entries of a table gives each one reference more. -/
theorem cloneMt_ok {ctx : RtCtx} {srt nrt : Nat} {source table : RouteTable}
    (from_ : ctx.tables srt = some source) (there : ctx.tables nrt = some table)
    (live : ∀ key id, source.hash.mt.lookup key = some id →
      ∃ refs, ctx.objs id = some (key, refs)) :
    ∃ rtes mt, ctx.cloneMt srt nrt =
        .ok (RtCtx.setTable { ctx with rtes := rtes } nrt { table with hash.mt := mt }) ∧
      RtCtx.objs { ctx with rtes := rtes } = retain ctx.objs source.hash.mt.lookup ∧
      (∀ key, mt.lookup key = (source.hash.mt.lookup key).or (table.hash.mt.lookup key)) ∧
      ctx.Later { ctx with rtes := rtes } := by
  -- The loop over the entries of the source, each of which is live as that table holds it.
  obtain ⟨rtes, mt, ran, objs, lookup, later⟩ := cloneThings_ok source.hash.mt.entries
    source.hash.mt.nodupKeys there
    (fun thing among => live thing.1 thing.2 (AList.mem_lookup_iff.mpr among))
  refine ⟨rtes, mt, ?_, objs, lookup, later⟩
  exact bind_eq_ok.mpr ⟨source, table_ok from_, ran⟩

/-- The loop that puts managed element ids into a table. -/
theorem cloneOwners_ok (things : List (Sigma fun _ : CStr => CStr)) (nodup : things.NodupKeys)
    {ctx : RtCtx} {nrt : Nat} {table : RouteTable} (there : ctx.tables nrt = some table) :
    ∃ me, things.foldlM (fun ctx thing => do
        let table ← ctx.table nrt
        return ctx.setTable nrt
          { table with hash.me := table.hash.me.insert thing.1 thing.2 }) ctx =
        .ok (ctx.setTable nrt { table with hash.me := me }) ∧
      ∀ meid, me.lookup meid = (things.dlookup meid).or (table.hash.me.lookup meid) := by
  -- By induction on the ids, each of which is put into the table that the ones before left.
  induction things generalizing ctx table with
  | nil =>
    refine ⟨table.hash.me, ?_, fun meid => by simp⟩
    show Except.ok ctx = Except.ok (ctx.setTable nrt table)
    rw [setTable, ← there, Function.update_eq_self]
  | cons thing things ih =>
    obtain ⟨meid, ep⟩ := thing
    obtain ⟨fresh, rest⟩ := List.nodupKeys_cons.mp nodup
    obtain ⟨mid, midIs⟩ : ∃ mid, mid = ctx.setTable nrt
        { table with hash.me := table.hash.me.insert meid ep } := ⟨_, rfl⟩
    have midThere : mid.tables nrt =
        some { table with hash.me := table.hash.me.insert meid ep } := by
      rw [midIs]
      simp [setTable]
    obtain ⟨me, ran, lookup⟩ := ih rest midThere
    refine ⟨me, foldlM_cons_ok.mpr ⟨mid, ?_, ?_⟩, ?_⟩
    · refine bind_eq_ok.mpr ⟨table, table_ok there, ?_⟩
      rw [midIs]
      rfl
    · rw [ran, midIs]
      simp [setTable]
    · intro other
      rw [lookup]
      by_cases same : other = meid
      · subst same
        rw [List.dlookup_cons_eq, List.dlookup_eq_none.mpr fresh]
        simp
      · rw [List.dlookup_cons_ne _ _ same, AList.lookup_insert_ne same]

/-- Cloning the managed element ids of a table. -/
theorem cloneMe_ok {ctx : RtCtx} {srt nrt : Nat} {source table : RouteTable}
    (from_ : ctx.tables srt = some source) (there : ctx.tables nrt = some table) :
    ∃ me, ctx.cloneMe srt nrt = .ok (ctx.setTable nrt { table with hash.me := me }) ∧
      ∀ meid, me.lookup meid = (source.hash.me.lookup meid).or (table.hash.me.lookup meid) := by
  obtain ⟨me, ran, lookup⟩ := cloneOwners_ok source.hash.me.entries source.hash.me.nodupKeys there
  exact ⟨me, bind_eq_ok.mpr ⟨source, table_ok from_, ran⟩, lookup⟩

end RtCtx

end Rmr
