import Rmr.Proofs.Symtab.Memory

/-! Clearing a table, and driving a callback for each element of a class that may delete it. -/

namespace Rmr

variable {V : Type}

namespace Symtab

/-- A chain is cleared. -/
def clearChain (table : Symtab V) (hv : Nat) : Symtab V :=
  { table with
    symlist := Function.update table.symlist hv []
    inhabitants := table.inhabitants - (table.symlist hv).length
    deaths := table.deaths + (table.symlist hv).length }

/-- `rmr_sym_clear`, on chains. -/
def rmrSymClear (table : Symtab V) : Symtab V := (List.range table.size).foldl clearChain table

/-- The callback is driven for an element if that is of the class. -/
def visit (cls : Nat) (userFun : UserFun V) (visits : Symtab V × List (SymEle V)) (ele : SymEle V) :
    Symtab V × List (SymEle V) :=
  if cls = ele.cls then
    (if userFun visits.2 ele then visits.1.rmrSymDel ele.key else visits.1, visits.2 ++ [ele])
  else visits

/-- `rmr_sym_foreach_class`, on chains. -/
def rmrSymForeachClass (table : Symtab V) (cls : Nat) (userFun : UserFun V) :
    Symtab V × List (SymEle V) :=
  (List.range table.size).foldl
    (fun visits hv => (visits.1.symlist hv).foldl (visit cls userFun) visits) (table, [])

section
variable {cls : Nat} {userFun : UserFun V} {table : Symtab V} {seen : List (SymEle V)}
    {ele : SymEle V}

/-- An element of another class is passed. -/
theorem visit_other (other : cls ≠ ele.cls) : visit cls userFun (table, seen) ele =
    (table, seen) := by
  rw [visit, if_neg other]

/-- The callback leaves an element. -/
theorem visit_keeps (same : cls = ele.cls) (keeps : ¬ userFun seen ele = true) :
    visit cls userFun (table, seen) ele = (table, seen ++ [ele]) := by
  rw [visit, if_pos same]
  dsimp only
  rw [if_neg keeps]

/-- The callback deletes an element. -/
theorem visit_deletes (same : cls = ele.cls) (deletes : userFun seen ele = true) :
    visit cls userFun (table, seen) ele = (table.rmrSymDel ele.key, seen ++ [ele]) := by
  rw [visit, if_pos same]
  dsimp only
  rw [if_pos deletes]

end

/-- All keys are numbers, or all are names. -/
def OfKind (table : Symtab V) (numeric : Bool) : Prop :=
  ∀ hv, ∀ ele ∈ table.symlist hv, decide (ele.cls = 0) = numeric

end Symtab

/-- A key is a number. -/
def SymKey.isNumeric : SymKey → Bool
  | .numeric _ => true
  | .string _ _ _ => false

/-- The key of an element is a number if its class is 0. -/
theorem SymEle.key_isNumeric (ele : SymEle V) : ele.key.isNumeric = decide (ele.cls = 0) := by
  -- A class of 0 makes the key a number, any other one a name.
  unfold SymEle.key
  split
  · rename_i number
    rw [decide_eq_true number]
    rfl
  · rename_i named
    rw [decide_eq_false named]
    rfl

namespace Symtab
variable {table : Symtab V} {numeric : Bool} {key : SymKey}

/-- Among keys of one kind, a search stops at an element with the key only. -/
theorem OfKind.key_of_stops (ofKind : table.OfKind numeric)
    (same : key.isNumeric = numeric) {hv : Nat}
    {ele : SymEle V} (among : ele ∈ table.symlist hv)
    (stops : key.stops ele = true) : ele.key = key := by
  -- A search for the number 0 could stop at a name, but there is none in a table of numbers.
  refine SymEle.key_of_stops stops fun zero => ?_
  have number : decide (ele.cls = 0) = true := by
    rw [ofKind hv ele among, ← same, zero]
    rfl
  exact of_decide_eq_true number

/-- So every search is guarded. -/
theorem OfKind.guarded (ofKind : table.OfKind numeric) (same : key.isNumeric = numeric) :
    table.Guarded key := by
  -- What is found has a key of the table's kind, so that no name meets a number.
  intro ele found zero
  have among : ele ∈ table.chain key := List.mem_of_find?_eq_some found
  have number : decide (ele.cls = 0) = true := by
    rw [ofKind _ ele among, ← same, zero]
    rfl
  exact of_decide_eq_true number

/-- The search for the key of an element passes the others. -/
theorem passes_others (sound : table.Sound) (ofKind : table.OfKind numeric) {hv : Nat}
    {kept rest : List (SymEle V)} {ele : SymEle V}
    (split : table.symlist hv = kept ++ ele :: rest) :
    ∀ other ∈ kept, ele.key.stops other = false := by
  intro other among
  have here : ele ∈ table.symlist hv := by
    rw [split]
    exact List.mem_append_right _ List.mem_cons_self
  have there : other ∈ table.symlist hv := by
    rw [split]
    exact List.mem_append_left _ among
  refine Bool.eq_false_iff.mpr fun stops => ?_
  have own : ele.key.isNumeric = numeric := by
    rw [ele.key_isNumeric]
    exact ofKind hv ele here
  have equal := ofKind.key_of_stops own there stops
  -- No key stands twice in the chain.
  have distinct := sound.distinct hv
  rw [split, Distinct, List.map_append, List.map_cons] at distinct
  exact (List.nodup_append.mp distinct).2.2 other.key (List.mem_map_of_mem among) ele.key
    List.mem_cons_self equal

/-- The key of an element is searched for in the chain that it stands in. -/
theorem chain_own (sound : table.Sound) {hv : Nat} {ele : SymEle V}
    (among : ele ∈ table.symlist hv) :
    table.chain ele.key = table.symlist hv := by
  rw [chain, sound.placed hv ele among]

/-- Deleting keeps what kind the keys are of. -/
theorem OfKind.rmrSymDel (ofKind : table.OfKind numeric) (key : SymKey) :
    (table.rmrSymDel key).OfKind numeric := by
  -- The chain loses an element, and the others keep theirs.
  intro hv ele among
  unfold Symtab.rmrSymDel at among
  split at among
  · have among : ele ∈ (table.setChain key ((table.chain key).eraseP key.stops)).symlist hv := among
    rw [setChain_symlist] at among
    split at among
    · exact ofKind _ ele (List.mem_of_mem_eraseP among)
    · exact ofKind hv ele among
  · exact ofKind hv ele among

end Symtab

namespace SymHeap
variable {heap : SymHeap V} {chains : Nat → List (Nat × SymEle V)} {table : Symtab V}
    {numeric : Bool}

/-- The first element of a chain is deleted. -/
theorem Views.delHeadEle (views : heap.Views chains table) {hv : Nat} (inside : hv < heap.size)
    {entry : Nat × SymEle V} {rest : List (Nat × SymEle V)} (split : chains hv = entry :: rest) :
    heap.symlist hv = some entry.1 ∧
      ∃ heap', heap.delHeadEle hv = .ok heap' ∧ heap'.size = heap.size ∧
        heap'.Views (Function.update chains hv rest) { table with
          symlist := Function.update table.symlist hv (rest.map Prod.snd)
          inhabitants := table.inhabitants - 1
          deaths := table.deaths + 1 } := by
  -- The head of the chain goes on to the next element, and the first one is freed.
  have linked := views.linked hv
  rw [split] at linked
  obtain ⟨head, cells, next, unlinked, after, same⟩ := linked.unlinkFront
  refine ⟨head, { heap.setHead hv next with
    cells := cells
    deaths := heap.deaths + 1
    inhabitants := heap.inhabitants - 1 }, ?_, rfl, ?_⟩
  · rw [SymHeap.delHeadEle, if_neg (Nat.not_le.mpr inside), head]
    show (heap.cells.unlinkFront entry.1 >>= _) = _
    rw [unlinked]
    rfl
  · refine views.replace hv ?_ ?_ ?_ (Nat.le_refl _) ?_ ?_ views.size ?_ ?_
    · show Linked cells (Function.update heap.symlist hv next hv) rest
      rw [Function.update_self]
      exact after
    · exact fun other differs => Function.update_of_ne differs _ _
    · intro addr outside _
      rw [split] at outside
      exact same addr outside
    · intro addr among
      rw [split]
      exact .inl (List.mem_cons_of_mem _ among)
    · exact fun other => Function.update_apply _ _ _ _
    · show table.inhabitants - 1 = heap.inhabitants - 1
      rw [views.inhabitants]
    · show table.deaths + 1 = heap.deaths + 1
      rw [views.deaths]

/-- The loop over one chain deletes all its elements. -/
theorem Views.clearChain (views : heap.Views chains table) {hv : Nat} (inside : hv < heap.size)
    {fuel : Nat} (enough : (chains hv).length ≤ fuel) :
    ∃ heap', SymHeap.clearChain hv fuel heap = .ok heap' ∧ heap'.size = heap.size ∧
      heap'.Shows (table.clearChain hv) := by
  generalize is : chains hv = list at enough
  induction list generalizing heap chains table fuel with
  | nil =>
    refine ⟨heap, ?_, rfl, chains, ?_⟩
    · obtain ⟨_, _, seg⟩ := views.linked hv
      rw [is] at seg
      unfold SymHeap.clearChain
      rw [seg.2]
    · -- With nothing in the chain, nothing is cleared.
      have empty : table.symlist hv = [] := by rw [views.symlist, is, List.map_nil]
      have same : table.clearChain hv = table := by
        rw [Symtab.clearChain, ← empty, Function.update_eq_self, empty]
        simp
      rw [same]
      exact views
  | cons entry rest ih =>
    cases fuel with
    | zero => cases enough
    | succ fuel =>
      obtain ⟨head, heap₁, deleted, size, views₁⟩ := views.delHeadEle inside is
      obtain ⟨heap₂, cleared, size₂, shows⟩ :=
        ih views₁ (size ▸ inside) (Function.update_self _ _ _)
        (Nat.le_of_succ_le_succ enough)
      refine ⟨heap₂, ?_, size₂.trans size, ?_⟩
      · rw [SymHeap.clearChain, head]
        show (heap.delHeadEle hv >>= _) = _
        rw [deleted]
        exact cleared
      · have length : (table.symlist hv).length = rest.length + 1 := by
          rw [views.symlist, is, List.length_map, List.length_cons]
        have same : Symtab.clearChain { table with
            symlist := Function.update table.symlist hv (rest.map Prod.snd)
            inhabitants := table.inhabitants - 1
            deaths := table.deaths + 1 } hv = table.clearChain hv := by
          unfold Symtab.clearChain
          simp only [Function.update_idem, Function.update_self, length, List.length_map]
          congr 1
          · push_cast
            omega
          · push_cast
            omega
        rw [← same]
        exact shows

/-- `rmr_sym_clear` does to memory what it does to the chains. -/
theorem Shows.rmrSymClear (shows : heap.Shows table) :
    ∃ heap', heap.rmrSymClear = .ok heap' ∧ heap'.Shows table.rmrSymClear := by
  have size : table.size = heap.size := shows.choose_spec.size
  rw [SymHeap.rmrSymClear, Symtab.rmrSymClear, size]
  -- The chains that are still to be cleared are all in the table.
  have inside : ∀ hv ∈ List.range heap.size, hv < heap.size :=
    fun hv among => List.mem_range.mp among
  generalize List.range heap.size = hvs at inside
  induction hvs generalizing heap table with
  | nil => exact ⟨heap, rfl, shows⟩
  | cons hv hvs ih =>
    obtain ⟨chains, views⟩ := shows
    obtain ⟨heap₁, cleared, same, shows₁⟩ :=
      views.clearChain (inside hv List.mem_cons_self) (views.length_le hv)
    obtain ⟨heap₂, rest, shows₂⟩ := ih shows₁ shows₁.choose_spec.size fun other among => by
      rw [same]
      exact inside other (List.mem_cons_of_mem hv among)
    refine ⟨heap₂, ?_, shows₂⟩
    rw [List.foldlM_cons]
    show (SymHeap.clearChain hv heap.brk heap >>= _) = _
    rw [cleared]
    exact rest

/-- Deleting an element where it stands leaves the elements before and after it in their chain. -/
theorem Views.deleteOwn (views : heap.Views chains table) (sound : table.Sound)
    (ofKind : table.OfKind numeric) {hv : Nat} {kept rest : List (Nat × SymEle V)}
    {entry : Nat × SymEle V}
    (split : chains hv = kept ++ entry :: rest) :
    ∃ heap', heap.rmrSymDel entry.2.key = .ok heap' ∧ heap'.brk = heap.brk ∧
      heap'.Views (Function.update chains hv (kept ++ rest)) (table.rmrSymDel entry.2.key) := by
  -- The search passes what stands before the element, as their keys are other ones.
  have symlist : table.symlist hv = kept.map Prod.snd ++ entry.2 :: rest.map Prod.snd := by
    rw [views.symlist, split, List.map_append, List.map_cons]
  have here : entry.2 ∈ table.symlist hv := by
    rw [symlist]
    exact List.mem_append_right _ List.mem_cons_self
  have placed : entry.2.key.hash heap.size = hv := views.size ▸ sound.placed hv entry.2 here
  have passed := Symtab.passes_others sound ofKind symlist
  have split' : chains (entry.2.key.hash heap.size) = kept ++ entry :: rest := by rw [placed, split]
  rw [← placed]
  exact views.delete split' passed entry.2.stops_key

/-- The loop over one chain drives the callback for each of its elements, also for those behind
elements that the callback deleted. -/
theorem Views.walk (views : heap.Views chains table) (sound : table.Sound)
    (ofKind : table.OfKind numeric)
    (cls : Nat) (userFun : UserFun V) {hv : Nat} {kept rest : List (Nat × SymEle V)}
    (split : chains hv = kept ++ rest) {fuel : Nat} (enough : rest.length ≤ fuel)
    (visits : List (SymEle V)) :
    ∃ heap', SymHeap.walk cls userFun fuel (rest.head?.map Prod.fst) (heap, visits) =
        .ok (heap', ((rest.map Prod.snd).foldl (Symtab.visit cls userFun) (table, visits)).2) ∧
      heap'.Shows ((rest.map Prod.snd).foldl (Symtab.visit cls userFun) (table, visits)).1 := by
  induction rest generalizing heap chains table kept fuel visits with
  | nil =>
    refine ⟨heap, ?_, chains, views⟩
    cases fuel <;> rfl
  | cons entry rest ih =>
    cases fuel with
    | zero => cases enough
    | succ fuel =>
      have enough : rest.length ≤ fuel := Nat.le_of_succ_le_succ enough
      obtain ⟨_, _, seg⟩ := views.linked hv
      rw [split] at seg
      obtain ⟨prev, cell⟩ := seg.cell
      show ∃ heap', SymHeap.walk cls userFun (fuel + 1) (some entry.1) (heap, visits) = _ ∧ _
      rw [SymHeap.walk, Cells.load, cell, List.map_cons, List.foldl_cons]
      show ∃ heap', (if cls = entry.2.cls then _ else _) = _ ∧ _
      have onward : chains hv = (kept ++ [entry]) ++ rest := by
        rw [split, List.append_assoc, List.singleton_append]
      by_cases same : cls = entry.2.cls
      · rw [if_pos same]
        by_cases deletes : userFun visits entry.2 = true
        · -- The callback deletes the element, and the next one is known from before.
          rw [if_pos deletes, Symtab.visit_deletes same deletes]
          obtain ⟨heap₁, deleted, _, views₁⟩ := views.deleteOwn sound ofKind split
          rw [deleted]
          have here : entry.2 ∈ table.symlist hv := by
            rw [views.symlist, split]
            exact List.mem_map_of_mem (List.mem_append_right _ List.mem_cons_self)
          have own : entry.2.key.isNumeric = numeric :=
            entry.2.key_isNumeric.trans (ofKind hv _ here)
          refine ih views₁ ?_ ?_ (Function.update_self _ _ _) enough _
          · exact (Symtab.rmrSymDel_spec sound (ofKind.guarded own)).1
          · exact ofKind.rmrSymDel _
        · rw [if_neg deletes, Symtab.visit_keeps same deletes]
          exact ih views sound ofKind onward enough _
      · rw [if_neg same, Symtab.visit_other same]
        exact ih views sound ofKind onward enough _

end SymHeap

end Rmr
