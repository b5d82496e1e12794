import Rmr.Proofs.Symtab.Sweep
import Rmr.Lib.Run
import Mathlib.Algebra.BigOperators.Group.Finset.Basic

/-! A table in memory whose keys are all numbers, or all names, is a finite map. -/

namespace Rmr

variable {V : Type}

/-- The sum that is reduced to an index, before that is done. -/
def symHashSum (name : List UInt8) : Int :=
  let t := name.foldl (fun t c => Int.bmod (t * 79 + charVal c) 18446744073709551616) 0
  if t < 0 then -t - 1 else t

/-- A sum that wrapped below zero is complemented, so that the remainder is an index. -/
theorem symHash_index (name : List UInt8) {size : Nat} (positive : 0 < size) :
    0 ≤ (symHashSum name).tmod size ∧ (symHashSum name).tmod size < size ∧
      ((symHash name size : Nat) : Int) = (symHashSum name).tmod size := by
  -- The complement of a negative sum is not negative, and then `%` is a remainder.
  have low : 0 ≤ symHashSum name := by
    unfold symHashSum
    dsimp only
    split
    · omega
    · omega
  have some_ : (size : Int) ≠ 0 := by omega
  have same : (symHashSum name).tmod size = symHashSum name % size := Int.tmod_eq_emod_of_nonneg low
  have inside := Int.emod_nonneg (symHashSum name) some_
  rw [same]
  refine ⟨inside, Int.emod_lt_of_pos _ (by omega), ?_⟩
  show (((symHashSum name % size).toNat : Nat) : Int) = _
  exact Int.toNat_of_nonneg inside

/-- Every key belongs to a chain of the table. -/
theorem SymKey.hash_lt (key : SymKey) {size : Nat} (positive : 0 < size) :
    key.hash size < size := by
  -- Numbers are taken modulo the size; a name's remainder is not negative.
  cases key with
  | numeric nkey => exact Nat.mod_lt _ positive
  | string cls named name =>
    obtain ⟨_, high, is⟩ := symHash_index name positive
    show symHash name size < size
    omega

namespace Symtab
variable {table : Symtab V} {numeric : Bool} {key : SymKey}

/-- How many elements are in the chains. -/
def population (table : Symtab V) : Nat := ∑ hv ∈ Finset.range table.size, (table.symlist hv).length

/-- What holds of a table at all times whose keys are of one kind. -/
structure Good (numeric : Bool) (table : Symtab V) : Prop where
  sound : table.Sound
  ofKind : table.OfKind numeric
  counted : table.inhabitants = table.population

/-- There is at least one chain. -/
theorem size_pos (table : Symtab V) : 0 < table.size := Nat.lt_of_lt_of_le (by decide) table.sizeLow

/-- Another chain changes the number of elements by what it has more. -/
theorem population_set {table' : Symtab V} {hv : Nat} (inside : hv < table.size)
    {list : List (SymEle V)} (symlist : table'.symlist = Function.update table.symlist hv list)
    (size : table'.size = table.size) :
    table'.population + (table.symlist hv).length = table.population + list.length := by
  have among : hv ∈ Finset.range table.size := Finset.mem_range.mpr inside
  unfold population
  rw [symlist, size, ← Finset.add_sum_erase _ _ among,
    ← Finset.add_sum_erase (Finset.range table.size) _ among,
    Function.update_self]
  -- The other chains are the same.
  have others : ∑ other ∈ (Finset.range table.size).erase hv,
    (Function.update table.symlist hv list other).length =
      ∑ other ∈ (Finset.range table.size).erase hv, (table.symlist other).length := by
    refine Finset.sum_congr rfl fun other among => ?_
    rw [Function.update_of_ne (Finset.ne_of_mem_erase among)]
  rw [others]
  omega

/-- A chain is changed, and the count with it. -/
theorem counted_set {table' : Symtab V} (counted : table.inhabitants = table.population) {hv : Nat}
    (inside : hv < table.size) {list : List (SymEle V)}
    (symlist : table'.symlist = Function.update table.symlist hv list)
    (size : table'.size = table.size)
    (inhabitants : table'.inhabitants + (table.symlist hv).length =
      table.inhabitants + list.length) :
    table'.inhabitants = table'.population := by
  have population := population_set inside symlist size
  omega

/-- A new table is good for either kind. -/
theorem rmrSymAlloc_good (numeric : Bool) (size : Int) (fits : size ≤ intMax) :
    (rmrSymAlloc V size fits).Good numeric where
  -- All chains are empty, so that there is nothing to check and nothing to count.
  sound := rmrSymAlloc_sound size fits
  ofKind := fun _ _ among => absurd among List.not_mem_nil
  counted := by
    have none_ : (rmrSymAlloc V size fits).population = 0 := Finset.sum_eq_zero fun _ _ => rfl
    rw [none_]
    rfl

/-- Deleting keeps a table good. -/
theorem Good.rmrSymDel (good : table.Good numeric) (same : key.isNumeric = numeric) :
    (table.rmrSymDel key).Good numeric where
  -- The count of inhabitants goes down exactly when the chain gets shorter.
  sound := (rmrSymDel_spec good.sound (good.ofKind.guarded same)).1
  ofKind := good.ofKind.rmrSymDel key
  counted := by
    rw [Symtab.rmrSymDel]
    cases found : (table.chain key).find? key.stops with
    | none => exact good.counted
    | some ele =>
      refine counted_set good.counted (key.hash_lt table.size_pos) rfl rfl ?_
      have hit : ele ∈ table.chain key := List.mem_of_find?_eq_some found
      have length := List.length_eraseP_of_mem hit (List.find?_some found)
      have some_ : 0 < (table.chain key).length := List.length_pos_of_mem hit
      show table.inhabitants - 1 + (table.chain key).length = _
      rw [length]
      omega

/-- Changing elements in place keeps a table good. -/
theorem Good.change (good : table.Good numeric) {change : SymEle V → SymEle V}
    (keeps : ∀ ele, (change ele).key = ele.key) (keepsClass : ∀ ele, (change ele).cls = ele.cls) :
    (table.setChain key (updateFirst key.stops change (table.chain key))).Good numeric where
  sound := good.sound.updateFirst keeps
  ofKind := by
    intro hv ele among
    rw [setChain_symlist] at among
    split at among
    · -- The class is that of an element that was there.
      have classes : (updateFirst key.stops change (table.chain key)).map SymEle.cls =
          (table.chain key).map SymEle.cls :=
            map_keyOf_updateFirst key.stops keepsClass (table.chain key)
      have member : ele.cls ∈ (table.chain key).map SymEle.cls := by
        rw [← classes]
        exact List.mem_map_of_mem among
      obtain ⟨old, oldAmong, is⟩ := List.mem_map.mp member
      rw [← is]
      exact good.ofKind _ old oldAmong
    · exact good.ofKind hv ele among
  counted := by
    refine counted_set good.counted (key.hash_lt table.size_pos) rfl rfl ?_
    have keys := congrArg List.length (map_keyOf_updateFirst key.stops keeps (table.chain key))
    rw [List.length_map, List.length_map] at keys
    rw [keys]
    rfl

/-- `putin` keeps a table good. -/
theorem Good.putin (good : table.Good numeric) (same : key.isNumeric = numeric) (val : Option V) :
    (table.putin key val).1.Good numeric := by
  -- An element that is there gets another value; a new one is put before the others.
  have sound := (putin_spec good.sound (good.ofKind.guarded same) val).1
  unfold Symtab.putin at sound ⊢
  cases found : (table.chain key).find? key.stops with
  | some ele => exact good.change (fun _ => rfl) fun _ => rfl
  | none =>
    rw [found] at sound
    refine ⟨sound, ?_, ?_⟩
    · intro hv ele among
      have among : ele ∈ (table.setChain key (key.element val :: table.chain key)).symlist hv :=
        among
      rw [setChain_symlist] at among
      split at among
      · rcases List.mem_cons.mp among with here | there
        · rw [here, ← SymEle.key_isNumeric, key.element_key, same]
        · exact good.ofKind _ ele there
      · exact good.ofKind hv ele among
    · refine counted_set good.counted (key.hash_lt table.size_pos) rfl rfl ?_
      show table.inhabitants + 1 + (table.chain key).length =
        table.inhabitants + ((table.chain key).length + 1)
      omega

/-- `rmr_sym_get` keeps a table good. -/
theorem Good.rmrSymGet (good : table.Good numeric) : (table.rmrSymGet key).1.Good numeric := by
  -- The use of the element found is counted, which changes neither key nor value.
  unfold Symtab.rmrSymGet
  cases found : (table.chain key).find? key.stops with
  | some ele => exact good.change (fun _ => rfl) fun _ => rfl
  | none => exact good

/-- Clearing a chain keeps a table good. -/
theorem Good.clearChain (good : table.Good numeric) {hv : Nat} (inside : hv < table.size) :
    (table.clearChain hv).Good numeric where
  -- The chain that was cleared is empty; the others have what they had.
  sound := by
    constructor
    · intro other ele among
      have among : ele ∈ Function.update table.symlist hv [] other := among
      rw [Function.update_apply] at among
      split at among
      · cases among
      · exact good.sound.placed other ele among
    · intro other
      show Distinct SymEle.key (Function.update table.symlist hv [] other)
      rw [Function.update_apply]
      split
      · exact List.nodup_nil
      · exact good.sound.distinct other
  ofKind := by
    intro other ele among
    have among : ele ∈ Function.update table.symlist hv [] other := among
    rw [Function.update_apply] at among
    split at among
    · cases among
    · exact good.ofKind other ele among
  counted := by
    refine counted_set good.counted inside rfl rfl ?_
    show table.inhabitants - (table.symlist hv).length + (table.symlist hv).length =
      table.inhabitants + 0
    omega

/-- Clearing chains leaves the others as they are. -/
theorem Good.clearChains (good : table.Good numeric) {hvs : List Nat}
    (inside : ∀ hv ∈ hvs, hv < table.size) :
    (hvs.foldl Symtab.clearChain table).Good numeric ∧ (hvs.foldl Symtab.clearChain table).size =
      table.size ∧
      ∀ hv, (hvs.foldl Symtab.clearChain table).symlist hv =
        if hv ∈ hvs then [] else table.symlist hv := by
  -- Induction on the chains still to be cleared.
  induction hvs generalizing table with
  | nil => exact ⟨good, rfl, fun _ => (if_neg List.not_mem_nil).symm⟩
  | cons first hvs ih =>
    obtain ⟨after, size, symlist⟩ := ih (good.clearChain (inside first List.mem_cons_self))
      fun hv among => inside hv (List.mem_cons_of_mem first among)
    refine ⟨after, size, fun hv => ?_⟩
    rw [List.foldl_cons, symlist]
    show (if hv ∈ hvs then [] else Function.update table.symlist first [] hv) = _
    rw [Function.update_apply]
    by_cases later : hv ∈ hvs
    · rw [if_pos later, if_pos (List.mem_cons_of_mem first later)]
    · by_cases here : hv = first
      · rw [if_neg later, if_pos here, if_pos (here ▸ List.mem_cons_self)]
      · rw [if_neg later, if_neg here, if_neg fun among => (List.mem_cons.mp among).elim here later]

/-- A table that was cleared is empty. -/
theorem Good.rmrSymClear (good : table.Good numeric) :
    table.rmrSymClear.Good numeric ∧ table.rmrSymClear.lookup = fun _ => none := by
  -- Every key belongs to one of the chains, and all of them were cleared.
  obtain ⟨after, size, symlist⟩ := good.clearChains fun hv among => List.mem_range.mp among
  refine ⟨after, funext fun key => ?_⟩
  have empty : table.rmrSymClear.chain key = [] := by
    show table.rmrSymClear.symlist _ = []
    refine (symlist _).trans (if_pos (List.mem_range.mpr ?_))
    rw [show table.rmrSymClear.size = table.size from size]
    exact key.hash_lt table.size_pos
  rw [lookup, empty]
  rfl

/-- The callback deleted the element with a key. -/
def Deleted (userFun : UserFun V) (seen : List (SymEle V)) (key : SymKey) : Prop :=
  ∃ before ele after, seen = before ++ ele :: after ∧ ele.key = key ∧ userFun before ele = true

/-- One element more was seen. -/
theorem deleted_snoc {userFun : UserFun V} {seen : List (SymEle V)} {ele : SymEle V} :
    Deleted userFun (seen ++ [ele]) key ↔
      Deleted userFun seen key ∨ ele.key = key ∧ userFun seen ele = true := by
  -- The last element seen is either the one in question or stands behind it.
  constructor
  · rintro ⟨before, other, after, split, is, deletes⟩
    rcases List.eq_nil_or_concat after with rfl | ⟨middle, last, rfl⟩
    · obtain ⟨rfl, same⟩ := List.append_inj' split rfl
      cases same
      exact .inr ⟨is, deletes⟩
    · rw [List.concat_eq_append, ← List.cons_append, ← List.append_assoc] at split
      exact .inl ⟨before, other, middle, (List.append_inj' split rfl).1, is, deletes⟩
  · rintro (⟨before, other, after, split, is, deletes⟩ | ⟨is, deletes⟩)
    · refine ⟨before, other, after ++ [ele], ?_, is, deletes⟩
      rw [split, List.append_assoc, List.cons_append]
    · exact ⟨seen, ele, [], rfl, is, deletes⟩

/-- What holds while the callback is driven: the elements are there that it did not delete. -/
structure Visiting (start : Symtab V) (numeric : Bool) (userFun : UserFun V) (table : Symtab V)
    (seen : List (SymEle V)) : Prop where
  good : table.Good numeric
  size : table.size = start.size
  gone : ∀ key, Deleted userFun seen key → table.lookup key = none
  kept : ∀ key, ¬ Deleted userFun seen key → table.lookup key = start.lookup key

variable {start : Symtab V} {cls : Nat} {userFun : UserFun V} {seen : List (SymEle V)}

/-- The callback is driven for an element, or it is passed. -/
theorem Visiting.visit (visiting : Visiting start numeric userFun table seen) (cls : Nat)
    {ele : SymEle V}
    (same : decide (ele.cls = 0) = numeric) :
    Visiting start numeric userFun (Symtab.visit cls userFun (table, seen) ele).1
      (Symtab.visit cls userFun (table, seen) ele).2 := by
  -- By whether the element is of the class, and whether the callback deletes it.
  by_cases class_ : cls = ele.cls
  · by_cases deletes : userFun seen ele = true
    · rw [visit_deletes class_ deletes]
      have own : ele.key.isNumeric = numeric := ele.key_isNumeric.trans same
      have lookup := (rmrSymDel_spec visiting.good.sound (visiting.good.ofKind.guarded own)).2
      have after := visiting.good.rmrSymDel own
      refine ⟨after, ?_, fun key deleted => ?_, fun key still => ?_⟩
      · rw [← visiting.size]
        unfold Symtab.rmrSymDel
        split <;> rfl
      · show (table.rmrSymDel ele.key).lookup key = none
        rw [lookup, Function.update_apply]
        split
        · rfl
        · rename_i differs
          rcases deleted_snoc.mp deleted with before | ⟨is, _⟩
          · exact visiting.gone key before
          · exact absurd is.symm differs
      · show (table.rmrSymDel ele.key).lookup key = start.lookup key
        obtain ⟨before, now⟩ := not_or.mp fun either => still (deleted_snoc.mpr either)
        rw [lookup, Function.update_of_ne fun is => now ⟨is.symm, deletes⟩]
        exact visiting.kept key before
    · rw [visit_keeps class_ deletes]
      refine ⟨visiting.good, visiting.size, fun key deleted => ?_, fun key still => ?_⟩
      · rcases deleted_snoc.mp deleted with before | ⟨_, now⟩
        · exact visiting.gone key before
        · exact absurd now deletes
      · exact visiting.kept key fun before => still (deleted_snoc.mpr (.inl before))
  · rw [visit_other class_]
    exact visiting

/-- Driving the callback for an element leaves the other chains alone. -/
theorem visit_symlist {ele : SymEle V} {hv : Nat} (elsewhere : ele.key.hash table.size ≠ hv) :
    (visit cls userFun (table, seen) ele).1.symlist hv = table.symlist hv := by
  -- Deleting touches only the chain of the key.
  by_cases class_ : cls = ele.cls
  · by_cases deletes : userFun seen ele = true
    · rw [visit_deletes class_ deletes]
      show (table.rmrSymDel ele.key).symlist hv = _
      unfold Symtab.rmrSymDel
      split
      · exact (setChain_symlist table ele.key _ hv).trans (if_neg elsewhere.symm)
      · rfl
    · rw [visit_keeps class_ deletes]
  · rw [visit_other class_]

/-- The elements of a chain are gone through. -/
theorem Visiting.chain (visiting : Visiting start numeric userFun table seen) (cls : Nat) {hv : Nat}
    {eles : List (SymEle V)} (kind : ∀ ele ∈ eles, decide (ele.cls = 0) = numeric)
    (placed : ∀ ele ∈ eles, ele.key.hash start.size = hv) :
    Visiting start numeric userFun (eles.foldl (Symtab.visit cls userFun) (table, seen)).1
        (eles.foldl (Symtab.visit cls userFun) (table, seen)).2 ∧
      (eles.foldl (Symtab.visit cls userFun) (table, seen)).2 =
        seen ++ eles.filter (fun ele => cls = ele.cls) ∧
      ∀ other, other ≠ hv →
        (eles.foldl (Symtab.visit cls userFun) (table, seen)).1.symlist other =
          table.symlist other := by
  -- Induction on the elements; each one adds to what was seen if it is of the class.
  induction eles generalizing table seen with
  | nil => exact ⟨visiting, (List.append_nil seen).symm, fun _ _ => rfl⟩
  | cons ele eles ih =>
    have next := visiting.visit cls (kind ele List.mem_cons_self)
    obtain ⟨after, all, others⟩ :=
      ih next (fun other among => kind other (List.mem_cons_of_mem ele among))
      fun other among => placed other (List.mem_cons_of_mem ele among)
    refine ⟨after, ?_, fun other differs => ?_⟩
    · rw [List.foldl_cons]
      refine all.trans ?_
      by_cases class_ : cls = ele.cls
      · rw [List.filter_cons, if_pos (decide_eq_true class_), Symtab.visit, if_pos class_,
          List.append_assoc]
        rfl
      · rw [List.filter_cons, if_neg fun is => class_ (of_decide_eq_true is), visit_other class_]
    · rw [List.foldl_cons]
      refine (others other differs).trans (visit_symlist ?_)
      rw [visiting.size, placed ele List.mem_cons_self]
      exact differs.symm

/-- The elements of a class, chain by chain. -/
def ofClass (table : Symtab V) (cls : Nat) (hvs : List Nat) : List (SymEle V) :=
  hvs.flatMap fun hv => (table.symlist hv).filter fun ele => cls = ele.cls

/-- A value is found under a key if there is an element with both. -/
theorem lookup_iff (sound : table.Sound) (val : Option V) : table.lookup key = some val ↔
    ∃ hv ∈ List.range table.size, ∃ ele ∈ table.symlist hv, ele.key = key ∧ ele.val = val := by
  rw [lookup]
  constructor
  · intro is
    obtain ⟨ele, found, same⟩ := Option.map_eq_some_iff.mp is
    exact ⟨key.hash table.size, List.mem_range.mpr (key.hash_lt table.size_pos), ele,
      List.mem_of_find?_eq_some found, keyOf_of_find? found, same⟩
  · rintro ⟨hv, _, ele, among, is, same⟩
    have chain : table.chain key = table.symlist hv := is ▸ chain_own sound among
    cases found : (table.chain key).find? (keyed SymEle.key key) with
    | none =>
      rw [chain] at found
      exact absurd (is ▸ List.mem_map_of_mem among) (find?_keyed_none.mp found)
    | some other =>
      -- The key stands once in the chain.
      rw [chain] at found
      have equal : other = ele :=
        List.inj_on_of_nodup_map (sound.distinct hv) (List.mem_of_find?_eq_some found) among
          ((keyOf_of_find? found).trans is.symm)
      rw [Option.map_some, equal, same]

/-- No key stands twice in a table. -/
theorem keys_nodup (sound : table.Sound) (among : SymEle V → Bool) {hvs : List Nat}
    (nodup : hvs.Nodup) :
    ((hvs.flatMap fun hv => (table.symlist hv).filter among).map SymEle.key).Nodup := by
  -- Within a chain the keys differ, and those of two chains have different hashes.
  rw [List.map_flatMap, List.nodup_flatMap]
  constructor
  · intro hv _
    exact (sound.distinct hv).sublist (List.filter_sublist.map _)
  · refine nodup.imp_of_mem fun {one other} _ _ differs => ?_
    show List.Disjoint _ _
    intro key among also
    obtain ⟨ele, inOne, rfl⟩ := List.mem_map.mp among
    obtain ⟨second, inOther, equal⟩ := List.mem_map.mp also
    have first := sound.placed one ele (List.mem_of_mem_filter inOne)
    have last := sound.placed other second (List.mem_of_mem_filter inOther)
    rw [equal] at last
    exact differs (first.symm.trans last)

end Symtab

namespace SymHeap
variable {heap : SymHeap V} {table start : Symtab V} {numeric : Bool} {cls : Nat}
    {userFun : UserFun V}
  {seen : List (SymEle V)}

/-- The callback is driven for each element of the class in the chains to come. -/
theorem Shows.visitChains (shows : heap.Shows table)
    (visiting : start.Visiting numeric userFun table seen) (sound : start.Sound)
    (ofKind : start.OfKind numeric) {hvs : List Nat} (nodup : hvs.Nodup)
    (untouched : ∀ hv ∈ hvs, table.symlist hv = start.symlist hv) :
    ∃ heap' table', hvs.foldlM
          (fun visits hv => walk cls userFun visits.1.brk (visits.1.symlist hv) visits)
          (heap, seen) =
        .ok (heap', seen ++ start.ofClass cls hvs) ∧
      heap'.Shows table' ∧ start.Visiting numeric userFun table'
        (seen ++ start.ofClass cls hvs) := by
  -- Induction on the chains; those to come are as they were when the walk began.
  induction hvs generalizing heap table seen with
  | nil =>
    rw [Symtab.ofClass, List.flatMap_nil, List.append_nil]
    exact ⟨heap, table, rfl, shows, visiting⟩
  | cons hv hvs ih =>
    obtain ⟨fresh, nodup⟩ := List.nodup_cons.mp nodup
    obtain ⟨chains, views⟩ := shows
    have symlist : (chains hv).map Prod.snd = start.symlist hv :=
      (views.symlist hv).symm.trans (untouched hv List.mem_cons_self)
    obtain ⟨heap₁, walked, shows₁⟩ :=
      views.walk visiting.good.sound visiting.good.ofKind cls userFun
      (List.nil_append (chains hv)).symm (views.length_le hv) seen
    obtain ⟨visiting₁, all, others⟩ := visiting.chain cls (ofKind hv) (sound.placed hv)
    rw [symlist] at walked shows₁
    rw [all] at walked visiting₁
    obtain ⟨heap₂, table₂, rest, shows₂, visiting₂⟩ :=
      ih shows₁ visiting₁ nodup fun other among => by
      rw [others other fun same => fresh (same ▸ among)]
      exact untouched other (List.mem_cons_of_mem hv among)
    have joined : seen ++ start.ofClass cls (hv :: hvs) =
        seen ++ (start.symlist hv).filter (fun ele => cls = ele.cls) ++ start.ofClass cls hvs := by
      rw [Symtab.ofClass, List.flatMap_cons, List.append_assoc]
      rfl
    rw [joined]
    refine ⟨heap₂, table₂, ?_, shows₂, visiting₂⟩
    obtain ⟨_, _, seg⟩ := views.linked hv
    rw [List.foldlM_cons]
    show (walk cls userFun heap.brk (heap.symlist hv) (heap, seen) >>= _) = _
    rw [seg.starts, walked]
    exact rest

/-- `rmr_sym_foreach_class` drives the callback once for each element of the class, and leaves those
that it did not delete. -/
theorem Shows.rmrSymForeachClass (shows : heap.Shows table) (good : table.Good numeric) (cls : Nat)
    (userFun : UserFun V) :
    ∃ heap' table', heap.rmrSymForeachClass cls userFun =
        .ok (heap', table.ofClass cls (List.range table.size)) ∧ heap'.Shows table' ∧
      table.Visiting numeric userFun table' (table.ofClass cls (List.range table.size)) := by
  -- At first nothing was seen, so that nothing was deleted.
  have size : table.size = heap.size := shows.choose_spec.size
  have nothing : ∀ key, ¬ Symtab.Deleted userFun [] key := by
    rintro key ⟨before, ele, after, split, _⟩
    cases before <;> cases split
  have visiting : table.Visiting numeric userFun table [] :=
    ⟨good, rfl, fun key deleted => absurd deleted (nothing key), fun _ _ => rfl⟩
  rw [SymHeap.rmrSymForeachClass, ← size]
  exact shows.visitChains visiting good.sound good.ofKind List.nodup_range fun _ _ => rfl

end SymHeap

namespace SymMap

/-- What driving a callback for a class is on a map: it is driven once for each key of the class,
and the keys stay that it did not delete. -/
def Foreach (map : SymMap V) (cls : Nat) (userFun : UserFun V) (visits : List (SymEle V))
    (next : SymMap V) : Prop :=
  (visits.map SymEle.key).Nodup ∧
  (∀ key val, (∃ ele ∈ visits, ele.key = key ∧ ele.val = val) ↔ key.cls = cls ∧
    map key = some val) ∧
  (∀ key, Symtab.Deleted userFun visits key → next key = none) ∧
  (∀ key, ¬ Symtab.Deleted userFun visits key → next key = map key)

/-- One operation on a map, with what it returns and the map after it. -/
def Steps (map : SymMap V) (op : TableOp V) (out : TableOut V) (next : SymMap V) : Prop :=
  match op with
  | .op op => out = .out (SymMap.step map op).2 ∧ next = (SymMap.step map op).1
  | .clear => out = .nothing ∧ next = fun _ => none
  | .foreachClass cls userFun => ∃ visits, out = .visits visits ∧
    map.Foreach cls userFun visits next

/-- Operations on a map in sequence. -/
def Runs : SymMap V → List (TableOp V) → List (TableOut V) → SymMap V → Prop
  | map, [], outs, final => outs = [] ∧ final = map
  | map, op :: ops, outs, final =>
    ∃ out rest next, outs = out :: rest ∧ map.Steps op out next ∧ Runs next ops rest final

end SymMap

/-- An operation is about keys of one kind only. -/
def TableOp.OfKind (numeric : Bool) : TableOp V → Prop
  | .op symOp => symOp.key.isNumeric = numeric
  | .clear => True
  | .foreachClass _ _ => True

/-- A table in memory stands for a map: its chains are linked in both directions, each key stands
once in the table, in the chain that its hash selects, and the count is right. -/
structure SymHeap.Represents (heap : SymHeap V) (map : SymMap V) : Prop where
  linked : ∃ chains : Nat → List (Nat × SymEle V),
    (∀ hv, Linked heap.cells (heap.symlist hv) (chains hv)) ∧
    (∀ hv, ∀ entry ∈ chains hv, entry.2.key.hash heap.size = hv ∧ hv < heap.size) ∧
    ((List.range heap.size).flatMap fun hv => (chains hv).map fun entry => entry.2.key).Nodup ∧
    heap.inhabitants = ∑ hv ∈ Finset.range heap.size, (chains hv).length ∧
    ∀ key val, map key = some val ↔
      ∃ hv ∈ List.range heap.size, ∃ entry ∈ chains hv, entry.2.key = key ∧ entry.2.val = val

namespace SymHeap
variable {heap : SymHeap V} {table : Symtab V} {numeric : Bool}

/-- A table in memory that shows a good one stands for its map. -/
theorem Shows.represents (shows : heap.Shows table) (good : table.Good numeric) :
    heap.Represents table.lookup := by
  -- Every condition on the chains in memory is one on the chains of the table.
  obtain ⟨chains, views⟩ := shows
  refine ⟨chains, views.linked, ?_, ?_, ?_, ?_⟩
  · intro hv entry among
    have here : entry.2 ∈ table.symlist hv := by
      rw [views.symlist]
      exact List.mem_map_of_mem among
    have placed := good.sound.placed hv entry.2 here
    rw [views.size] at placed
    exact ⟨placed, placed ▸ entry.2.key.hash_lt (views.size ▸ table.size_pos)⟩
  · have nodup := Symtab.keys_nodup good.sound (fun _ => true) (List.nodup_range (n := heap.size))
    rw [List.map_flatMap] at nodup
    have same : (fun hv => ((table.symlist hv).filter fun _ => true).map SymEle.key) =
        fun hv => (chains hv).map fun entry => entry.2.key := by
      funext hv
      rw [List.filter_true, views.symlist, List.map_map]
      rfl
    rwa [same] at nodup
  · rw [← views.inhabitants, good.counted, Symtab.population, views.size]
    push_cast
    refine Finset.sum_congr rfl fun hv _ => ?_
    rw [views.symlist, List.length_map]
  · intro key val
    rw [Symtab.lookup_iff good.sound, views.size]
    constructor
    · rintro ⟨hv, inside, ele, among, is⟩
      rw [views.symlist] at among
      obtain ⟨entry, inChain, rfl⟩ := List.mem_map.mp among
      exact ⟨hv, inside, entry, inChain, is⟩
    · rintro ⟨hv, inside, entry, inChain, is⟩
      refine ⟨hv, inside, entry.2, ?_, is⟩
      rw [views.symlist]
      exact List.mem_map_of_mem inChain

/-- The class of a key is that of the element. -/
theorem key_cls (ele : SymEle V) : ele.key.cls = ele.cls := by
  -- The class 0 stands for a number, and a number has the class 0.
  unfold SymEle.key
  split
  · rename_i number
    rw [number]
    rfl
  · rfl

/-- The elements of a class are those that are found under the keys of the class. -/
theorem mem_ofClass (sound : table.Sound) (cls : Nat) (key : SymKey) (val : Option V) :
    (∃ ele ∈ table.ofClass cls (List.range table.size), ele.key = key ∧ ele.val = val) ↔
      key.cls = cls ∧ table.lookup key = some val := by
  -- An element is in the chain of its key, which is where the class is looked for.
  rw [Symtab.lookup_iff sound]
  constructor
  · rintro ⟨ele, among, is, same⟩
    obtain ⟨hv, inside, filtered⟩ := List.mem_flatMap.mp among
    obtain ⟨inChain, class_⟩ := List.mem_filter.mp filtered
    refine ⟨?_, hv, inside, ele, inChain, is, same⟩
    rw [← is, key_cls]
    exact (of_decide_eq_true class_).symm
  · rintro ⟨class_, hv, inside, ele, inChain, is, same⟩
    refine ⟨ele, List.mem_flatMap.mpr ⟨hv, inside, List.mem_filter.mpr ⟨inChain, ?_⟩⟩, is, same⟩
    rw [← is, key_cls] at class_
    exact decide_eq_true class_.symm

/-- An operation on one key does to a good table what it does to its map. -/
theorem Shows.stepOp (shows : heap.Shows table) (good : table.Good numeric) {op : SymOp V}
    (same : op.key.isNumeric = numeric) :
    ∃ heap', heap.step (.op op) = .ok (heap', .out (table.step op).2) ∧
    heap'.Shows (table.step op).1 ∧
      (table.step op).1.Good numeric := by
  cases op with
  | map key val =>
    obtain ⟨heap', done, after⟩ := shows.putin (.numeric key) val
    refine ⟨heap', ?_, after, good.putin same val⟩
    show (heap.putin (.numeric key) val >>= _) = _
    rw [done]
    rfl
  | put name cls val =>
    -- Class 0 is forced to 1.
    have forced : ∃ key : SymKey, key.isNumeric = numeric ∧ heap.rmrSymPut name cls val =
      heap.putin key val ∧
        table.rmrSymPut name cls val = table.putin key val := by
      refine ⟨(SymOp.put name cls val).key, same, ?_, ?_⟩
      · by_cases unnamed : cls = 0
        · simp [SymHeap.rmrSymPut, SymOp.key, unnamed]
        · simp [SymHeap.rmrSymPut, SymOp.key, unnamed]
      · by_cases unnamed : cls = 0
        · simp [Symtab.rmrSymPut, SymOp.key, unnamed]
        · simp [Symtab.rmrSymPut, SymOp.key, unnamed]
    obtain ⟨key, kind, inMemory, inChains⟩ := forced
    obtain ⟨heap', done, after⟩ := shows.putin key val
    refine ⟨heap', ?_, ?_, ?_⟩
    · show (heap.rmrSymPut name cls val >>= _) =
        Except.ok (heap', TableOut.out (SymOut.rc (table.rmrSymPut name cls val).2))
      rw [inMemory, done, inChains]
      rfl
    · show heap'.Shows (table.rmrSymPut name cls val).1
      rw [inChains]
      exact after
    · show (table.rmrSymPut name cls val).1.Good numeric
      rw [inChains]
      exact good.putin kind val
  | pull key =>
    obtain ⟨heap', done, after⟩ := shows.rmrSymGet (.numeric key)
    refine ⟨heap', ?_, after, good.rmrSymGet⟩
    show (heap.rmrSymGet (.numeric key) >>= _) = _
    rw [done]
    rfl
  | get key =>
    obtain ⟨heap', done, after⟩ := shows.rmrSymGet key
    refine ⟨heap', ?_, after, good.rmrSymGet⟩
    show (heap.rmrSymGet key >>= _) = _
    rw [done]
    rfl
  | ndel key =>
    obtain ⟨heap', done, after⟩ := shows.rmrSymDel (.numeric key)
    refine ⟨heap', ?_, after, good.rmrSymDel same⟩
    show (heap.rmrSymDel (.numeric key) >>= _) = _
    rw [done]
    rfl
  | del key =>
    obtain ⟨heap', done, after⟩ := shows.rmrSymDel key
    refine ⟨heap', ?_, after, good.rmrSymDel same⟩
    show (heap.rmrSymDel key >>= _) = _
    rw [done]
    rfl

/-- One operation does to a good table what it does to its map. -/
theorem Shows.step (shows : heap.Shows table) (good : table.Good numeric) {op : TableOp V}
    (same : op.OfKind numeric) :
    ∃ heap' table' out, heap.step op = .ok (heap', out) ∧ heap'.Shows table' ∧ table'.Good numeric ∧
      SymMap.Steps table.lookup op out table'.lookup := by
  -- By the operation: `clear`, the iteration, and those that go by a key.
  cases op with
  | clear =>
    obtain ⟨heap', cleared, after⟩ := shows.rmrSymClear
    obtain ⟨still, empty⟩ := good.rmrSymClear
    refine ⟨heap', _, .nothing, ?_, after, still, rfl, empty⟩
    rw [SymHeap.step, cleared]
    rfl
  | foreachClass cls userFun =>
    obtain ⟨heap', table', driven, after, visiting⟩ := shows.rmrSymForeachClass good cls userFun
    refine ⟨heap', table', .visits (table.ofClass cls (List.range table.size)), ?_, after,
      visiting.good,
      _, rfl, Symtab.keys_nodup good.sound _ List.nodup_range, mem_ofClass good.sound cls,
        visiting.gone,
      visiting.kept⟩
    rw [SymHeap.step, driven]
    rfl
  | op op =>
    obtain ⟨heap', done, after, still⟩ := shows.stepOp good same
    obtain ⟨_, lookup, out⟩ := Symtab.step_spec good.sound op (good.ofKind.guarded same)
    exact ⟨heap', _, _, done, after, still, congrArg TableOut.out out, lookup⟩

/-- Operations on a good table do what they do to its map. -/
theorem Shows.run (shows : heap.Shows table) (good : table.Good numeric) {ops : List (TableOp V)}
    (same : ∀ op ∈ ops, op.OfKind numeric) :
    ∃ heap' outs map, heap.run ops = .ok (heap', outs) ∧ SymMap.Runs table.lookup ops outs map ∧
      heap'.Represents map := by
  -- Induction on the operations, with the table that the memory shows.
  induction ops generalizing heap table with
  | nil => exact ⟨heap, [], table.lookup, rfl, ⟨rfl, rfl⟩, shows.represents good⟩
  | cons op ops ih =>
    obtain ⟨heap₁, table₁, out, done, shows₁, good₁, steps⟩ :=
      shows.step good (same op List.mem_cons_self)
    obtain ⟨heap₂, outs, map, ran, runs, represents⟩ :=
      ih shows₁ good₁ fun other among => same other (List.mem_cons_of_mem op among)
    refine ⟨heap₂, out :: outs, map, ?_, ⟨out, outs, _, rfl, steps, runs⟩, represents⟩
    rw [SymHeap.run, done]
    show (heap₁.run ops >>= _) = _
    rw [ran]
    rfl

/-- Any operations on a new table, with keys that are all numbers or all names, do what they do to a
finite map: none uses memory that was freed, or goes on for ever. And an index is within the table
for every name, also if the sum over the name wraps around below zero. -/
theorem run_refines (size : Int) (fits : size ≤ intMax) (ops : List (TableOp V))
    (kind : (∀ op ∈ ops, op.OfKind true) ∨ ∀ op ∈ ops, op.OfKind false) :
    (∃ heap outs map, (rmrSymAlloc V size fits).run ops = .ok (heap, outs) ∧
      SymMap.Runs (fun _ => none) ops outs map ∧ heap.Represents map) ∧
    ∀ name, 0 ≤ (symHashSum name).tmod (chainsFor size) ∧
      (symHashSum name).tmod (chainsFor size) < chainsFor size ∧
      ((symHash name (chainsFor size) : Nat) : Int) = (symHashSum name).tmod (chainsFor size) := by
  -- The two kinds of table are good at the start; the index does not depend on either.
  refine ⟨?_, fun name => ?_⟩
  · have shows : (rmrSymAlloc V size fits).Shows (Rmr.rmrSymAlloc V size fits) :=
      ⟨_, rmrSymAlloc_views size fits⟩
    rcases kind with numbers | names
    · exact shows.run (Symtab.rmrSymAlloc_good true size fits) numbers
    · exact shows.run (Symtab.rmrSymAlloc_good false size fits) names
  · have positive : 0 < chainsFor size := Nat.lt_of_lt_of_le (by decide) (le_chainsFor size)
    exact symHash_index name positive

/-- Names of two classes in one chain; the callback deletes the first one that it is driven for. -/
def namesOps : List (TableOp Nat) := [
  .op (.put [97] 2 (some 1)), .op (.put [108] 2 (some 2)), .op (.put [97] 3 (some 3)),
  .op (.put [97] 2 (some 4)), .foreachClass 2 fun seen _ => seen.isEmpty,
  .op (.get (.string 2 (by decide) [97])), .op (.get (.string 2 (by decide) [108])),
  .op (.get (.string 3 (by decide) [97])), .clear, .op (.get (.string 3 (by decide) [97]))]

/-- What an operation on one key returned. -/
def plain : TableOut V → Option (SymOut V)
  | .out out => some out
  | .nothing => none
  | .visits _ => none

/-- The elements that are left are found until the table is cleared. -/
theorem run_refines_names :
    (∀ op ∈ namesOps, op.OfKind false) ∧
    Yields (fun done => done.2.filterMap plain =
        [.rc 1, .rc 1, .rc 1, .rc 0, .val (some 4), .val none, .val (some 3), .val none])
      ((rmrSymAlloc Nat 5 (by decide)).run namesOps) ∧
    (∃ heap outs map, (rmrSymAlloc Nat 5 (by decide)).run namesOps = .ok (heap, outs) ∧
      SymMap.Runs (fun _ => none) namesOps outs map ∧ heap.Represents map) := by
  -- Each of the operations goes by a name, and the run itself is evaluated.
  have names : ∀ op ∈ namesOps, op.OfKind false := by
    intro op among
    simp only [namesOps, List.mem_cons, List.not_mem_nil, or_false] at among
    rcases among with rfl | rfl | rfl | rfl | rfl | rfl | rfl | rfl | rfl | rfl
    all_goals first | exact rfl | trivial
  exact ⟨names, by decide +kernel, (run_refines 5 (by decide) namesOps (.inr names)).1⟩

end SymHeap

end Rmr
