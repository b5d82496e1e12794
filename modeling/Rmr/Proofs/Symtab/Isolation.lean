import Rmr.Symtab.Table

/-! When a symbol table keeps numeric keys and names apart, and so is a map from its keys. -/

namespace Rmr

variable {V : Type}

/-- What a symbol table is for: a map from the keys. A value may be nil. -/
abbrev SymMap (V : Type) := SymKey → Option (Option V)

/-- The key that an operation is about. -/
def SymOp.key : SymOp V → SymKey
  | .map key _ => .numeric key
  | .put name cls _ =>
    if named : cls = 0 then .string 1 Nat.one_ne_zero name else .string cls named name
  | .pull key => .numeric key
  | .get key => key
  | .ndel key => .numeric key
  | .del key => key

/-- One operation on a map. -/
def SymMap.step (map : SymMap V) (op : SymOp V) : SymMap V × SymOut V :=
  match op with
  | .map _ val | .put _ _ val =>
    (Function.update map op.key (some val), .rc (if (map op.key).isSome then 0 else 1))
  | .pull _ | .get _ => (map, .val (map op.key).join)
  | .ndel _ | .del _ => (Function.update map op.key none, .nothing)

/-- Operations on a map in sequence, with what each returned. -/
def SymMap.run (map : SymMap V) : List (SymOp V) → SymMap V × List (SymOut V)
  | [] => (map, [])
  | op :: ops =>
    let (next, out) := SymMap.step map op
    let (final, outs) := SymMap.run next ops
    (final, out :: outs)

namespace Symtab

/-- The value under a key, found among the elements of its chain by the whole key. -/
def lookup (table : Symtab V) (key : SymKey) : Option (Option V) :=
  ((table.chain key).find? (keyed SymEle.key key)).map SymEle.val

/-- What holds of every table that the operations make. -/
structure Sound (table : Symtab V) : Prop where
  /-- Every element is in the chain of its key. -/
  placed : ∀ hv, ∀ eptr ∈ table.symlist hv, eptr.key.hash table.size = hv
  /-- No key stands twice in a chain. -/
  distinct : ∀ hv, Distinct SymEle.key (table.symlist hv)

/-- The search for the number 0 does not stop at a name, whose numeric key is clear as well. -/
def Guarded (table : Symtab V) (key : SymKey) : Prop :=
  ∀ eptr ∈ (table.chain key).find? key.stops, key = .numeric 0 → eptr.cls = 0

instance (table : Symtab V) (key : SymKey) : Decidable (table.Guarded key) :=
  inferInstanceAs (Decidable (∀ eptr ∈ (_ : Option _), _))

/-- Operations that are all guarded, each in the table that the ones before it left. -/
def AllGuarded (table : Symtab V) : List (SymOp V) → Prop
  | [] => True
  | op :: ops => table.Guarded op.key ∧ (table.step op).1.AllGuarded ops

end Symtab

/-- An element stops the search for its own key. -/
theorem SymEle.stops_key (eptr : SymEle V) : eptr.key.stops eptr = true := by
  -- A name is there whenever the class says so.
  unfold SymEle.key
  by_cases named : eptr.cls = 0
  · simp [named, SymKey.stops]
  · obtain ⟨present, _⟩ := eptr.named named
    obtain ⟨name, is⟩ := Option.ne_none_iff_exists'.mp present
    simp [named, SymKey.stops, same, is]

/-- Apart from the number 0, the search for a key stops only at an element with that key. -/
theorem SymEle.key_of_stops {eptr : SymEle V} {key : SymKey} (stops : key.stops eptr = true)
    (guarded : key = .numeric 0 → eptr.cls = 0) : eptr.key = key := by
  unfold SymEle.key
  cases key with
  | numeric nkey =>
    have number : eptr.nkey = nkey := by simpa [SymKey.stops] using stops
    by_cases named : eptr.cls = 0
    · simp [named, number]
    · -- A name has the numeric key 0, which is guarded.
      obtain ⟨_, clear⟩ := eptr.named named
      exact absurd (guarded (by rw [← number, clear])) named
  | string cls named name =>
    obtain ⟨sameClass, sameName⟩ : cls = eptr.cls ∧ eptr.name = some name := by
      simpa [SymKey.stops, same] using stops
    subst sameClass
    simp [named, sameName]

/-- A fresh element has the key that it is made for. -/
theorem SymKey.element_key (key : SymKey) (val : Option V) : (key.element val).key = key := by
  -- A key is kept in the class and the number or name of its element.
  cases key with
  | numeric nkey => simp [SymKey.element, SymEle.key]
  | string cls named name => simp [SymKey.element, SymEle.key, named]

namespace Symtab
variable {table : Symtab V} {key : SymKey}

/-- A guarded search stops where the search by the whole key does. -/
theorem Guarded.sameFirst (guarded : table.Guarded key) :
    SameFirst key.stops (keyed SymEle.key key) (table.chain key) := by
  -- Where `stops` finds an element, the guard says that it has the very key.
  refine ⟨fun eptr _ own => ?_, fun eptr found => ?_⟩
  · have is : eptr.key = key := by simpa [keyed] using own
    rw [← is]
    exact eptr.stops_key
  · have stops := List.find?_some found
    have is := SymEle.key_of_stops stops (guarded eptr found)
    simp [keyed, is]

/-- Only the chain of the key is another one. -/
theorem setChain_symlist (table : Symtab V) (key : SymKey) (chain : List (SymEle V)) (hv : Nat) :
    (table.setChain key chain).symlist hv =
      if hv = key.hash table.size then chain else table.symlist hv :=
  Function.update_apply _ _ _ _

/-- A table with another chain is sound if that chain is. -/
theorem Sound.setChain (sound : table.Sound) {chain : List (SymEle V)}
    (placed : ∀ eptr ∈ chain, eptr.key.hash table.size = key.hash table.size)
    (distinct : Distinct SymEle.key chain) : (table.setChain key chain).Sound := by
  -- The chain put in place is one case, and every other chain the second.
  constructor
  · intro hv eptr among
    rw [setChain_symlist] at among
    split at among
    · rename_i own
      rw [own]
      exact placed eptr among
    · exact sound.placed hv eptr among
  · intro hv
    rw [setChain_symlist]
    split
    · exact distinct
    · exact sound.distinct hv

/-- A chain that differs under its own key only gives a map that differs there only. -/
theorem lookup_setChain {chain : List (SymEle V)} {found : Option (SymEle V)}
    (differs : ∀ other, chain.find? (keyed SymEle.key other) =
      if other = key then found else (table.chain key).find? (keyed SymEle.key other)) :
    (table.setChain key chain).lookup =
      Function.update table.lookup key (found.map SymEle.val) := by
  funext other
  by_cases own : other.hash table.size = key.hash table.size
  · -- Both keys share the chain that was replaced.
    have mine : (table.setChain key chain).chain other = chain := by
      show (table.setChain key chain).symlist (other.hash table.size) = chain
      rw [setChain_symlist, if_pos own]
    have before : table.chain other = table.chain key := by
      rw [Symtab.chain, own, Symtab.chain]
    rw [lookup, mine, differs]
    by_cases equal : other = key
    · rw [if_pos equal, equal, Function.update_self]
    · rw [if_neg equal, Function.update_of_ne equal, lookup, before]
  · -- The other key is looked up in another chain.
    have different : other ≠ key := fun equal => own (by rw [equal])
    have mine : (table.setChain key chain).chain other = table.chain other := by
      show (table.setChain key chain).symlist (other.hash table.size) = _
      rw [setChain_symlist, if_neg own]
      rfl
    rw [lookup, mine, Function.update_of_ne different, lookup]

/-- A change of the element found, which keeps its key, keeps the table sound. -/
theorem Sound.updateFirst (sound : table.Sound) {change : SymEle V → SymEle V}
    (keeps : ∀ eptr, (change eptr).key = eptr.key) :
    (table.setChain key (Rmr.updateFirst key.stops change (table.chain key))).Sound := by
  have keys := map_keyOf_updateFirst key.stops keeps (table.chain key)
  apply sound.setChain
  · intro eptr among
    -- The key of the element is one that the chain had before.
    have member : eptr.key ∈ (table.chain key).map SymEle.key := by
      rw [← keys]
      exact List.mem_map_of_mem among
    obtain ⟨old, oldAmong, is⟩ := List.mem_map.mp member
    rw [← is]
    exact sound.placed _ old oldAmong
  · rw [Distinct, keys]
    exact sound.distinct _

/-- A guarded change of the element found changes the map under its key only. -/
theorem Guarded.lookup_updateFirst (guarded : table.Guarded key) (change : SymEle V → SymEle V)
    (keeps : ∀ eptr, (change eptr).key = eptr.key) :
    (table.setChain key (Rmr.updateFirst key.stops change (table.chain key))).lookup =
      Function.update table.lookup key
        (((table.chain key).find? key.stops).map fun eptr => (change eptr).val) := by
  -- The first element that the search stops at is the one with the key.
  rw [guarded.sameFirst.updateFirst, guarded.sameFirst.find?,
    lookup_setChain (find?_keyed_updateFirst keeps (table.chain key) key)]
  simp [Option.map_map, Function.comp_def]

/-- A guarded search finds what the map has. -/
theorem Guarded.lookup_eq (guarded : table.Guarded key) :
    table.lookup key = ((table.chain key).find? key.stops).map SymEle.val := by
  rw [lookup, guarded.sameFirst.find?]

/-- `putin`, when guarded, puts the value under the key and tells whether that is new. -/
theorem putin_spec (sound : table.Sound) (guarded : table.Guarded key) (val : Option V) :
    (table.putin key val).1.Sound ∧
      (table.putin key val).1.lookup = Function.update table.lookup key (some val) ∧
      (table.putin key val).2 = if (table.lookup key).isSome then 0 else 1 := by
  rw [guarded.lookup_eq]
  unfold putin
  cases found : (table.chain key).find? key.stops with
  | some eptr =>
    -- The element that is there is given the value.
    refine ⟨sound.updateFirst fun _ => rfl, ?_, rfl⟩
    refine (guarded.lookup_updateFirst
      (fun eptr => { eptr with mcount := eptr.mcount + 1, val := val }) fun _ => rfl).trans ?_
    rw [found]
    rfl
  | none =>
    -- A new element goes to the head of the chain.
    have absent : key ∉ (table.chain key).map SymEle.key := by
      rw [← find?_keyed_none, ← guarded.sameFirst.find?, found]
    have fresh := key.element_key val
    refine ⟨?_, ?_, rfl⟩
    · have after : (table.setChain key (key.element val :: table.chain key)).Sound := by
        apply sound.setChain
        · intro eptr among
          rcases List.mem_cons.mp among with rfl | earlier
          · rw [fresh]
          · exact sound.placed _ eptr earlier
        · rw [Distinct, List.map_cons, List.nodup_cons, fresh]
          exact ⟨absent, sound.distinct _⟩
      exact ⟨after.placed, after.distinct⟩
    · show (table.setChain key (key.element val :: table.chain key)).lookup = _
      have differs : ∀ other, (key.element val :: table.chain key).find? (keyed SymEle.key other) =
          if other = key then some (key.element val)
          else (table.chain key).find? (keyed SymEle.key other) := by
        intro other
        rw [find?_keyed_cons, fresh]
        by_cases equal : other = key
        · rw [if_pos equal, if_pos equal.symm]
        · rw [if_neg equal, if_neg fun same => equal same.symm]
      rw [lookup_setChain differs]
      cases key <;> rfl

/-- `rmr_sym_del`, when guarded, deletes what is under the key. -/
theorem rmrSymDel_spec (sound : table.Sound) (guarded : table.Guarded key) :
    (table.rmrSymDel key).Sound ∧
      (table.rmrSymDel key).lookup = Function.update table.lookup key none := by
  unfold rmrSymDel
  cases found : (table.chain key).find? key.stops with
  | some eptr =>
    have after : (table.setChain key ((table.chain key).eraseP key.stops)).Sound := by
      apply sound.setChain
      · intro eptr among
        exact sound.placed _ eptr (List.mem_of_mem_eraseP among)
      · exact (sound.distinct _).sublist ((List.eraseP_sublist).map _)
    refine ⟨⟨after.placed, after.distinct⟩, ?_⟩
    show (table.setChain key ((table.chain key).eraseP key.stops)).lookup = _
    have distinct : Distinct SymEle.key (table.chain key) := sound.distinct _
    rw [guarded.sameFirst.eraseP, lookup_setChain (find?_keyed_eraseP distinct key)]
    rfl
  | none =>
    -- Nothing is there to be deleted.
    refine ⟨sound, ?_⟩
    have nothing := guarded.lookup_eq
    rw [found, Option.map_none] at nothing
    rw [← nothing, Function.update_eq_self]

/-- `rmr_sym_get`, when guarded, returns what is under the key and changes no value. -/
theorem rmrSymGet_spec (sound : table.Sound) (guarded : table.Guarded key) :
    (table.rmrSymGet key).1.Sound ∧ (table.rmrSymGet key).1.lookup = table.lookup ∧
      (table.rmrSymGet key).2 = (table.lookup key).join := by
  have here := guarded.lookup_eq
  unfold rmrSymGet
  cases found : (table.chain key).find? key.stops with
  | some eptr =>
    rw [found, Option.map_some] at here
    refine ⟨sound.updateFirst fun _ => rfl, ?_, by rw [here]; rfl⟩
    -- Only the reference count differs.
    refine (guarded.lookup_updateFirst
      (fun eptr => { eptr with rcount := eptr.rcount + 1 }) fun _ => rfl).trans ?_
    rw [found, Option.map_some]
    show Function.update table.lookup key (some eptr.val) = _
    rw [← here, Function.update_eq_self]
  | none =>
    rw [found, Option.map_none] at here
    exact ⟨sound, rfl, by rw [here]; rfl⟩

/-- One guarded operation is that of the map. -/
theorem step_spec (sound : table.Sound) (op : SymOp V) (guarded : table.Guarded op.key) :
    (table.step op).1.Sound ∧ (table.step op).1.lookup = (SymMap.step table.lookup op).1 ∧
      (table.step op).2 = (SymMap.step table.lookup op).2 := by
  -- By the operation; `put` with the class 0 is `map`, so that one law serves both.
  cases op with
  | map key val =>
    obtain ⟨after, lookup, rc⟩ := putin_spec sound guarded val
    exact ⟨after, lookup, congrArg SymOut.rc rc⟩
  | put name cls val =>
    obtain ⟨after, lookup, rc⟩ := putin_spec sound guarded val
    have is : table.rmrSymPut name cls val = table.putin (SymOp.put name cls val).key val := by
      by_cases unnamed : cls = 0
      · simp [rmrSymPut, SymOp.key, unnamed]
      · simp [rmrSymPut, SymOp.key, unnamed]
    refine ⟨?_, ?_, ?_⟩
    · show (table.rmrSymPut name cls val).1.Sound
      rw [is]
      exact after
    · show (table.rmrSymPut name cls val).1.lookup = _
      rw [is]
      exact lookup
    · show SymOut.rc (table.rmrSymPut name cls val).2 = _
      rw [is]
      exact congrArg SymOut.rc rc
  | pull key =>
    obtain ⟨after, lookup, val⟩ := rmrSymGet_spec sound guarded
    exact ⟨after, lookup, congrArg SymOut.val val⟩
  | get key =>
    obtain ⟨after, lookup, val⟩ := rmrSymGet_spec sound guarded
    exact ⟨after, lookup, congrArg SymOut.val val⟩
  | ndel key =>
    obtain ⟨after, lookup⟩ := rmrSymDel_spec sound guarded
    exact ⟨after, lookup, rfl⟩
  | del key =>
    obtain ⟨after, lookup⟩ := rmrSymDel_spec sound guarded
    exact ⟨after, lookup, rfl⟩

/-- Guarded operations on a sound table are those of its map. -/
theorem Sound.run_spec (sound : table.Sound) (ops : List (SymOp V))
    (guarded : table.AllGuarded ops) :
    (table.run ops).2 = (SymMap.run table.lookup ops).2 ∧
      (table.run ops).1.lookup = (SymMap.run table.lookup ops).1 := by
  -- Induction on the operations: each leaves a sound table that shows the map of the next one.
  induction ops generalizing table with
  | nil => exact ⟨rfl, rfl⟩
  | cons op ops ih =>
    obtain ⟨first, rest⟩ := guarded
    obtain ⟨after, lookup, out⟩ := step_spec sound op first
    obtain ⟨outs, final⟩ := ih after rest
    rw [lookup] at outs final
    refine ⟨?_, final⟩
    show (table.step op).2 :: ((table.step op).1.run ops).2 = _
    rw [out, outs]
    rfl

/-- A new table is sound. -/
theorem rmrSymAlloc_sound (size : Int) (fits : size ≤ intMax) :
    (rmrSymAlloc V size fits).Sound := by
  constructor
  · intro hv eptr among
    simp [rmrSymAlloc] at among
  · intro hv
    exact List.nodup_nil

/-- A new table is a map from class and key for any operations, as long as no search for the number
0 stops at a name. -/
theorem run_is_map (size : Int) (fits : size ≤ intMax) (ops : List (SymOp V))
    (guarded : (rmrSymAlloc V size fits).AllGuarded ops) :
    ((rmrSymAlloc V size fits).run ops).2 = (SymMap.run (fun _ => none) ops).2 ∧
      ((rmrSymAlloc V size fits).run ops).1.lookup = (SymMap.run (fun _ => none) ops).1 := by
  -- The map that is empty is that of the new table; from there the tables go together.
  have empty : (rmrSymAlloc V size fits).lookup = fun _ => none := rfl
  have spec := (rmrSymAlloc_sound size fits).run_spec ops guarded
  rw [empty] at spec
  exact spec

/-- A number and a name are kept apart in a table of the size that route tables have. -/
theorem run_is_map_number_and_name :
    (rmrSymAlloc Nat 10009 (by decide)).AllGuarded
      [.map 0 (some 1), .put [97] 2 (some 2), .pull 0, .get (.string 2 (by decide) [97])] ∧
    (((rmrSymAlloc Nat 10009 (by decide)).run
        [.map 0 (some 1), .put [97] 2 (some 2), .pull 0, .get (.string 2 (by decide) [97])]).2 =
      (SymMap.run (fun _ => none)
        [.map 0 (some 1), .put [97] 2 (some 2), .pull 0, .get (.string 2 (by decide) [97])]).2 ∧
    ((rmrSymAlloc Nat 10009 (by decide)).run
        [.map 0 (some 1), .put [97] 2 (some 2), .pull 0,
          .get (.string 2 (by decide) [97])]).1.lookup =
      (SymMap.run (fun _ => none)
        [.map 0 (some 1), .put [97] 2 (some 2), .pull 0,
          .get (.string 2 (by decide) [97])]).1) := by
  have guarded : (rmrSymAlloc Nat 10009 (by decide)).AllGuarded
      [.map 0 (some 1), .put [97] 2 (some 2), .pull 0, .get (.string 2 (by decide) [97])] :=
    ⟨by decide +kernel, by decide +kernel, by decide +kernel, by decide +kernel, trivial⟩
  exact ⟨guarded, run_is_map 10009 (by decide) _ guarded⟩

/-- The name "gnb4264" is in the first chain of a route table. Once it is there, the number 0 is
found with the value of the name, and deleting the number deletes the name. -/
theorem zero_finds_name :
    ((rmrSymAlloc Nat 10009 (by decide)).run
      [.put [103, 110, 98, 52, 50, 54, 52] 2 (some 7), .pull 0, .ndel 0,
        .get (.string 2 (by decide) [103, 110, 98, 52, 50, 54, 52])]).2 =
      [.rc 1, .val (some 7), .nothing, .val none] ∧
    (SymMap.run (V := Nat) (fun _ => none)
      [.put [103, 110, 98, 52, 50, 54, 52] 2 (some 7), .pull 0, .ndel 0,
        .get (.string 2 (by decide) [103, 110, 98, 52, 50, 54, 52])]).2 =
      [.rc 1, .val none, .nothing, .val (some 7)] := by
  -- Both runs are evaluated.
  constructor
  · decide +kernel
  · decide +kernel

end Symtab

end Rmr
