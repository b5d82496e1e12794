import Mathlib.Data.List.Nodup

/-! Chains that are searched for their first match and changed there, and the map they stand for. -/

namespace Rmr

section
variable {α : Type*}

/-- The chain with its first match changed. -/
def updateFirst (matched : α → Bool) (change : α → α) : List α → List α
  | [] => []
  | head :: tail =>
    if matched head then change head :: tail else head :: updateFirst matched change tail

/-- Behind elements that do not match, the first match is changed. -/
theorem updateFirst_split {matched : α → Bool} {change : α → α} {first rest : List α} {elem : α}
    (passed : ∀ other ∈ first, matched other = false) (hit : matched elem = true) :
    updateFirst matched change (first ++ elem :: rest) = first ++ change elem :: rest := by
  -- By induction on the elements that are passed, each of which fails the test.
  induction first with
  | nil => rw [List.nil_append, List.nil_append, updateFirst, if_pos hit]
  | cons head first ih =>
    rw [List.cons_append, updateFirst, if_neg (by rw [passed head List.mem_cons_self]; decide),
      ih fun other among => passed other (List.mem_cons_of_mem head among), List.cons_append]

/-- Behind elements that do not match, the first match is deleted. -/
theorem eraseP_split {matched : α → Bool} {first rest : List α} {elem : α}
    (passed : ∀ other ∈ first, matched other = false) (hit : matched elem = true) :
    (first ++ elem :: rest).eraseP matched = first ++ rest := by
  have misses : ∀ other ∈ first, ¬ matched other = true := by
    intro other among is
    rw [passed other among] at is
    cases is
  rw [List.eraseP_append_right _ misses, List.eraseP_cons_of_pos hit]

/-- What two searches have in common that stop at the same element of a chain. -/
structure SameFirst (one other : α → Bool) (chain : List α) : Prop where
  /-- The second search is at least as strict as the first. -/
  strict : ∀ elem ∈ chain, other elem = true → one elem = true
  /-- What the first search stops at also stops the second. -/
  first : ∀ elem, chain.find? one = some elem → other elem = true

/-- Searches that agree on the head and on the rest. -/
theorem SameFirst.tail {one other : α → Bool} {head : α} {tail : List α}
    (same : SameFirst one other (head :: tail)) (passed : one head = false) :
    SameFirst one other tail := by
  -- A head that does not match leaves the search to the rest.
  refine ⟨fun elem among => same.strict elem (List.mem_cons_of_mem _ among), ?_⟩
  intro elem found
  apply same.first elem
  rw [List.find?_cons_of_neg (by simp [passed]), found]

/-- Such searches match the head together. -/
theorem SameFirst.head {one other : α → Bool} {head : α} {tail : List α}
    (same : SameFirst one other (head :: tail)) : one head = other head := by
  -- If only one of the two matched the head, it would be the first match for that one alone.
  cases matched : one head with
  | true => exact (same.first head (List.find?_cons_of_pos matched)).symm
  | false =>
    cases strict : other head with
    | false => rfl
    | true =>
      have := same.strict head (by simp) strict
      rw [matched] at this
      exact this

/-- Such searches find the same element. -/
theorem SameFirst.find? {one other : α → Bool} {chain : List α}
    (same : SameFirst one other chain) : chain.find? one = chain.find? other := by
  -- By induction on the chain: the head is matched by both or by none of the searches.
  induction chain with
  | nil => rfl
  | cons head tail ih =>
    have both := same.head
    cases matched : one head with
    | true => rw [List.find?_cons_of_pos matched, List.find?_cons_of_pos (both ▸ matched)]
    | false =>
      rw [List.find?_cons_of_neg (by simp [matched]),
        List.find?_cons_of_neg (by simp [← both, matched]), ih (same.tail matched)]

/-- Such searches delete the same element. -/
theorem SameFirst.eraseP {one other : α → Bool} {chain : List α}
    (same : SameFirst one other chain) : chain.eraseP one = chain.eraseP other := by
  -- By induction on the chain: the head is deleted by both or by none of the searches.
  induction chain with
  | nil => rfl
  | cons head tail ih =>
    have both := same.head
    cases matched : one head with
    | true => rw [List.eraseP_cons_of_pos matched, List.eraseP_cons_of_pos (both ▸ matched)]
    | false =>
      rw [List.eraseP_cons_of_neg (by simp [matched]),
        List.eraseP_cons_of_neg (by simp [← both, matched]), ih (same.tail matched)]

/-- Such searches change the same element. -/
theorem SameFirst.updateFirst {one other : α → Bool} {chain : List α} (change : α → α)
    (same : SameFirst one other chain) :
    updateFirst one change chain = updateFirst other change chain := by
  -- By induction on the chain: the head is changed by both or by none of the searches.
  induction chain with
  | nil => rfl
  | cons head tail ih =>
    have both := same.head
    rw [Rmr.updateFirst, Rmr.updateFirst, ← both]
    cases matched : one head with
    | true => rfl
    | false => simp [ih (same.tail matched)]

end

section
variable {α κ : Type*} [DecidableEq κ] (keyOf : α → κ)

/-- The search for a key. -/
def keyed (key : κ) (elem : α) : Bool := keyOf elem = key

/-- A chain in which no key stands twice. -/
def Distinct (chain : List α) : Prop := (chain.map keyOf).Nodup

variable {keyOf}

/-- A search for a key finds only an element with that key. -/
theorem keyOf_of_find? {chain : List α} {key : κ} {elem : α}
    (found : chain.find? (keyed keyOf key) = some elem) : keyOf elem = key := by
  simpa [keyed] using List.find?_some found

/-- A key that is not among those of a chain is not found. -/
theorem find?_keyed_none {chain : List α} {key : κ} :
    chain.find? (keyed keyOf key) = none ↔ key ∉ chain.map keyOf := by
  simp [keyed]

/-- An element put in front is found under its own key, and hides nothing else. -/
theorem find?_keyed_cons (head : α) (tail : List α) (key : κ) :
    (head :: tail).find? (keyed keyOf key) =
      if keyOf head = key then some head else tail.find? (keyed keyOf key) := by
  -- The search stops at the head or goes on to the tail.
  by_cases same : keyOf head = key
  · rw [List.find?_cons_of_pos (by simp [keyed, same]), if_pos same]
  · rw [List.find?_cons_of_neg (by simp [keyed, same]), if_neg same]

omit [DecidableEq κ] in
/-- A change that keeps keys does not change which keys a chain has. -/
theorem map_keyOf_updateFirst (matched : α → Bool) {change : α → α}
    (keeps : ∀ elem, keyOf (change elem) = keyOf elem) (chain : List α) :
    (updateFirst matched change chain).map keyOf = chain.map keyOf := by
  -- By induction on the chain; the one element that changes keeps its key.
  induction chain with
  | nil => rfl
  | cons head tail ih =>
    rw [updateFirst]
    split
    · simp [keeps]
    · simp [ih]

/-- A change under a key is found under that key only. -/
theorem find?_keyed_updateFirst {change : α → α}
    (keeps : ∀ elem, keyOf (change elem) = keyOf elem) (chain : List α) (key other : κ) :
    (updateFirst (keyed keyOf key) change chain).find? (keyed keyOf other) =
      if other = key then (chain.find? (keyed keyOf key)).map change
      else chain.find? (keyed keyOf other) := by
  induction chain with
  | nil => simp [updateFirst]
  | cons head tail ih =>
    rw [updateFirst]
    by_cases own : keyOf head = key
    · -- The head is the element that is changed.
      rw [if_pos (by simp [keyed, own]), find?_keyed_cons, find?_keyed_cons, find?_keyed_cons,
        keeps, own, if_pos rfl]
      by_cases same : other = key
      · rw [if_pos same.symm, if_pos same, Option.map_some]
      · have different : ¬ key = other := fun equal => same equal.symm
        rw [if_neg different, if_neg same, if_neg different]
    · -- The change is in the rest of the chain.
      rw [if_neg (by simp [keyed, own]), find?_keyed_cons, find?_keyed_cons, find?_keyed_cons, ih,
        if_neg own]
      by_cases same : other = key
      · rw [if_pos same, if_pos same, if_neg (by rw [same]; exact own)]
      · rw [if_neg same, if_neg same]

/-- With distinct keys, deleting a key deletes all that is found under it, and nothing else. -/
theorem find?_keyed_eraseP {chain : List α} (distinct : Distinct keyOf chain) (key other : κ) :
    (chain.eraseP (keyed keyOf key)).find? (keyed keyOf other) =
      if other = key then none else chain.find? (keyed keyOf other) := by
  induction chain with
  | nil => simp
  | cons head tail ih =>
    obtain ⟨fresh, rest⟩ := List.nodup_cons.mp distinct
    by_cases own : keyOf head = key
    · -- The head goes, and its key does not come again.
      rw [List.eraseP_cons_of_pos (by simp [keyed, own]), find?_keyed_cons, own]
      by_cases same : other = key
      · rw [if_pos same, find?_keyed_none, same, ← own]
        exact fresh
      · rw [if_neg same, if_neg (fun equal => same equal.symm)]
    · rw [List.eraseP_cons_of_neg (by simp [keyed, own]), find?_keyed_cons, find?_keyed_cons,
        ih rest]
      by_cases same : other = key
      · rw [if_pos same, if_pos same, if_neg (by rw [same]; exact own)]
      · rw [if_neg same, if_neg same]

end

end Rmr
