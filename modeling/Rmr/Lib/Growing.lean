import Rmr.Lib.CInt
import Rmr.Lib.Run

/-! Arrays that are filled from the front, and copied to larger ones when they are full. -/

namespace Rmr

/-- An array in memory. A slot holds nothing until it was written to. -/
abbrev Slots (α : Type*) := List (Option α)

namespace Slots
variable {α : Type*} {slots old : Slots α} {items : List α} {item : α}

/-- An array that was just allocated. -/
def alloc (α : Type*) (count : Nat) : Slots α := List.replicate count none

/-- A slot is written. -/
def put (slots : Slots α) (index : Nat) (item : α) : Except Fault (Slots α) :=
  if index < slots.length then .ok (slots.set index (some item)) else .error .range

/-- A slot is read. -/
def read (slots : Slots α) (index : Nat) : Except Fault α :=
  match slots[index]? with
  | some (some item) => .ok item
  -- What was never written is not a value.
  | some none => .error .nil
  | none => .error .range

/-- The first slots of one array are copied to the first ones of another. -/
def copy (slots old : Slots α) (count : Nat) : Except Fault (Slots α) :=
  if count ≤ slots.length ∧ count ≤ old.length then .ok (old.take count ++ slots.drop count)
  else .error .range

/-- The items are in the first slots, in their order. -/
def Filled (slots : Slots α) (items : List α) : Prop := items.map some <+: slots

/-- There are as many slots as asked for. -/
@[simp] theorem alloc_length (count : Nat) : (alloc α count).length = count := by
  simp [alloc]

/-- No items are in any array. -/
theorem filled_nil (slots : Slots α) : slots.Filled [] := by
  simp [Filled]

/-- The slot behind the items takes one more. -/
theorem Filled.put (filled : slots.Filled items) (room : items.length < slots.length) (item : α) :
    ∃ next, slots.put items.length item = .ok next ∧ next.length = slots.length ∧
      next.Filled (items ++ [item]) := by
  obtain ⟨rest, rfl⟩ := filled
  refine ⟨_, if_pos room, List.length_set .., ?_⟩
  -- There is a slot behind the items, as there is room.
  cases rest with
  | nil => simp at room
  | cons slot rest =>
    refine ⟨rest, ?_⟩
    rw [List.set_append_right _ _ (by simp)]
    simp

/-- An item can be read where it was put. -/
theorem Filled.read (filled : slots.Filled items) {index : Nat} (is : items[index]? = some item) :
    slots.read index = .ok item := by
  -- The items fill the front of the slots, so that the index is in that part.
  obtain ⟨rest, rfl⟩ := filled
  have inside : index < (items.map some).length := by
    simpa using (List.getElem?_eq_some_iff.mp is).1
  have slot : (items.map some ++ rest)[index]? = some (some item) := by
    rw [List.getElem?_append_left inside, List.getElem?_map, is]
    rfl
  simp only [Slots.read, slot]

/-- Items stay in order when the array is copied to a larger one. -/
theorem Filled.copy (filled : old.Filled items) (larger : old.length ≤ slots.length) :
    ∃ next, slots.copy old old.length = .ok next ∧ next.length = slots.length ∧
      next.Filled items := by
  refine ⟨_, if_pos ⟨larger, Nat.le_refl _⟩, ?_, ?_⟩
  · simp only [List.take_length, List.length_append, List.length_drop]
    omega
  · -- The old array is in front of what is left of the new one.
    rw [List.take_length]
    exact filled.trans (List.prefix_append _ _)

end Slots

/-- The sizes of an array that grows by half whenever it is full. -/
def sizes (first : Nat) : Nat → Nat
  | 0 => first
  | more + 1 => sizes first more + sizes first more / 2

/-- An array that grows does not get smaller. -/
theorem sizes_mono (first : Nat) {few many : Nat} (more : few ≤ many) :
    sizes first few ≤ sizes first many := by
  -- By induction on the bound: each further size adds to the one before.
  induction more with
  | refl => exact Nat.le_refl _
  | step _ ih => exact ih.trans (Nat.le_add_right _ _)

section
universe u
variable {ε : Type*} {α σ : Type u}

/-- Faults of a loop can be renamed after it, or in each of its steps. -/
theorem foldlM_mapError {ε' β : Type*} (rename : ε → ε') (visit : σ → β → Except ε σ)
    (items : List β) (start : σ) :
    items.foldlM (fun state item => (visit state item).mapError rename) start =
      (items.foldlM visit start).mapError rename := by
  -- By induction on the items: a fault is renamed where it comes up, or after it has ended the
  -- loop.
  induction items generalizing start with
  | nil => rfl
  | cons item items ih =>
    rw [List.foldlM_cons, List.foldlM_cons]
    cases visited : visit start item with
    | error fault => rfl
    | ok next => exact ih next

/-- A loop over the places of items that reads each of them is a loop over the items. -/
theorem foldlM_range_read {read : Nat → Except ε α} (visit : σ → α → Except ε σ) {items : List α}
    (reads : ∀ i item, items[i]? = some item → read i = .ok item) (start : σ) :
    (List.range items.length).foldlM (fun state i => do visit state (← read i)) start =
      items.foldlM visit start := by
  -- The induction is on the items from the back: the last place is that of the last item.
  induction items using List.reverseRecOn with
  | nil => rfl
  | append_singleton items item ih =>
    have before : ∀ i other, items[i]? = some other → read i = .ok other := by
      intro i other is
      have inside := (List.getElem?_eq_some_iff.mp is).1
      exact reads i other (by rw [List.getElem?_append_left inside, is])
    have last : read items.length = .ok item := reads _ _ (by simp)
    rw [List.length_append, List.length_singleton, List.range_succ, List.foldlM_append, ih before,
      List.foldlM_append]
    congr 1
    funext state
    simp [last, List.foldlM_cons, Bind.bind, Except.bind]

end

end Rmr
