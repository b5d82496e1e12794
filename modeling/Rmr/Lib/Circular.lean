import Mathlib.Tactic

/-! Queues that are laid out around a circle of slots. -/

namespace Rmr

/-- A place counted from the first slot, where the slots end before it at most once. -/
def turn (size place : Nat) : Nat := if place < size then place else place - size

section
variable {α : Type*} {data : Nat → Option α} {size start slot : Nat}
    {queue rest : List α} {item : α}

/-- A place in range is its own turn. -/
theorem turn_of_lt {place : Nat} (inside : place < size) : turn size place = place := if_pos inside

/-- Some slots on, and then some more. -/
theorem turn_turn {one other : Nat} (begins : start < size) (small : one + other ≤ size) :
    turn size (turn size (start + one) + other) = turn size (start + (one + other)) := by
  unfold turn
  split <;> split <;> split <;> omega

/-- Different distances, of less than one turn, lead to different slots. -/
theorem turn_inj {one other : Nat} (small : one < size) (small' : other < size) :
    turn size (start + one) = turn size (start + other) ↔ one = other := by
  -- The slot wraps at most once on either side, so equal slots leave equal distances.
  unfold turn
  constructor
  · split <;> split <;> omega
  · intro same
    rw [same]

/-- Where the slot after one is where a queue starts, it is behind the queue by the whole rest of
the turn, so that nothing of the queue is in it. -/
theorem turn_ne_before {offset : Nat} (begins : start < size) (small : offset + 1 < size)
    (before : turn size (slot + 1) = start) : turn size (start + offset) ≠ slot := by
  -- If the slot were reached again, offset plus one would be a whole turn, which it is too small
  -- for.
  intro same
  rw [← same, turn_turn begins (by omega)] at before
  have first := turn_of_lt begins
  rw [← Nat.add_zero start] at first
  have zero := (turn_inj small (by omega)).mp (before.trans first.symm)
  cases zero

/-- The items of a queue are in the slots from some place on. -/
def Laid (data : Nat → Option α) (size start : Nat) (queue : List α) : Prop :=
  ∀ i item, queue[i]? = some item → data (turn size (start + i)) = some item

/-- Nothing is laid out anywhere. -/
theorem laid_nil : Laid data size start [] := by
  intro i item is
  cases is

/-- What is in the slot behind a queue belongs to a longer one. -/
theorem Laid.push (laid : Laid data size start queue)
    (behind : data (turn size (start + queue.length)) = some item) :
    Laid data size start (queue ++ [item]) := by
  -- Indices inside the queue are as before; the only other index is that of the new item.
  intro i found is
  by_cases inside : i < queue.length
  · rw [List.getElem?_append_left inside] at is
    exact laid i found is
  · rw [List.getElem?_append_right (Nat.le_of_not_lt inside)] at is
    have last : i - queue.length = 0 := by
      have bound := (List.getElem?_eq_some_iff.mp is).1
      rw [List.length_singleton] at bound
      omega
    rw [last] at is
    cases is
    rw [show i = queue.length by omega]
    exact behind

/-- The first item of a queue is where it starts, and the others come behind it. -/
theorem Laid.pop (laid : Laid data size start (item :: rest)) (begins : start < size)
    (room : rest.length ≤ size) :
    data start = some item ∧ Laid data size (turn size (start + 1)) rest := by
  -- Index 0 is the first item, and index `i` of the rest is index `i + 1` of the whole.
  constructor
  · have first := laid 0 item rfl
    rw [Nat.add_zero, turn_of_lt begins] at first
    exact first
  · intro i found is
    have bound := (List.getElem?_eq_some_iff.mp is).1
    rw [turn_turn begins (by omega), Nat.add_comm 1 i]
    exact laid (i + 1) found is

/-- A slot that a queue is not laid out in may change. -/
theorem Laid.update (laid : Laid data size start queue) (value : Option α)
    (outside : ∀ i < queue.length, turn size (start + i) ≠ slot) :
    Laid (Function.update data slot value) size start queue := by
  intro i item is
  have bound := (List.getElem?_eq_some_iff.mp is).1
  rw [Function.update_of_ne (outside i bound)]
  exact laid i item is

end

end Rmr
