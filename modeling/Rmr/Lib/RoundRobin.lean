import Mathlib.Data.Int.CardIntervalMod

/-! Round robin with a counter that wraps: the places that it selects, and when these are fair. -/

namespace Rmr

/-- In every stretch of a run as long as there are places each place is selected once, and at every
point the numbers of selections differ by one at most. -/
structure Fair (size : Nat) (picks : List Nat) : Prop where
  once : ∀ start, start + size ≤ picks.length → ∀ idx < size,
    ((picks.drop start).take size).count idx = 1
  even : ∀ len ≤ picks.length, ∀ idx < size, ∀ other < size,
    (picks.take len).count idx ≤ (picks.take len).count other + 1

/-- The places that a counter selects from its start, which is reduced when it is used and wraps
after some turns. -/
def turnsOf (turns size len : Nat) : List Nat := (List.range len).map fun k => k % turns % size

variable {turns size len : Nat}

/-- How often a place was selected, by a counter that has not wrapped. -/
theorem count_residues (len idx : Nat) (inside : idx < size) :
    ((List.range len).map (· % size)).count idx =
      len / size + if idx < len % size then 1 else 0 := by
  -- Counting in the list is counting the numbers below its length.
  have counted : ((List.range len).map (· % size)).count idx =
      Nat.count (fun k => k ≡ idx [MOD size]) len := by
    induction len with
    | zero => simp
    | succ len ih =>
      rw [List.range_succ, List.map_append, List.count_append, ih, Nat.count_succ]
      simp [Nat.ModEq, Nat.mod_eq_of_lt inside, List.count_singleton]
  rw [counted, Nat.count_modEq_card len (by omega) idx, Nat.mod_eq_of_lt inside]

/-- Before it wraps, or where the size divides its range, the counter is as good as one without end.
-/
theorem turnsOf_eq (wraps : size ∣ turns ∨ len ≤ turns) :
    turnsOf turns size len = (List.range len).map (· % size) := by
  -- The counter wraps at a multiple of the size, or not at all within the stretch.
  apply List.map_congr_left
  intro k among
  have below : k < len := List.mem_range.mp among
  rcases wraps with divides | early
  · exact Nat.mod_mod_of_dvd k divides
  · show k % turns % size = k % size
    rw [Nat.mod_eq_of_lt (Nat.lt_of_lt_of_le below early)]

/-- A stretch of the places is what comes up to its end without what comes before it. -/
theorem count_stretch (picks : List Nat) (start size idx : Nat) :
    (picks.take (start + size)).count idx =
      (picks.take start).count idx + ((picks.drop start).take size).count idx := by
  rw [List.take_add, List.count_append]

/-- The counter is fair as long as it is as good as one without end. -/
theorem fair_residues (some_ : 0 < size) (len : Nat) :
    Fair size ((List.range len).map (· % size)) := by
  -- A stretch is counted as the difference of two beginnings, in which residues are counted evenly.
  have taken : ∀ part ≤ len, ((List.range len).map (· % size)).take part =
      (List.range part).map (· % size) := by
    intro part within
    rw [← List.map_take, List.take_range, Nat.min_eq_left within]
  constructor
  · intro start within idx inside
    have long : start + size ≤ len := by simpa using within
    have split := count_stretch ((List.range len).map (· % size)) start size idx
    rw [taken _ long, taken start (by omega), count_residues _ _ inside,
      count_residues _ _ inside, Nat.add_div_right _ some_, Nat.add_mod_right] at split
    omega
  · intro part within idx inside other inside'
    have long : part ≤ len := by simpa using within
    rw [taken part long, count_residues _ _ inside, count_residues _ _ inside']
    split
    · omega
    · omega

/-- Once the counter has wrapped the first place is two ahead of the last one, unless the size
divides the range. -/
theorem not_fair_wrapped (some_ : 0 < size) (odd : ¬ size ∣ turns)
    (late : turns < len) : ¬ Fair size (turnsOf turns size len) := by
  intro fair
  have rest : 0 < turns % size := Nat.pos_of_ne_zero fun zero => odd (Nat.dvd_of_mod_eq_zero zero)
  have below : turns % size < size := Nat.mod_lt _ some_
  -- What was selected when the counter has just wrapped, one selection later.
  have upTo : (turnsOf turns size len).take (turns + 1) =
      (List.range turns).map (· % size) ++ [0] := by
    rw [turnsOf, ← List.map_take, List.take_range, Nat.min_eq_left (by omega), List.range_succ,
      List.map_append]
    congr 1
    · exact turnsOf_eq (Or.inr le_rfl)
    · simp
  have gap := fair.even (turns + 1) (by simpa [turnsOf, Nat.succ_le_iff] using late) 0 some_
    (size - 1) (by omega)
  rw [upTo, List.count_append, List.count_append, count_residues _ _ some_,
    count_residues _ _ (by omega : size - 1 < size), if_pos rest, if_neg (by omega)] at gap
  have apart : size - 1 ≠ 0 := by omega
  simp only [List.count_singleton_self, List.count_singleton, beq_iff_eq, apart.symm,
    if_false] at gap
  omega

/-- The counter is fair for exactly as long as it has not wrapped, or where the size divides its
range. -/
theorem fair_turnsOf (some_ : 0 < size) :
    Fair size (turnsOf turns size len) ↔ size ∣ turns ∨ len ≤ turns := by
  -- A counter that wraps where the size does not divide its range repeats a part too early.
  constructor
  · intro fair
    by_contra neither
    rw [not_or] at neither
    exact not_fair_wrapped some_ neither.1 (by omega) fair
  · intro wraps
    rw [turnsOf_eq wraps]
    exact fair_residues some_ len

end Rmr
