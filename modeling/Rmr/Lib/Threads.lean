import Mathlib.Data.List.Basic
import Mathlib.Tactic

/-! Threads in a list of the places that they are at, and how many of them are at some kind of
place. -/

namespace Rmr

section
variable {σ : Type*} {threads : List σ} {thread other : Nat} {pc next : σ}

/-- A thread that moves leaves the others where they are. -/
theorem getElem?_moved (at_ : threads[thread]? = some pc) :
    (threads.set thread next)[other]? = if other = thread then some next else threads[other]? := by
  have inside : thread < threads.length := (List.getElem?_eq_some_iff.mp at_).1
  rw [List.getElem?_set]
  by_cases same : other = thread
  · -- The thread itself is where it moved to.
    rw [if_pos same.symm, if_pos same, if_pos inside]
  · rw [if_neg fun equal => same equal.symm, if_neg same]

/-- What holds of each thread holds after a move if it holds of the new place. -/
theorem forall_moved (Holds : Nat → σ → Prop) (at_ : threads[thread]? = some pc)
    (others : ∀ other pc, other ≠ thread → threads[other]? = some pc → Holds other pc)
    (here : Holds thread next) :
    ∀ other pc, (threads.set thread next)[other]? = some pc → Holds other pc := by
  -- The thread that has moved is at the new place, and every other one is where it was.
  intro other otherPc is
  rw [getElem?_moved at_] at is
  split at is
  · rename_i same
    cases is
    rw [same]
    exact here
  · rename_i differs
    exact others other otherPc differs is

/-- A move changes a count by the place that is left and the one that is reached. -/
theorem countP_moved (next : σ) (at_ : threads[thread]? = some pc) (counts : σ → Bool) :
    (threads.set thread next).countP counts + (if counts pc then 1 else 0) =
      threads.countP counts + (if counts next then 1 else 0) := by
  obtain ⟨inside, is⟩ := List.getElem?_eq_some_iff.mp at_
  rw [List.countP_set inside, is]
  -- A thread that is counted makes the count positive, so that one can be taken from it.
  have counted : counts pc = true → 0 < threads.countP counts := by
    intro yes
    rw [List.countP_pos_iff]
    exact ⟨pc, List.mem_of_getElem? at_, yes⟩
  by_cases yes : counts pc = true
  · have positive := counted yes
    simp only [yes, if_true]
    omega
  · simp only [yes, if_false, Bool.false_eq_true]
    omega

/-- A thread at such a place is counted. -/
theorem countP_pos_of_at (at_ : threads[thread]? = some pc) {counts : σ → Bool}
    (counted : counts pc = true) : 0 < threads.countP counts :=
  List.countP_pos_iff.mpr ⟨pc, List.mem_of_getElem? at_, counted⟩

/-- A place that only one thread can be at is counted once at most. -/
theorem countP_le_one {counts : σ → Bool}
    (unique : ∀ (one other : Nat) (pc next : σ), threads[one]? = some pc → counts pc = true →
      threads[other]? = some next → counts next = true → one = other) :
    threads.countP counts ≤ 1 := by
  induction threads with
  | nil => exact Nat.zero_le 1
  | cons first rest ih =>
    by_cases yes : counts first = true
    · -- No thread behind the first one can be there as well.
      have zero : rest.countP counts = 0 := by
        rw [List.countP_eq_zero]
        intro last among also
        obtain ⟨place, is⟩ := List.getElem?_of_mem among
        have same := unique 0 (place + 1) first last rfl yes is also
        omega
      rw [List.countP_cons_of_pos yes, zero]
    · rw [List.countP_cons_of_neg yes]
      refine ih fun one other pc next is counted also too => ?_
      have same := unique (one + 1) (other + 1) pc next is counted also too
      omega

end

end Rmr
