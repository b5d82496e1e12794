import Mathlib.Data.List.Basic
import Rmr.Lib.Run

/-! Fallible computations that leave marks as they go, also where they fail in the end. -/

namespace Rmr

universe u

/-- What a computation comes to, and the marks that it left. -/
structure Traced (μ : Type u) (ε : Type u) (α : Type u) where
  marks : List μ
  result : Except ε α

namespace Traced

variable {μ ε α β : Type u}

/-- Nothing is marked. -/
def ret (value : α) : Traced μ ε α := ⟨[], .ok value⟩

/-- What comes after leaves its marks behind those that were left before. -/
def andThen (first : Traced μ ε α) (next : α → Traced μ ε β) : Traced μ ε β :=
  match first.result with
  | .ok value => ⟨first.marks ++ (next value).marks, (next value).result⟩
  | .error fault => ⟨first.marks, .error fault⟩

instance : Monad (Traced μ ε) where
  pure := ret
  bind := andThen

/-- A computation that leaves no marks. -/
def plain (outcome : Except ε α) : Traced μ ε α := ⟨[], outcome⟩

/-- A mark. -/
def mark (m : μ) : Traced μ ε PUnit := ⟨[m], .ok ⟨⟩⟩

/-- Something holds of all marks. -/
def All (P : μ → Prop) (run : Traced μ ε α) : Prop := ∀ m ∈ run.marks, P m

section
variable {P : μ → Prop} {first : Traced μ ε α} {next : α → Traced μ ε β}
  {step : β → α → Traced μ ε β}

/-- A value leaves no mark. -/
@[simp] theorem marks_pure (value : α) : (pure value : Traced μ ε α).marks = [] := rfl

/-- A value is its own result. -/
@[simp] theorem result_pure (value : α) : (pure value : Traced μ ε α).result = .ok value := rfl

/-- The result of a computation without marks is its outcome. -/
@[simp] theorem result_plain (outcome : Except ε α) :
    (plain outcome : Traced μ ε α).result = outcome :=
  rfl

/-- A mark gives no value. -/
@[simp] theorem result_mark (m : μ) : (mark m : Traced μ ε PUnit).result = .ok ⟨⟩ := rfl

/-- Without the marks, computations in sequence are what they come to in sequence. -/
@[simp] theorem result_bind :
    (first >>= next).result = first.result >>= fun value => (next value).result := by
  -- The first computation decides whether the second one is run.
  show (first.andThen next).result = _
  unfold andThen
  cases first.result with
  | ok value => rfl
  | error fault => rfl

/-- Everything holds of the marks of a value: there are none. -/
@[simp] theorem all_pure (value : α) : All P (pure value : Traced μ ε α) := by
  simp [All]

/-- The same of a computation without marks. -/
@[simp] theorem all_plain (outcome : Except ε α) : All P (plain outcome : Traced μ ε α) := by
  simp [All, plain]

/-- Of a single mark there is only that to hold. -/
@[simp] theorem all_mark {m : μ} : All P (mark m : Traced μ ε PUnit) ↔ P m := by
  simp [All, mark]

/-- The marks of computations in sequence are those of the one, and of the other where it leaves
off. -/
@[simp] theorem all_bind :
    All P (first >>= next) ↔ All P first ∧ ∀ value, first.result = .ok value →
      All P (next value) := by
  -- The marks behind those of the first computation are only there if that one gave a value.
  show (∀ m ∈ (first.andThen next).marks, P m) ↔ _
  unfold andThen
  cases done : first.result with
  | ok value =>
    simp only [List.mem_append, or_imp, forall_and]
    refine and_congr_right fun _ => ⟨?_, fun all => all value rfl⟩
    intro all _ same
    cases same
    exact all
  | error fault =>
    refine ⟨fun all => ⟨all, fun _ same => ?_⟩, fun both => both.1⟩
    cases same

/-- A choice between computations. -/
theorem all_ite {cond : Prop} [Decidable cond] {one other : Traced μ ε α} :
    All P (if cond then one else other) ↔ (cond → All P one) ∧ (¬ cond → All P other) := by
  split
  · rename_i holds
    simp [holds]
  · rename_i fails
    simp [fails]

/-- All marks of a run are as they should be exactly when those of each step are, wherever the run
gets to. -/
theorem all_foldlM (inputs : List α) (start : β) :
    All P (inputs.foldlM step start) ↔
      Along (fun state input => (step state input).result)
        (fun state input => All P (step state input)) start inputs := by
  -- By induction on the inputs: the marks of the first step, and those of the run behind it.
  induction inputs generalizing start with
  | nil => exact iff_of_true (all_pure start) trivial
  | cons input inputs ih =>
    rw [List.foldlM_cons, all_bind, along_cons]
    simp only [ih]

end

end Traced

end Rmr
