import Mathlib.Data.Int.Basic
import Mathlib.Tactic

/-! Fixed-width C integers as unbounded ones, with the conversions and the checks C makes of them.
-/

namespace Rmr

/-- The ways a C program leaves the behaviour its source defines. -/
inductive Fault where
  /-- A signed computation left the range of its type. -/
  | overflow
  /-- A copy had a negative length or reached outside one of its blocks. -/
  | range
  /-- A nil pointer was used. -/
  | nil
  /-- A block was used or released after it had been released. -/
  | freed
  /-- A loop did not finish within the passes it was given. -/
  | spin
  deriving DecidableEq, Repr

/-- The largest value of a 32 bit `int`. -/
def intMax : Int := 2147483647

/-- The smallest value of a 32 bit `int`. -/
def intMin : Int := -2147483648

/-- The values a 32 bit `int` can hold. -/
def InInt (n : Int) : Prop := intMin ≤ n ∧ n ≤ intMax

instance (n : Int) : Decidable (InInt n) := inferInstanceAs (Decidable (_ ∧ _))

/-- Conversion to a 32 bit `int`: the value congruent modulo `2^32`. -/
def toInt (n : Int) : Int := Int.bmod n 4294967296

/-- Conversion to an unsigned 32 bit integer: the residue modulo `2^32`. -/
def toUint (n : Int) : Nat := (n % 4294967296).toNat

/-- Signed addition, which is defined only while the sum is an `int`. -/
def addInt (a b : Int) : Except Fault Int :=
  if InInt (a + b) then .ok (a + b) else .error .overflow

/-- Signed subtraction, which is defined only while the difference is an `int`. -/
def subInt (a b : Int) : Except Fault Int :=
  if InInt (a - b) then .ok (a - b) else .error .overflow

/-- A sum in range is what signed addition answers with. -/
theorem addInt_ok {a b : Int} (inside : InInt (a + b)) : addInt a b = .ok (a + b) := by
  simp [addInt, inside]

/-- A sum out of range is a fault. -/
theorem addInt_overflow {a b : Int} (outside : ¬ InInt (a + b)) :
    addInt a b = .error .overflow := by
  simp [addInt, outside]

/-- A difference in range is what signed subtraction answers with. -/
theorem subInt_ok {a b : Int} (inside : InInt (a - b)) : subInt a b = .ok (a - b) := by
  simp [subInt, inside]

/-- A sum that signed addition answers with is the sum. -/
theorem addInt_eq_ok {a b sum : Int} (added : addInt a b = .ok sum) :
    InInt (a + b) ∧ sum = a + b := by
  -- The sum is given out only in the branch where it fits.
  unfold addInt at added
  split at added
  case isTrue inside => exact ⟨inside, (Except.ok.inj added).symm⟩
  case isFalse => cases added

/-- A difference that signed subtraction answers with is the difference. -/
theorem subInt_eq_ok {a b difference : Int} (taken : subInt a b = .ok difference) :
    InInt (a - b) ∧ difference = a - b := by
  -- The difference is given out only in the branch where it fits.
  unfold subInt at taken
  split at taken
  case isTrue inside => exact ⟨inside, (Except.ok.inj taken).symm⟩
  case isFalse => cases taken

/-- Conversion keeps a value the type can hold. -/
theorem toInt_of_inInt {n : Int} (inside : InInt n) : toInt n = n := by
  simp only [InInt, intMin, intMax] at inside
  exact Int.bmod_eq_of_le (by norm_num; omega) (by norm_num; omega)

/-- Every converted value fits the type. -/
theorem inInt_toInt (n : Int) : InInt (toInt n) := by
  -- The balanced remainder lies between half a turn below zero and half a turn above it.
  have low := Int.le_bmod (x := n) (m := 4294967296) (by decide)
  have high := Int.bmod_lt (x := n) (m := 4294967296) (by decide)
  norm_num at low high
  simp only [InInt, intMin, intMax, toInt]
  omega

/-- A natural number below the sign bit keeps its value when read as an `int`. -/
theorem toInt_natCast {n : Nat} (small : (n : Int) ≤ intMax) : toInt n = n :=
  toInt_of_inInt ⟨by simp only [intMin]; omega, small⟩

/-- A value that a whole turn takes into the type is read as a turn less. -/
theorem toInt_turn {n : Int} (inside : InInt (n - 4294967296)) : toInt n = n - 4294967296 := by
  -- The remainder is the same a whole turn away, and there the value fits.
  have turned : toInt (n - (4294967296 : Nat)) = toInt n := Int.sub_bmod_right _ _
  rw [← turned]
  exact toInt_of_inInt inside

/-- A word with its highest bit set is negative as an `int`. -/
theorem toInt_neg {word : Nat} (high : intMax < (word : Int)) (small : word < 4294967296) :
    toInt word < 0 := by
  -- A set highest bit puts the word a turn above what it is read as.
  simp only [intMax] at high
  rw [toInt_turn (by simp only [InInt, intMin, intMax]; omega)]
  omega

/-- The residue of a natural number below `2^32` is the number itself. -/
theorem toUint_natCast {n : Nat} (small : n < 4294967296) : toUint n = n := by
  simp only [toUint]
  omega

/-- A residue is always below `2^32`. -/
theorem toUint_lt (n : Int) : toUint n < 4294967296 := by
  simp only [toUint]
  omega

/-- Reading a residue back as an `int` recovers the value it was taken from. -/
theorem toInt_toUint {n : Int} (inside : InInt n) : toInt (toUint n) = n := by
  -- The residue differs from the value by a whole number of turns, which the balanced remainder
  -- drops.
  simp only [InInt, intMin, intMax] at inside
  have residue : ((toUint n : Nat) : Int) = n % 4294967296 := by
    simp only [toUint]
    omega
  rw [toInt, residue]
  exact (Int.emod_bmod n 4294967296).trans
    (Int.bmod_eq_of_le (by norm_num; omega) (by norm_num; omega))

/-- Reading a value as an `int` keeps its residue. -/
theorem toUint_toInt (n : Int) : toUint (toInt n) = toUint n := by
  rw [toUint, toUint, toInt]
  congr 1
  exact Int.bmod_emod

/-- A difference read as an `int` is the same from the residue of what is subtracted from. -/
theorem toInt_toUint_sub (n less : Int) : toInt ((toUint n : Int) - less) = toInt (n - less) := by
  -- Subtracting commutes with taking residues, so that both sides have the same residue.
  have residue : ((toUint n : Nat) : Int) = n % 4294967296 := by
    simp only [toUint]
    omega
  have same : (n % 4294967296 - less) % (4294967296 : Nat) = (n - less) % (4294967296 : Nat) :=
    Int.emod_sub_emod n 4294967296 less
  rw [toInt, toInt, residue, ← Int.emod_bmod, same, Int.emod_bmod]

/-- A residue read as an `int` is what the value is read as. -/
theorem toInt_of_toUint (n : Int) : toInt (toUint n) = toInt n := by
  have same := toInt_toUint_sub n 0
  rwa [sub_zero, sub_zero] at same

/-- A value that is not below all `int`s is not less than what it is read as. -/
theorem toInt_le {n : Int} (low : intMin ≤ n) : toInt n ≤ n := by
  -- A value that fits is read as itself; what any other one is read as fits, and is less.
  by_cases high : n ≤ intMax
  · exact le_of_eq (toInt_of_inInt ⟨low, high⟩)
  · have inside := (inInt_toInt n).2
    omega

/-- An `int` that is not negative is the same as an unsigned word. -/
theorem toUint_of_nonneg {n : Int} (inside : InInt n) (nonneg : 0 ≤ n) : (toUint n : Int) = n := by
  simp only [InInt, intMin, intMax] at inside
  simp only [toUint]
  omega

/-- A negative `int` is a large unsigned word. -/
theorem toUint_of_neg {n : Int} (inside : InInt n) (negative : n < 0) : 2147483648 ≤ toUint n := by
  simp only [InInt, intMin, intMax] at inside
  simp only [toUint]
  omega

/-- Adding to a value read as an `int` gives what the sum is read as. -/
theorem toInt_toInt_add (n more : Int) : toInt (toInt n + more) = toInt (n + more) := by
  rw [toInt, toInt, toInt, Int.bmod_add_bmod]

/-- A value that is some way on from an `int` is read as it again after whole turns only. -/
theorem toInt_add_eq_self {n : Int} (inside : InInt n) (more : Nat) :
    toInt (n + more) = n ↔ more % 4294967296 = 0 := by
  -- Two values are read as the same `int` exactly when their residues agree.
  have same : toInt (n + more) = toInt n ↔
      (n + more) % ((4294967296 : Nat) : Int) = n % ((4294967296 : Nat) : Int) := by
    constructor
    · intro is
      have residues := congrArg (· % ((4294967296 : Nat) : Int)) is
      simpa only [toInt, Int.bmod_emod] using residues
    · intro is
      rw [toInt, toInt, ← Int.emod_bmod, is, Int.emod_bmod]
  rw [toInt_of_inInt inside] at same
  rw [same]
  omega

/-- Adding to a value read as an `int` gives the residue of the sum. -/
theorem toUint_toInt_add (n more : Int) : toUint (toInt n + more) = toUint (n + more) := by
  have same : toInt n % 4294967296 = n % 4294967296 := Int.bmod_emod
  rw [toUint, toUint, Int.add_emod, same, ← Int.add_emod]

/-- Adding a residue gives the residue of the sum. -/
theorem toUint_add_toUint (n more : Int) : toUint (n + toUint more) = toUint (n + more) := by
  simp only [toUint]
  omega

/-- Less can be taken from a residue than there is. -/
theorem toUint_sub {n : Int} {less : Nat} (enough : less ≤ toUint n) :
    toUint (n - less) = toUint n - less := by
  simp only [toUint] at enough ⊢
  omega

-- Conversions are reasoned about through the laws above; unfolded, they would be computed with.
attribute [irreducible] toInt toUint

end Rmr
