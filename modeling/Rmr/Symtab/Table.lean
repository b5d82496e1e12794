import Rmr.Lib.Chain
import Rmr.Lib.CInt

/-! The symbol table: chains of elements that are found by a number, or by a name and its class. -/

namespace Rmr

/-- `Sym_ele`. The links to the neighbours are given by the chain that the element is in. -/
structure SymEle (V : Type) where
  /-- The symbol name, without the byte that ends it; nil for a numeric key. -/
  name : Option (List UInt8)
  nkey : UInt64
  val : Option V
  mcount : Nat
  rcount : Nat
  /-- Class 0 has numeric keys. -/
  cls : Nat
  /-- An element with a name has a clear numeric key. -/
  named : cls ≠ 0 → name ≠ none ∧ nkey = 0
  numbered : cls = 0 → name = none

/-- What an element is looked up by: `name` points at a number when the class is 0. -/
inductive SymKey where
  | numeric (nkey : UInt64)
  | string (cls : Nat) (named : cls ≠ 0) (name : List UInt8)
  deriving DecidableEq

/-- `Sym_tab`. -/
structure Symtab (V : Type) where
  symlist : Nat → List (SymEle V)
  inhabitants : Int
  deaths : Int
  size : Nat
  /-- `rmr_sym_alloc` makes no smaller table. -/
  sizeLow : 11 ≤ size
  sizeHigh : (size : Int) ≤ intMax

/-- The value of a `char`, which is signed. -/
def charVal (c : UInt8) : Int := Int.bmod c.toNat 256

/-- `sym_hash`, with the sum wrapping around in a `long`. -/
def symHash (name : List UInt8) (size : Nat) : Nat :=
  let t := name.foldl (fun t c => Int.bmod (t * 79 + charVal c) 18446744073709551616) 0
  let t := if t < 0 then -t - 1 else t
  (t % size).toNat

/-- The chain that a key belongs to. -/
def SymKey.hash (size : Nat) : SymKey → Nat
  | .numeric nkey => nkey.toNat % size
  | .string _ _ name => symHash name size

section
variable {V : Type}

/-- `same`: classes are compared before names, so that no name of a numeric key is looked at. -/
def same (c1 c2 : Nat) (s1 : Option (List UInt8)) (s2 : List UInt8) : Bool :=
  c1 = c2 && s1 = some s2

/-- What the search of a chain stops at. -/
def SymKey.stops : SymKey → SymEle V → Bool
  -- The search for a number looks at the number alone, whatever the class of the element.
  | .numeric nkey, eptr => eptr.nkey = nkey
  | .string cls _ name, eptr => same cls eptr.cls eptr.name name

/-- The key that an element was put under. -/
def SymEle.key (eptr : SymEle V) : SymKey :=
  if named : eptr.cls = 0 then .numeric eptr.nkey
  else .string eptr.cls named (eptr.name.getD [])

/-- A fresh element for a key. -/
def SymKey.element (val : Option V) : SymKey → SymEle V
  | .numeric nkey => {
      name := none
      nkey := nkey
      val := val
      mcount := 1
      rcount := 0
      cls := 0
      named := fun named => absurd rfl named
      numbered := fun _ => rfl }
  | .string cls named name => {
      name := some name
      nkey := 0
      val := val
      mcount := 1
      rcount := 0
      cls := cls
      named := fun _ => ⟨by simp, rfl⟩
      numbered := fun zero => absurd zero named }

/-- The number of chains of a table: small tables are made larger. -/
def chainsFor (size : Int) : Nat := (if size < 11 then 11 else size).toNat

/-- No table has fewer chains than eleven. -/
theorem le_chainsFor (size : Int) : 11 ≤ chainsFor size := by
  unfold chainsFor
  split <;> omega

/-- The number of chains is an `int` if the size asked for is. -/
theorem chainsFor_le {size : Int} (fits : size ≤ intMax) : (chainsFor size : Int) ≤ intMax := by
  unfold chainsFor
  simp only [intMax] at fits ⊢
  split <;> omega

/-- `rmr_sym_alloc`. -/
def rmrSymAlloc (V : Type) (size : Int) (fits : size ≤ intMax) : Symtab V where
  symlist := fun _ => []
  inhabitants := 0
  deaths := 0
  size := chainsFor size
  sizeLow := le_chainsFor size
  sizeHigh := chainsFor_le fits

namespace Symtab
variable (table : Symtab V)

/-- The chain that a key is looked up in. -/
def chain (key : SymKey) : List (SymEle V) := table.symlist (key.hash table.size)

/-- The table with another chain for a key. -/
def setChain (key : SymKey) (chain : List (SymEle V)) : Symtab V :=
  { table with symlist := Function.update table.symlist (key.hash table.size) chain }

/-- `putin`: the value goes to the element found, or to a new one at the head of the chain. The
result tells whether there is a new one. -/
def putin (key : SymKey) (val : Option V) : Symtab V × Int :=
  match (table.chain key).find? key.stops with
  | some _ =>
    (table.setChain key (updateFirst key.stops
      (fun eptr => { eptr with mcount := eptr.mcount + 1, val := val }) (table.chain key)), 0)
  | none =>
    ({ table.setChain key (key.element val :: table.chain key) with
      inhabitants := table.inhabitants + 1 }, 1)

/-- `rmr_sym_del`. -/
def rmrSymDel (key : SymKey) : Symtab V :=
  match (table.chain key).find? key.stops with
  | some _ =>
    { table.setChain key ((table.chain key).eraseP key.stops) with
      inhabitants := table.inhabitants - 1
      deaths := table.deaths + 1 }
  | none => table

/-- `rmr_sym_get`: nil when nothing is found. -/
def rmrSymGet (key : SymKey) : Symtab V × Option V :=
  match (table.chain key).find? key.stops with
  | some eptr =>
    (table.setChain key (updateFirst key.stops
      (fun eptr => { eptr with rcount := eptr.rcount + 1 }) (table.chain key)), eptr.val)
  | none => (table, none)

/-- `rmr_sym_put`: class 0 is forced to 1. -/
def rmrSymPut (name : List UInt8) (cls : Nat) (val : Option V) : Symtab V × Int :=
  if named : cls = 0 then table.putin (.string 1 Nat.one_ne_zero name) val
  else table.putin (.string cls named name) val

/-- `rmr_sym_map`. -/
def rmrSymMap (key : UInt64) (val : Option V) : Symtab V × Int := table.putin (.numeric key) val

/-- `rmr_sym_pull`. -/
def rmrSymPull (key : UInt64) : Symtab V × Option V := table.rmrSymGet (.numeric key)

/-- `rmr_sym_ndel`. -/
def rmrSymNdel (key : UInt64) : Symtab V := table.rmrSymDel (.numeric key)

end Symtab

/-- The operations on a symbol table. -/
inductive SymOp (V : Type) where
  | map (key : UInt64) (val : Option V)
  | put (name : List UInt8) (cls : Nat) (val : Option V)
  | pull (key : UInt64)
  | get (key : SymKey)
  | ndel (key : UInt64)
  | del (key : SymKey)

/-- What an operation returns. -/
inductive SymOut (V : Type) where
  | rc (rc : Int)
  | val (val : Option V)
  | nothing
  deriving DecidableEq

/-- One operation. -/
def Symtab.step (table : Symtab V) : SymOp V → Symtab V × SymOut V
  | .map key val => ((table.rmrSymMap key val).1, .rc (table.rmrSymMap key val).2)
  | .put name cls val => ((table.rmrSymPut name cls val).1, .rc (table.rmrSymPut name cls val).2)
  | .pull key => ((table.rmrSymPull key).1, .val (table.rmrSymPull key).2)
  | .get key => ((table.rmrSymGet key).1, .val (table.rmrSymGet key).2)
  | .ndel key => (table.rmrSymNdel key, .nothing)
  | .del key => (table.rmrSymDel key, .nothing)

/-- Operations in sequence, with what each returned. -/
def Symtab.run (table : Symtab V) : List (SymOp V) → Symtab V × List (SymOut V)
  | [] => (table, [])
  | op :: ops =>
    let (next, out) := table.step op
    let (final, outs) := next.run ops
    (final, out :: outs)

end

end Rmr
