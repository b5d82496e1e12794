import Rmr.Lib.Linked
import Rmr.Symtab.Table

/-! The symbol table in memory: elements that are doubly linked into the chains of the table. -/

namespace Rmr

/-- `Sym_tab`, with the elements in memory. -/
structure SymHeap (V : Type) where
  cells : Cells (SymEle V)
  /-- The address that is allocated next; none is allocated twice. -/
  brk : Nat
  symlist : Nat → Option Nat
  inhabitants : Int
  deaths : Int
  size : Nat
  sizeLow : 11 ≤ size
  sizeHigh : (size : Int) ≤ intMax

section
variable {V : Type}

/-- A new element for a key, before its value is put in. -/
def SymKey.blank (key : SymKey) : SymEle V := { key.element none with mcount := 0 }

/-- The callback of `rmr_sym_foreach_class`: whether it deletes an element, from those that it was
driven for before. -/
abbrev UserFun (V : Type) := List (SymEle V) → SymEle V → Bool

/-- The class of the elements with a key. -/
def SymKey.cls : SymKey → Nat
  | .numeric _ => 0
  | .string cls _ _ => cls

namespace SymHeap
variable (table : SymHeap V)

/-- `rmr_sym_alloc`. -/
def rmrSymAlloc (V : Type) (size : Int) (fits : size ≤ intMax) : SymHeap V where
  cells := fun _ => none
  brk := 0
  symlist := fun _ => none
  inhabitants := 0
  deaths := 0
  size := chainsFor size
  sizeLow := le_chainsFor size
  sizeHigh := chainsFor_le fits

/-- The table with another head of a chain. -/
def setHead (hv : Nat) (head : Option Nat) : SymHeap V :=
  { table with symlist := Function.update table.symlist hv head }

/-- The loop that looks for a key. -/
def find (key : SymKey) : Except Fault (Option Nat) :=
  table.cells.search key.stops table.brk (table.symlist (key.hash table.size))

/-- `del_ele`. -/
def delEle (hv : Nat) (eptr : Option Nat) : Except Fault (SymHeap V) :=
  match eptr with
  | none => .ok table
  | some eptr => do
    let (cells, head) ← table.cells.unlink (table.symlist hv) eptr
    return { table.setHead hv head with
      cells := cells
      deaths := table.deaths + 1
      inhabitants := table.inhabitants - 1 }

/-- `del_head_ele`. -/
def delHeadEle (hv : Nat) : Except Fault (SymHeap V) :=
  if table.size ≤ hv then .ok table
  else
    match table.symlist hv with
    | none => .ok table
    | some eptr => do
      let (cells, head) ← table.cells.unlinkFront eptr
      return { table.setHead hv head with
        cells := cells
        deaths := table.deaths + 1
        inhabitants := table.inhabitants - 1 }

/-- A new element is added to the head of its chain. -/
def add (key : SymKey) : Except Fault (SymHeap V) := do
  let hv := key.hash table.size
  let (cells, head) ← table.cells.linkFront (table.symlist hv) table.brk key.blank
  return { table.setHead hv head with
    cells := cells
    brk := table.brk + 1
    inhabitants := table.inhabitants + 1 }

/-- An element is given a value. -/
def modify (eptr : Nat) (val : Option V) : Except Fault (SymHeap V) := do
  let cells ← table.cells.setItem eptr fun ele => { ele with mcount := ele.mcount + 1, val := val }
  return { table with cells := cells }

/-- `putin`: the value goes to the element found, or to a new one. -/
def putin (key : SymKey) (val : Option V) : Except Fault (SymHeap V × Int) := do
  match ← table.find key with
  | some eptr => return (← table.modify eptr val, 0)
  | none => return (← (← table.add key).modify table.brk val, 1)

/-- `rmr_sym_del`. -/
def rmrSymDel (key : SymKey) : Except Fault (SymHeap V) := do
  table.delEle (key.hash table.size) (← table.find key)

/-- `rmr_sym_get`. -/
def rmrSymGet (key : SymKey) : Except Fault (SymHeap V × Option V) := do
  match ← table.find key with
  | some eptr =>
    let cells ← table.cells.setItem eptr fun ele => { ele with rcount := ele.rcount + 1 }
    let cell ← cells.load eptr
    return ({ table with cells := cells }, cell.item.val)
  | none => return (table, none)

/-- `rmr_sym_put`: class 0 is forced to 1. -/
def rmrSymPut (name : List UInt8) (cls : Nat) (val : Option V) : Except Fault (SymHeap V × Int) :=
  if named : cls = 0 then table.putin (.string 1 Nat.one_ne_zero name) val
  else table.putin (.string cls named name) val

/-- `rmr_sym_map`. -/
def rmrSymMap (key : UInt64) (val : Option V) : Except Fault (SymHeap V × Int) :=
  table.putin (.numeric key) val

/-- `rmr_sym_pull`. -/
def rmrSymPull (key : UInt64) : Except Fault (SymHeap V × Option V) :=
    table.rmrSymGet (.numeric key)

/-- `rmr_sym_ndel`. -/
def rmrSymNdel (key : UInt64) : Except Fault (SymHeap V) := table.rmrSymDel (.numeric key)

/-- The loop of `rmr_sym_clear` over one chain. -/
def clearChain (hv : Nat) : Nat → SymHeap V → Except Fault (SymHeap V)
  | fuel, table =>
    match table.symlist hv with
    | none => .ok table
    | some _ =>
      match fuel with
      | 0 => .error .spin
      | fuel + 1 => do clearChain hv fuel (← table.delHeadEle hv)

/-- `rmr_sym_clear`. -/
def rmrSymClear : Except Fault (SymHeap V) :=
  (List.range table.size).foldlM (fun table hv => clearChain hv table.brk table) table

/-- The loop of `rmr_sym_foreach_class` over one chain, from an element on. -/
def walk (cls : Nat) (userFun : UserFun V) :
    Nat → Option Nat → SymHeap V × List (SymEle V) → Except Fault (SymHeap V × List (SymEle V))
  | _, none, visits => .ok visits
  | 0, some _, _ => .error .spin
  | fuel + 1, some se, (table, visits) => do
    -- The next element is captured before the callback, which may delete this one.
    let cell ← table.cells.load se
    if cls = cell.item.cls then
      if userFun visits cell.item then
        let table ← table.rmrSymDel cell.item.key
        walk cls userFun fuel cell.next (table, visits ++ [cell.item])
      else walk cls userFun fuel cell.next (table, visits ++ [cell.item])
    else walk cls userFun fuel cell.next (table, visits)

/-- `rmr_sym_foreach_class`, with the elements that the callback was driven for. -/
def rmrSymForeachClass (cls : Nat) (userFun : UserFun V) :
    Except Fault (SymHeap V × List (SymEle V)) :=
  (List.range table.size).foldlM
    (fun visits hv => walk cls userFun visits.1.brk (visits.1.symlist hv) visits) (table, [])

end SymHeap

/-- All operations on a symbol table. -/
inductive TableOp (V : Type) where
  | op (op : SymOp V)
  | clear
  | foreachClass (cls : Nat) (userFun : UserFun V)

/-- What they return. -/
inductive TableOut (V : Type) where
  | out (out : SymOut V)
  | nothing
  /-- The elements that the callback was driven for. -/
  | visits (eles : List (SymEle V))

/-- One operation. -/
def SymHeap.step (table : SymHeap V) : TableOp V → Except Fault (SymHeap V × TableOut V)
  | .op (.map key val) =>
    do let (table, rc) ← table.rmrSymMap key val; return (table, .out (.rc rc))
  | .op (.put name cls val) => do
    let (table, rc) ← table.rmrSymPut name cls val
    return (table, .out (.rc rc))
  | .op (.pull key) => do let (table, val) ← table.rmrSymPull key; return (table, .out (.val val))
  | .op (.get key) => do let (table, val) ← table.rmrSymGet key; return (table, .out (.val val))
  | .op (.ndel key) => do return (← table.rmrSymNdel key, .out .nothing)
  | .op (.del key) => do return (← table.rmrSymDel key, .out .nothing)
  | .clear => do return (← table.rmrSymClear, .nothing)
  | .foreachClass cls userFun => do
    let (table, visits) ← table.rmrSymForeachClass cls userFun
    return (table, .visits visits)

/-- Operations in sequence, with what each returned. -/
def SymHeap.run (table : SymHeap V) : List (TableOp V) →
    Except Fault (SymHeap V × List (TableOut V))
  | [] => .ok (table, [])
  | op :: ops => do
    let (next, out) ← table.step op
    let (final, outs) ← next.run ops
    return (final, out :: outs)

end

end Rmr
