import Rmr.Lib.Growing
import Rmr.Route.Table

/-! Cloning a route table by way of the lists that its things are gathered in. -/

namespace Rmr

/-- What ends the cloning of a table: a use of the lists, or one of the tables. -/
inductive CloneFault where
  | list (fault : Fault)
  | table (fault : RtFault)
  deriving DecidableEq

/-- `thing_list_t`. Its error flag is for an allocation that failed, which none does here. -/
structure ThingList (ν τ : Type) where
  nalloc : Int
  nused : Int
  things : Slots τ
  names : Slots ν

namespace ThingList
variable {ν τ : Type}

/-- The list that `rt_clone_space` starts with. -/
def start (ν τ : Type) : ThingList ν τ where
  nalloc := 2048
  nused := 0
  things := Slots.alloc τ 2048
  names := Slots.alloc ν 2048

/-- `extend_things`: the arrays are half as large again. Their size is an `int`. -/
def extendThings (tl : ThingList ν τ) : Except Fault (ThingList ν τ) := do
  let nalloc ← addInt tl.nalloc (tl.nalloc / 2)
  let things ← (Slots.alloc τ nalloc.toNat).copy tl.things tl.nalloc.toNat
  let names ← (Slots.alloc ν nalloc.toNat).copy tl.names tl.nalloc.toNat
  return { tl with nalloc := nalloc, things := things, names := names }

/-- `collect_things`, for one thing of a symbol table. -/
def collectThings (tl : ThingList ν τ) (name : ν) : Option τ → Except Fault (ThingList ν τ)
  | none => .ok tl
  | some thing => do
    let names ← tl.names.put tl.nused.toNat name
    let things ← tl.things.put tl.nused.toNat thing
    let nused ← addInt tl.nused 1
    let tl := { tl with nused := nused, things := things, names := names }
    if tl.nalloc ≤ tl.nused then tl.extendThings else return tl

/-- `rmr_sym_foreach_class` with `collect_things`. -/
def gather (things : List (ν × τ)) : Except Fault (ThingList ν τ) :=
  things.foldlM (fun tl thing => tl.collectThings thing.1 (some thing.2)) (start ν τ)

/-- The name and the thing at a place. -/
def both (tl : ThingList ν τ) (i : Nat) : Except Fault (ν × τ) := do
  let thing ← tl.things.read i
  let name ← tl.names.read i
  return (name, thing)

end ThingList

namespace RtCtx

/-- `rmr_sym_put` of the owner of a managed element id. -/
def putOwner (nrt : Nat) (ctx : RtCtx) (thing : CStr × CStr) : Except RtFault RtCtx := do
  let table ← ctx.table nrt
  return ctx.setTable nrt { table with hash.me := table.hash.me.insert thing.1 thing.2 }

/-- `rmr_sym_map` of an entry, under its own key, with one reference more. -/
def mapRte (nrt : Nat) (ctx : RtCtx) (id : Nat) : Except RtFault RtCtx := do
  let rte ← ctx.rte id
  let ctx := ctx.setRte id { rte with refs := rte.refs + 1 }
  let table ← ctx.table nrt
  return ctx.setTable nrt { table with hash.mt := table.hash.mt.insert rte.entry.key id }

/-- The managed element ids of a table, with their owners. -/
def owners (table : RouteTable) : List (CStr × CStr) :=
  table.hash.me.entries.map fun thing => (thing.1, thing.2)

/-- The entries of a table. Numeric keys have no names. -/
def mapped (table : RouteTable) : List (Option CStr × Nat) :=
  table.hash.mt.entries.map fun thing => (none, thing.2)

/-- `rt_clone_space`, for two tables that are there. -/
def rtCloneThings (ctx : RtCtx) (srt nrt : Nat) (space : Space) : Except CloneFault RtCtx := do
  let source ← (ctx.table srt).mapError .table
  match space with
  | .me => do
    let tl ← (ThingList.gather (owners source)).mapError .list
    (List.range tl.nused.toNat).foldlM (fun ctx i => do
      (ctx.putOwner nrt (← (tl.both i).mapError .list)).mapError .table) ctx
  | .mt => do
    let tl ← (ThingList.gather (mapped source)).mapError .list
    (List.range tl.nused.toNat).foldlM (fun ctx i => do
      (ctx.mapRte nrt (← (tl.things.read i).mapError .list)).mapError .table) ctx

/-- `uta_rt_clone`, where memory for a table is to be had. -/
def utaRtCloneThings (ctx : RtCtx) (srt drt : Option Nat) (all : Bool) :
    Except CloneFault (RtCtx × Option Nat) := do
  let (ctx, drt) := match drt with
    | some drt => (ctx, some drt)
    | none => ctx.utaRtInit true
  match srt, drt with
  | none, drt => return (ctx, drt)
  | some _, none => .error (.table .nil)
  | some srt, some drt =>
    let ctx ← ctx.rtCloneThings srt drt .me
    let ctx ← if all then ctx.rtCloneThings srt drt .mt else .ok ctx
    return (ctx, some drt)

/-- A table was cloned from another one: it has the managed element ids, and the entries if all was
to be cloned, and each entry that it has got has one reference more. Nothing else changed. -/
structure Cloned (ctx : RtCtx) (source : RouteTable) (nrt : Nat) (all : Bool) (next : RtCtx) :
    Prop where
  copy : ∃ table, next.tables nrt = some table ∧ table.error = false ∧
    (∀ meid, table.hash.me.lookup meid = source.hash.me.lookup meid) ∧
    ∀ key, table.hash.mt.lookup key = if all then source.hash.mt.lookup key else none
  others : ∀ rt, rt ≠ nrt → next.tables rt = ctx.tables rt
  refs : ∀ id, next.rtes id = (ctx.rtes id).map fun rte =>
    if all ∧ source.hash.mt.lookup rte.entry.key = some id then { rte with refs := rte.refs + 1 }
    else rte

/-- The entries of a table are there, each under its own key. -/
def Filed (ctx : RtCtx) (table : RouteTable) : Prop :=
  ∀ key id, table.hash.mt.lookup key = some id →
    ∃ rte, ctx.rtes id = some rte ∧ rte.entry.key = key

/-- A table that is cloned into has nothing in it, if it is there already. -/
def Vacant (ctx : RtCtx) (drt : Option Nat) : Prop :=
  ∀ nrt, drt = some nrt →
    ∃ table, ctx.tables nrt = some table ∧ table.hash = ⟨∅, ∅⟩ ∧ table.error = false

/-- The number of things of a space from which on the size of a list is not an `int`. -/
def maxThings : Nat := 1988069724

end RtCtx

end Rmr
