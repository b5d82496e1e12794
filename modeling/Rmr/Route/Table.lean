import Mathlib.Data.List.AList
import Rmr.Text.Scan

/-! Route tables: their entries, which they share, and the context that they hang off. -/

namespace Rmr

/-- What ends a run of the route table collector. -/
inductive RtFault where
  /-- A nil pointer was dereferenced. -/
  | nil
  /-- Memory was used, or freed again, after it had been freed. -/
  | freed
  deriving DecidableEq, Repr

/-- `rrgroup_t`. Endpoints are shared by all tables and never freed, so that one stands for its
name; a nil pointer is put in the list for an endpoint that could not be made. -/
structure RrGroup where
  /-- The endpoints in use; `nused` is their number. -/
  epts : List (Option CStr)
  deriving DecidableEq

/-- `MAX_EP_GROUP`: the number of endpoints allocated in a group. -/
def maxEpGroup : Nat := 32

/-- `UNSET_SUBID`. -/
def unsetSubid : Int := -1

/-- What an entry tells a sender, whoever refers to the entry. -/
structure Entry where
  key : UInt64
  mtype : Int
  /-- The groups allocated; `nrrgroups` is their number. -/
  rrgroups : List (Option RrGroup)
  deriving DecidableEq

/-- `rtable_ent_t`. -/
structure Rte where
  entry : Entry
  refs : Int
  deriving DecidableEq

/-- The symbol table of a route table, taken as a map from class and key. -/
structure RtHash where
  /-- `RT_MT_SPACE`: numeric keys, and addresses of route entries. -/
  mt : AList fun _ : UInt64 => Nat
  /-- `RT_ME_SPACE`: managed element ids, and the endpoints that own them. -/
  me : AList fun _ : CStr => CStr

/-- `route_table_t`. -/
structure RouteTable where
  error : Bool
  hash : RtHash
  updates : Int
  mupdates : Int
  refCount : Int

/-- A table with nothing in it. -/
def RouteTable.empty : RouteTable where
  error := false
  hash := ⟨∅, ∅⟩
  updates := 0
  mupdates := 0
  refCount := 0

/-- Why a table was not taken, as its sender is told. -/
inductive NackReason where
  /-- "table not complete". -/
  | notComplete
  /-- "missing table records: expected .. got ..". -/
  | missing (expected : CStr) (got : Int)
  /-- A buffer that was never written to. -/
  | unwritten
  deriving DecidableEq

/-- A call of `send_rt_ack`; there is no reason when the state is `RMR_OK`. -/
structure RtAck where
  tableId : Option CStr
  reason : Option NackReason
  deriving DecidableEq

/-- What a process knows of itself. -/
structure RtConf where
  /-- `my_name`: host and port. -/
  myName : CStr
  /-- `ip_list`: the addresses of the process, each with the port. -/
  ipList : List CStr
  named : ':' ∈ myName
  addressed : ∀ addr ∈ ipList, ':' ∈ addr

/-- The spaces of the symbol table of a route table. -/
inductive Space where
  | mt | me
  deriving DecidableEq

/-- How the lists that a space is captured in are allocated. -/
inductive Capture where
  /-- Everything was captured. -/
  | all
  /-- The lists could not be allocated. -/
  | failed
  /-- The lists could not be extended, and more was captured all the same. -/
  | unchecked
  deriving DecidableEq

instance neZeroTwo : NeZero (2 : Nat) := ⟨Nat.succ_ne_zero 1⟩

/-- What the allocations made for one record come to. -/
structure Mem where
  /-- Route tables, the first and the second one. -/
  table : Fin 2 → Bool
  capture : Space → Capture
  rte : Bool
  /-- Round robin groups, by the group and the token that they are for. -/
  group : Nat → Nat → Bool
  /-- Endpoints, likewise. -/
  ep : Nat → Nat → Bool

/-- All allocations succeed. -/
def Mem.ample : Mem where
  table := fun _ => true
  capture := fun _ => .all
  rte := true
  group := fun _ _ => true
  ep := fun _ _ => true

/-- The context, as far as route tables are concerned. -/
structure RtCtx where
  /-- Route entries by address; nil if there is none, or none any more. -/
  rtes : Nat → Option Rte
  nextRte : Nat
  /-- Route tables by address. -/
  tables : Nat → Option RouteTable
  nextTable : Nat
  rtable : Option Nat
  oldRtable : Option Nat
  newRtable : Option Nat
  /-- The variable `rt` of `prep_new_rt`, while it is the only reference to a table. -/
  prepRt : Option Nat
  /-- `ephash`: the names of the endpoints made so far. -/
  ephash : List CStr
  tableId : Option CStr
  /-- `CFL_FULLRT`: a complete route table has been seen. -/
  fullrt : Bool
  rtableReady : Bool
  /-- The state messages sent, the last one last. -/
  acks : List RtAck
  /-- How many times a new table has become the active one. -/
  rolls : Nat

/-- `build_rt_key`. -/
def buildRtKey (subId mtype : Int) : UInt64 :=
  if subId = unsetSubid then
    0xffffffff00000000 ||| UInt64.ofNat (mtype % 18446744073709551616).toNat
  else
    (UInt64.ofNat (subId % 18446744073709551616).toNat <<< 32) ||| UInt64.ofNat (toUint mtype)

/-- The context once it is initialised: the active table is there, and empty. -/
def RtCtx.init : RtCtx where
  rtes := fun _ => none
  nextRte := 0
  tables := Function.update (fun _ => none) 0 (some RouteTable.empty)
  nextTable := 1
  rtable := some 0
  oldRtable := none
  newRtable := none
  prepRt := none
  ephash := []
  tableId := none
  fullrt := false
  rtableReady := false
  acks := []
  rolls := 0

namespace RtCtx

/-- The table at an address. -/
def table (ctx : RtCtx) (rt : Nat) : Except RtFault RouteTable :=
  match ctx.tables rt with
  | some table => .ok table
  | none => .error .freed

/-- The entry at an address. -/
def rte (ctx : RtCtx) (rte : Nat) : Except RtFault Rte :=
  match ctx.rtes rte with
  | some rte => .ok rte
  | none => .error .freed

/-- The context with a table changed. -/
def setTable (ctx : RtCtx) (rt : Nat) (table : RouteTable) : RtCtx :=
  { ctx with tables := Function.update ctx.tables rt (some table) }

/-- The context with an entry changed. -/
def setRte (ctx : RtCtx) (id : Nat) (rte : Rte) : RtCtx :=
  { ctx with rtes := Function.update ctx.rtes id (some rte) }

/-- `del_rte`: one reference less, and the entry is freed with the last one. -/
def delRte (ctx : RtCtx) (id : Nat) : Except RtFault RtCtx := do
  let rte ← ctx.rte id
  if 0 < rte.refs - 1 then
    return ctx.setRte id { rte with refs := rte.refs - 1 }
  else
    return { ctx with rtes := Function.update ctx.rtes id none }

/-- `rmr_sym_foreach_class` over the numeric keys of a table, with `del_rte`. -/
def delRtes (ctx : RtCtx) (mt : AList fun _ : UInt64 => Nat) : Except RtFault RtCtx :=
  mt.entries.foldlM (fun ctx thing => ctx.delRte thing.2) ctx

/-- `uta_add_rte`: a new entry under a key, with groups that are all nil. -/
def utaAddRte (ctx : RtCtx) (mem : Mem) (rt : Nat) (key : UInt64) (nrrgroups : Int) :
    Except RtFault (RtCtx × Option Nat) := do
  if mem.rte = false then return (ctx, none)
  let id := ctx.nextRte
  -- Zero is allowed, as entries that use the managed element id have no groups.
  let count := if nrrgroups < 0 then 10 else nrrgroups.toNat
  let ctx := { ctx.setRte id { entry := ⟨key, 0, List.replicate count none⟩, refs := 1 } with
    nextRte := id + 1 }
  let table ← ctx.table rt
  let ctx ← match table.hash.mt.lookup key with
    | some old => ctx.delRte old
    | none => .ok ctx
  return (ctx.setTable rt { table with hash.mt := table.hash.mt.insert key id }, some id)

/-- `rt_ensure_ep`: the endpoint of a name, which is made if there is none. -/
def rtEnsureEp (ephash : List CStr) (made : Bool) (epName : CStr) : List CStr × Option CStr :=
  if epName = [] then (ephash, none)
  else if epName ∈ ephash then (ephash, some epName)
  else if made then (ephash ++ [epName], some epName)
  else (ephash, none)

/-- `uta_add_ep`: an endpoint at the end of a group, which is made if there is none. -/
def utaAddEp (ephash : List CStr) (rrgroups : List (Option RrGroup)) (groupMade epMade : Bool)
    (epName : CStr) (group : Nat) : List CStr × List (Option RrGroup) :=
  match rrgroups[group]? with
  | none => (ephash, rrgroups)
  | some slot =>
    if slot = none ∧ groupMade = false then (ephash, rrgroups)
    else
      let rrg := slot.getD ⟨[]⟩
      let (ephash, ep) := rtEnsureEp ephash epMade epName
      if maxEpGroup ≤ rrg.epts.length then (ephash, rrgroups.set group (some rrg))
      else (ephash, rrgroups.set group (some ⟨rrg.epts ++ [ep]⟩))

/-- `uta_rt_init`. -/
def utaRtInit (ctx : RtCtx) (made : Bool) : RtCtx × Option Nat :=
  if made then
    ({ ctx with
      tables := Function.update ctx.tables ctx.nextTable (some RouteTable.empty)
      nextTable := ctx.nextTable + 1 }, some ctx.nextTable)
  else (ctx, none)

/-- The managed element ids of one table put into another. -/
def cloneMe (ctx : RtCtx) (srt nrt : Nat) : Except RtFault RtCtx := do
  let source ← ctx.table srt
  source.hash.me.entries.foldlM (fun ctx thing => do
    let table ← ctx.table nrt
    return ctx.setTable nrt { table with hash.me := table.hash.me.insert thing.1 thing.2 }) ctx

/-- The entries of one table put into another, with one reference more each. -/
def cloneMt (ctx : RtCtx) (srt nrt : Nat) : Except RtFault RtCtx := do
  let source ← ctx.table srt
  source.hash.mt.entries.foldlM (fun ctx thing => do
    let rte ← ctx.rte thing.2
    let ctx := ctx.setRte thing.2 { rte with refs := rte.refs + 1 }
    let table ← ctx.table nrt
    return ctx.setTable nrt
      { table with hash.mt := table.hash.mt.insert rte.entry.key thing.2 }) ctx

/-- `rt_clone_space`, for two tables that are there. -/
def rtCloneSpace (ctx : RtCtx) (mem : Mem) (srt nrt : Nat) (space : Space) :
    Except RtFault RtCtx :=
  match mem.capture space with
  | .unchecked => .error .nil
  | .failed => do
    let table ← ctx.table nrt
    return ctx.setTable nrt { table with error := true }
  | .all =>
    match space with
    | .me => ctx.cloneMe srt nrt
    | .mt => ctx.cloneMt srt nrt

/-- `uta_rt_clone`: all of the source, or its managed element ids only. -/
def utaRtClone (ctx : RtCtx) (mem : Mem) (srt drt : Option Nat) (all : Bool) :
    Except RtFault (RtCtx × Option Nat) := do
  let (ctx, drt) := match drt with
    | some drt => (ctx, some drt)
    | none => ctx.utaRtInit (mem.table 0)
  match srt, drt with
  | none, drt => return (ctx, drt)
  | some _, none => .error .nil
  | some srt, some drt =>
    let ctx ← ctx.rtCloneSpace mem srt drt .me
    let ctx ← if all then ctx.rtCloneSpace mem srt drt .mt else .ok ctx
    return (ctx, some drt)

/-- The first critical section of `prep_new_rt`: the old table is taken off the context. -/
def prepDetach (ctx : RtCtx) : RtCtx := { ctx with prepRt := ctx.oldRtable, oldRtable := none }

/-- The old table is cleared, once nobody uses it. -/
def prepClear (ctx : RtCtx) : Except RtFault RtCtx :=
  match ctx.prepRt with
  | none => .ok ctx
  | some rt => do
    let table ← ctx.table rt
    let ctx ← ctx.delRtes table.hash.mt
    return ctx.setTable rt { table with hash := ⟨∅, ∅⟩, error := false }

/-- What `prep_new_rt` does behind the lock: the active table is cloned. -/
def prepClone (ctx : RtCtx) (mem : Mem) (all : Bool) : Except RtFault (RtCtx × Nat) := do
  let (ctx, rt) ← ctx.utaRtClone mem ctx.rtable ctx.prepRt all
  match rt with
  | some rt =>
    let table ← ctx.table rt
    return (ctx.setTable rt { table with refCount := 0 }, rt)
  | none =>
    -- A dummy table is marked as in error.
    match ctx.utaRtInit (mem.table 1) with
    | (_, none) => .error .nil
    | (ctx, some rt) => return (ctx.setTable rt { RouteTable.empty with error := true }, rt)

/-- `uta_rt_drop`. -/
def utaRtDrop (ctx : RtCtx) (rt : Nat) : Except RtFault RtCtx := do
  let table ← ctx.table rt
  let ctx ← ctx.delRtes table.hash.mt
  return { ctx with tables := Function.update ctx.tables rt none }

/-- `roll_tables`: the new table becomes the active one, and that one the old one. -/
def rollTables (ctx : RtCtx) : Except RtFault RtCtx :=
  match ctx.newRtable with
  | none => .ok { ctx with oldRtable := none }
  | some rt => do
    let table ← ctx.table rt
    if table.error then
      return { ctx with oldRtable := some rt, newRtable := none }
    else
      return { ctx with
        oldRtable := ctx.rtable
        rtable := some rt
        newRtable := none
        rolls := ctx.rolls + 1 }

/-- `uta_get_rte`: the address of the entry for a subscription id and a message type. -/
def utaGetRte (ctx : RtCtx) (rt : Nat) (sid mtype : Int) (tryAlt : Bool) : Option Nat := do
  let table ← ctx.tables rt
  match table.hash.mt.lookup (buildRtKey sid mtype) with
  | some rte => some rte
  | none =>
    if tryAlt ∧ sid ≠ unsetSubid then table.hash.mt.lookup (buildRtKey unsetSubid mtype) else none

/-- `get_meid_owner`. -/
def getMeidOwner (ctx : RtCtx) (rt : Nat) (meid : CStr) : Option CStr := do
  let table ← ctx.tables rt
  if meid = [] then none else table.hash.me.lookup meid

end RtCtx

end Rmr
