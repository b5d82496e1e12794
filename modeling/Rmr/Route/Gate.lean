import Rmr.Route.Parse

/-! Senders that use route tables while the collector replaces them, one critical section of the
gate at a time. -/

namespace Rmr

namespace RtCtx

/-- `get_rt`: the active table, which is counted as used. -/
def getRt (ctx : RtCtx) : Except RtFault (RtCtx × Option Nat) :=
  match ctx.rtable with
  | none => .ok (ctx, none)
  | some rt => do
    let table ← ctx.table rt
    return (ctx.setTable rt { table with refCount := table.refCount + 1 }, some rt)

/-- `release_rt`. -/
def releaseRt (ctx : RtCtx) (rt : Nat) : Except RtFault RtCtx := do
  let table ← ctx.table rt
  if 0 < table.refCount then
    return ctx.setTable rt { table with refCount := table.refCount - 1 }
  else return ctx

/-- One look at the table that was taken off: it is cleared unless it is still used. -/
def prepPoll (ctx : RtCtx) : Except RtFault (RtCtx × Bool) :=
  match ctx.prepRt with
  | none => .ok (ctx, true)
  | some rt => do
    let table ← ctx.table rt
    if 0 < table.refCount then return (ctx, false)
    else
      let ctx ← ctx.prepClear
      return (ctx, true)

end RtCtx

/-- What a sender has between `get_rt` and `release_rt`: a table, and the entry found in it last. -/
structure Reader where
  rt : Nat
  rte : Option Nat
  deriving DecidableEq

/-- Where the collector is in a record. -/
inductive Collector where
  /-- It waits for the next record. -/
  | idle
  /-- It is about to call `prep_new_rt`. -/
  | starting (kind : TableKind) (mem : Mem)
  /-- It waits in `prep_new_rt` for all users of the old table, without the lock. -/
  | draining (kind : TableKind) (mem : Mem)
  /-- It is behind the lock of `prep_new_rt`. -/
  | cloning (kind : TableKind) (mem : Mem)

/-- A context that is shared by senders and the collector. -/
structure Gate (ι : Type) where
  ctx : RtCtx
  senders : ι → Option Reader
  collector : Collector

/-- What a thread may do next. -/
inductive Act (ι : Type) where
  | getRt (i : ι)
  | getRte (i : ι) (sid mtype : Int) (tryAlt : Bool)
  /-- The entry that was found is used to select an endpoint. -/
  | readRte (i : ι)
  | getMeidOwner (i : ι) (meid : CStr)
  | releaseRt (i : ι)
  /-- A record comes. -/
  | parse (mem : Mem) (buf : CStr)
  /-- The collector goes on with the record that it is in. -/
  | collect

namespace Gate
variable {ι : Type}

/-- Nothing is used yet, and no record has come. -/
def init : Gate ι where
  ctx := RtCtx.init
  senders := fun _ => none
  collector := .idle

/-- The loop of `prep_new_rt`, once. -/
def drain (gate : Gate ι) (ctx : RtCtx) (kind : TableKind) (mem : Mem) :
    Except RtFault (Gate ι) := do
  let (ctx, cleared) ← ctx.prepPoll
  return { gate with
    ctx := ctx
    collector := if cleared then .cloning kind mem else .draining kind mem }

variable [DecidableEq ι]

/-- What a sender does. A thread that is not at that point does nothing. -/
def send (gate : Gate ι) (i : ι) (act : Reader → Except RtFault (RtCtx × Option Reader)) :
    Except RtFault (Gate ι) :=
  match gate.senders i with
  | none => .ok gate
  | some reader => do
    let (ctx, reader) ← act reader
    return { gate with ctx := ctx, senders := Function.update gate.senders i reader }

/-- One step of one thread. -/
def step (gate : Gate ι) (conf : RtConf) : Act ι → Except RtFault (Gate ι)
  | .getRt i =>
    match gate.senders i with
    | some _ => .ok gate
    | none => do
      let (ctx, rt) ← gate.ctx.getRt
      return { gate with
        ctx := ctx
        senders := Function.update gate.senders i (rt.map fun rt => ⟨rt, none⟩) }
  | .getRte i sid mtype tryAlt => gate.send i fun reader => do
    let _ ← gate.ctx.table reader.rt
    return (gate.ctx, some { reader with rte := gate.ctx.utaGetRte reader.rt sid mtype tryAlt })
  | .readRte i => gate.send i fun reader =>
    match reader.rte with
    | none => .ok (gate.ctx, some reader)
    | some id => do
      let _ ← gate.ctx.rte id
      return (gate.ctx, some reader)
  | .getMeidOwner i _ => gate.send i fun reader => do
    let _ ← gate.ctx.table reader.rt
    return (gate.ctx, some reader)
  | .releaseRt i => gate.send i fun reader => do
    let ctx ← gate.ctx.releaseRt reader.rt
    return (ctx, none)
  | .parse mem buf =>
    match gate.collector with
    | .idle => do
      let (ctx, start) ← gate.ctx.beginRec conf mem buf
      return { gate with
        ctx := ctx
        collector := match start with
          | none => .idle
          | some kind => .starting kind mem }
    | _ => .ok gate
  | .collect =>
    match gate.collector with
    | .idle => .ok gate
    | .starting kind mem => gate.drain gate.ctx.prepDetach kind mem
    | .draining kind mem => gate.drain gate.ctx kind mem
    | .cloning kind mem => do
      let ctx ← gate.ctx.startTable mem kind
      return { gate with ctx := ctx, collector := .idle }

/-- Steps one after the other, in whatever order the threads take them. -/
def run (gate : Gate ι) (conf : RtConf) (acts : List (Act ι)) : Except RtFault (Gate ι) :=
  acts.foldlM (fun gate act => gate.step conf act) gate

/-- The number of senders that have a table. -/
def users [Fintype ι] (gate : Gate ι) (rt : Nat) : Nat :=
  (Finset.univ.filter fun i => (gate.senders i).map (·.rt) = some rt).card

end Gate

end Rmr
