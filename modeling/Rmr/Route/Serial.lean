import Rmr.Route.Gate
import Rmr.Route.Session

/-! The senders and the collector at the gate, beside records that are parsed one after the
other. -/

namespace Rmr

/-- The table, as if nobody used it. -/
def RouteTable.uncounted (table : RouteTable) : RouteTable := { table with refCount := 0 }

/-- The context, as if nobody used a table. -/
def RtCtx.uncounted (ctx : RtCtx) : RtCtx :=
  { ctx with tables := fun rt => (ctx.tables rt).map RouteTable.uncounted }

/-- What the collector still does with the record that it is in. -/
def Collector.rest : Collector → RtCtx → Except RtFault RtCtx
  | .idle, ctx => .ok ctx
  | .starting kind mem, ctx => do
    let ctx ← ctx.prepDetach.prepClear
    ctx.startTable mem kind
  | .draining kind mem, ctx => do
    let ctx ← ctx.prepClear
    ctx.startTable mem kind
  | .cloning kind mem, ctx => ctx.startTable mem kind

/-- The record that the collector takes up when one comes: none while it is in another. -/
def Collector.takes : Collector → CStr × Mem → List (CStr × Mem)
  | .idle, rec => [rec]
  | _, _ => []

/-- A gate with what happened at it. -/
structure GateLog (ι : Type) where
  gate : Gate ι
  /-- The records that the collector took up. -/
  taken : List (CStr × Mem)
  /-- Those that it had taken up when a sender called `get_rt`. -/
  since : ι → List (CStr × Mem)

namespace GateLog
variable {ι : Type}

/-- Nothing has happened. -/
def init : GateLog ι where
  gate := .init
  taken := []
  since := fun _ => []

/-- The records that the collector takes up with a step. -/
def takes (log : GateLog ι) : Act ι → List (CStr × Mem)
  | .parse mem buf => log.gate.collector.takes (buf, mem)
  | _ => []

variable [DecidableEq ι]

/-- What is kept for each sender when a step is over. -/
def gets (log : GateLog ι) : Act ι → ι → List (CStr × Mem)
  | .getRt i =>
    if log.gate.senders i = none then Function.update log.since i log.taken else log.since
  | _ => log.since

/-- One step of one thread. -/
def step (log : GateLog ι) (conf : RtConf) (act : Act ι) : Except RtFault (GateLog ι) := do
  let gate ← log.gate.step conf act
  return ⟨gate, log.taken ++ log.takes act, log.gets act⟩

/-- Steps one after the other, in whatever order the threads take them. -/
def run (log : GateLog ι) (conf : RtConf) (acts : List (Act ι)) : Except RtFault (GateLog ι) :=
  acts.foldlM (fun log act => log.step conf act) log

end GateLog

/-- The tables at a gate, once the collector is through with the record that it is in, are what
records come to when they are parsed one after the other and nobody uses a table. -/
def Gate.Serial {ι : Type} (conf : RtConf) (gate : Gate ι) (taken : List (CStr × Mem)) : Prop :=
  RtCtx.init.parseRecs conf taken = gate.collector.rest gate.ctx.uncounted

namespace RtCtx

/-- A table answers as the active table of another context. -/
def AnswersAs (ctx : RtCtx) (rt : Nat) (other : RtCtx) : Prop :=
  ∃ active, other.rtable = some active ∧
    (∀ sid mtype tryAlt, ctx.answer rt sid mtype tryAlt = other.answer active sid mtype tryAlt) ∧
    ∀ meid, ctx.getMeidOwner rt meid = other.getMeidOwner active meid

end RtCtx

end Rmr
