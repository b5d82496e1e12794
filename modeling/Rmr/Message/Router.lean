import Rmr.Message.Fanout

/-! Messages that are sent with the active route table, while records change the table. -/

namespace Rmr

/-- What a call of `rmr_send_msg` or `rmr_mtosend_msg` is given, and what it meets. -/
structure SendMet where
  draft : Draft
  left : Leftover
  /-- The endpoint has a socket, or can be connected to. -/
  linked : Nat → CStr → Bool
  /-- What sending comes to. -/
  outcome : Nat → SendResult

/-- A call that returned. -/
structure SentCall where
  /-- The address of the entry that was found, and its groups. -/
  rte : Option (Nat × List (Option RrGroup))
  net : FanNet
  attempts : List Attempt
  /-- The message that comes back. -/
  sent : Option Draft

/-- The route tables as senders use them. -/
structure Router where
  ctx : RtCtx
  /-- `ep_idx`, by the address of an entry and the group in it. It is clear until the entry is made.
  -/
  epIdx : Nat → Nat → UInt16
  /-- Not in the code: the calls that returned, the last one last. -/
  calls : List SentCall

/-- The managed element id in a header, up to the byte that ends it. -/
def Mbuf.meid (msg : Mbuf) : Except Fault CStr := do
  let bytes ← msg.tpBuf.strdup HdrField.meid.offset
  return bytes.map fun byte => Char.ofNat byte.toNat

/-- What happens to the route tables. -/
inductive RouterEvent where
  | record (text : CStr) (mem : Mem)
  | send (met : SendMet)

namespace Router

/-- Nothing was sent, and the table is empty. -/
def init : Router where
  ctx := RtCtx.init
  epIdx := fun _ _ => 0
  calls := []

/-- The entry for a message, in the table that is active. -/
def found (router : Router) (msg : Mbuf) : Option Nat :=
  router.ctx.rtable.bind fun rt => router.ctx.utaGetRte rt msg.subId msg.mtype true

/-- The endpoint that owns the managed element of a message, which only an entry without groups asks
for. -/
def owner (router : Router) (entry : Entry) (msg : Mbuf) : Except Fault (Option CStr) :=
  if entry.rrgroups = [] then do
    let meid ← msg.meid
    return router.ctx.rtable.bind fun rt => router.ctx.getMeidOwner rt meid
  else .ok none

/-- `mtosend_msg`. -/
def mtosendMsg (conf : SendConf) (router : Router) (met : SendMet) (draft : Draft) :
    Except Fault (Router × SentCall) :=
  match router.found draft.msg with
  | none => .ok (router, ⟨none, ⟨met.linked, met.outcome, none⟩, [],
    some { draft with msg := { draft.msg with state := .noEndpt } }⟩)
  | some id => do
    let rte ← (router.ctx.rte id).mapError RtFault.toFault
    let owner ← router.owner rte.entry draft.msg
    let net := ⟨met.linked, met.outcome, owner⟩
    let fan ← mtosendRte conf met.left net ⟨rte.entry.rrgroups, router.epIdx id⟩ draft
    return ({ router with epIdx := Function.update router.epIdx id fan.rte.epIdx },
      ⟨some (id, rte.entry.rrgroups), net, fan.attempts, fan.sent⟩)

/-- `rmr_send_msg` and `rmr_mtosend_msg`. -/
def send (conf : SendConf) (router : Router) (met : SendMet) : Except Fault Router := do
  let msg ← (met.draft.msg.unmarkCall conf.order).blotCallId conf.order
  let (router, call) ← router.mtosendMsg conf met { met.draft with msg := msg }
  return { router with calls := router.calls ++ [call] }

/-- One record that is parsed, or one message that is sent. -/
def step (conf : SendConf) (rtConf : RtConf) (router : Router) :
    RouterEvent → Except Fault Router
  | .record text mem => do
    let ctx ← (router.ctx.parseRtRec rtConf mem text).mapError RtFault.toFault
    return { router with ctx := ctx }
  | .send met => router.send conf met

/-- One after the other. -/
def run (conf : SendConf) (rtConf : RtConf) (router : Router) (events : List RouterEvent) :
    Except Fault Router :=
  events.foldlM (fun router event => router.step conf rtConf event) router

end Router

/-- The targets that the loop over the groups comes to: it takes the first slot without a group for
the end of them. -/
def RrEntry.reached (rte : RrEntry) (net : FanNet) : List (Nat × CStr) :=
  if rte.rrgroups = [] then (net.owner.filter (net.linked 0)).toList.map fun ep => (0, ep)
  else fanTargets net rte.epIdx 0 (rte.rrgroups.takeWhile Option.isSome)

/-- How often an entry was used. -/
def usesOf (id : Nat) (calls : List SentCall) : Nat :=
  calls.countP fun call => call.rte.map Prod.fst = some id

/-- Where a call sent the message. -/
def SentCall.targets (call : SentCall) : List (Nat × CStr) :=
  call.attempts.map fun attempt => (attempt.group, attempt.ep)

/-- The groups of an entry as they are after it was used so many times since it was made. -/
def RrEntry.after (rrgroups : List (Option RrGroup)) (uses : Nat) : RrEntry where
  rrgroups := rrgroups
  epIdx := fun _ => UInt16.ofNat uses

end Rmr
