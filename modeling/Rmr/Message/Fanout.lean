import Rmr.Message.Pool
import Rmr.Route.Select

/-! The fan-out of a message: the loop over the groups of a route table entry, with an endpoint
selected in each of them. -/

namespace Rmr

/-- What each round of a fan-out meets. -/
structure FanNet where
  /-- The endpoint has a socket, or can be connected to. -/
  linked : Nat → CStr → Bool
  /-- What sending comes to. -/
  outcome : Nat → SendResult
  /-- `get_meid_owner`: the endpoint that owns the MEID of the message. -/
  owner : Option CStr

/-- A send that was attempted. -/
structure Attempt where
  group : Nat
  ep : CStr
  /-- What was handed to the transport. -/
  bytes : List UInt8
  result : SendResult

/-- Where to send in one round. -/
structure FanChoice where
  rte : RrEntry
  /-- There is another round. -/
  more : Bool
  /-- The endpoint, if it has a socket. -/
  ep : Option CStr

/-- A fault of the route table is one of the program. -/
def RtFault.toFault : RtFault → Fault
  | .nil => .nil
  | .freed => .freed

/-- The choice of an endpoint: this is a round robin entry if groups are listed, and otherwise the
MEID tells. -/
def RrEntry.choose (rte : RrEntry) (net : FanNet) (group : Nat) : Except Fault FanChoice :=
  if 0 < rte.rrgroups.length then do
    let (rte, answer) ← (utaEpsockRr rte group (net.linked group)).mapError RtFault.toFault
    return ⟨rte, answer.more, if answer.state = 0 then none else answer.pick.map Prod.snd⟩
  else .ok ⟨rte, false, net.owner.filter (net.linked group)⟩

/-- What a fan-out comes to. -/
structure FanEnd where
  rte : RrEntry
  /-- The message that comes back. -/
  sent : Option Draft
  /-- Some send but the last one went well. -/
  okSends : Bool
  attempts : List Attempt

/-- A send was attempted before those that followed. -/
def FanEnd.after (fan : FanEnd) (attempt : Attempt) : FanEnd :=
  { fan with attempts := attempt :: fan.attempts }

/-- The loop of `mtosend_msg` from a round on, within so many rounds. -/
def fanLoop (conf : SendConf) (left : Leftover) (net : FanNet) (rte : RrEntry) (draft : Draft)
    (okSends : Bool) (group : Nat) : Nat → Except Fault FanEnd
  | 0 => .error .spin
  | rounds + 1 => do
    let choice ← rte.choose net group
    match choice.ep with
    | none =>
      let draft := { draft with msg := { draft.msg with state := .noEndpt } }
      if choice.more then fanLoop conf left net choice.rte draft okSends (group + 1) rounds
      else return ⟨choice.rte, some draft, okSends, []⟩
    | some ep =>
      let result := net.outcome group
      if choice.more then
        -- Once it is sent the message is not available, so a copy is made of it before.
        let clone ← cloneMsg conf.order left draft
        let msg := { draft.msg with noAlloc := true }
        let bytes ← sendMsg conf msg
        let fan ← match ← trySend conf left { msg := msg, allocs := clone.allocs } result with
          | some _ => fanLoop conf left net choice.rte clone okSends (group + 1) rounds
          | none =>
            let clone := { clone with msg := { clone.msg with state := .ok } }
            fanLoop conf left net choice.rte clone true (group + 1) rounds
        return fan.after ⟨group, ep, bytes, result⟩
      else
        let bytes ← sendMsg conf draft.msg
        let sent ← trySend conf left draft result
        return ⟨choice.rte, sent, okSends, [⟨group, ep, bytes, result⟩]⟩

/-- `mtosend_msg` with the entry that was found in the route table. -/
def mtosendRte (conf : SendConf) (left : Leftover) (net : FanNet) (rte : RrEntry) (draft : Draft) :
    Except Fault FanEnd := do
  let fan ← fanLoop conf left net rte draft false 0 (rte.rrgroups.length + 1)
  return { fan with
    sent := fan.sent.map fun draft => { draft with
      msg := { draft.msg with
        noAlloc := false
        state := if fan.okSends then .ok else draft.msg.state } } }

/-- The endpoint of a group that is selected next. -/
def RrGroup.selected (rrg : RrGroup) (epIdx : UInt16) : Option CStr :=
  (rrg.epts[rrPlace rrg.epts.length epIdx]?).join

/-- The groups from one on whose selected endpoint has a socket, with that endpoint. -/
def fanTargets (net : FanNet) (epIdx : Nat → UInt16) : Nat → List (Option RrGroup) →
    List (Nat × CStr)
  | _, [] => []
  | group, slot :: slots =>
    let ep := slot.bind fun rrg => (rrg.selected (epIdx group)).filter (net.linked group)
    (ep.toList.map fun ep => (group, ep)) ++ fanTargets net epIdx (group + 1) slots

/-- All those of an entry; the owner of the MEID where it lists no groups. -/
def RrEntry.targets (rte : RrEntry) (net : FanNet) : List (Nat × CStr) :=
  if rte.rrgroups = [] then (net.owner.filter (net.linked 0)).toList.map fun ep => (0, ep)
  else fanTargets net rte.epIdx 0 rte.rrgroups

/-- What a message is sent as, from the header on. -/
def Mbuf.carried (conf : SendConf) (msg : Mbuf) : Option (List UInt8) :=
  (sendMsg conf msg).toOption.map fun bytes => bytes.drop tpHdrLen

/-- A message was fanned out to targets. -/
structure FansOut (conf : SendConf) (net : FanNet) (msg : Mbuf) (targets : List (Nat × CStr))
    (fan : FanEnd) : Prop where
  /-- There is one attempt for each of them, in their order. -/
  each : fan.attempts.map (fun attempt => (attempt.group, attempt.ep)) = targets
  /-- Each comes to what sending comes to in its group. -/
  outcome : ∀ attempt ∈ fan.attempts, attempt.result = net.outcome attempt.group
  /-- Each carries the message. -/
  same : ∀ attempt ∈ fan.attempts, some (attempt.bytes.drop tpHdrLen) = msg.carried conf
  /-- Nothing comes back, or a message whose state is good, if and only if some attempt went well.
  -/
  told : (∀ draft ∈ fan.sent, draft.msg.state = .ok) ↔
    ∃ attempt ∈ fan.attempts, attempt.result = .ok
  /-- Nothing comes back only where that was asked for, and the last attempt went well. -/
  nothing : fan.sent = none →
    msg.noAlloc = true ∧ ∃ attempt ∈ fan.attempts.getLast?, attempt.result = .ok

/-- The length of a message and its headers, or that of its buffer if that is less, is a number of
bytes that the buffer has. -/
structure Mbuf.Shippable (order : ByteOrder) (msg : Mbuf) : Prop where
  allocLen : 0 ≤ msg.allocLen
  length : 0 ≤ toInt (toUint (msg.len + rmrHdrLen order msg.tpBuf + tpHdrLen))
  held : min msg.allocLen (toInt (toUint (msg.len + rmrHdrLen order msg.tpBuf + tpHdrLen))) ≤
    msg.tpBuf.size

/-- The bytes of the headers that `clone_msg` copies: the parts behind the header proper are counted
twice. -/
def Mbuf.cloneCount (order : ByteOrder) (msg : Mbuf) : Nat :=
  toUint ((rmrHdrLen order msg.tpBuf : Int) + rmrTrLen order msg.tpBuf + rmrD1Len order msg.tpBuf +
    rmrD2Len order msg.tpBuf)

/-- A message that `clone_msg` has room for, in its buffer as in the copy. -/
structure Mbuf.Clonable (order : ByteOrder) (msg : Mbuf) : Prop where
  hdrHeld : tpHdrLen + msg.cloneCount order ≤ msg.tpBuf.size
  hdrRoom : (msg.cloneCount order : Int) ≤ msg.allocLen
  len : 0 ≤ msg.len
  payloadHeld : msg.payload + msg.len ≤ msg.tpBuf.size
  payloadRoom : msg.payload + msg.len ≤ msg.allocLen + tpHdrLen

end Rmr
