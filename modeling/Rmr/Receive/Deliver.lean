import Rmr.Receive.River
import Rmr.Message.Mbuf

/-! From accumulated frames to the messages that an application receives. -/

namespace Rmr

/-- What `buf2mbuf` does with a raw message. -/
inductive Delivery where
  /-- The header tells of more than the buffer can hold; the message is dropped. -/
  | dropped
  /-- The message is for the ring that normal messages are queued on. -/
  | normal (mbuf : Mbuf)
  /-- The message answers a call, and goes to the chute of that call. -/
  | chute (callId : UInt8) (mbuf : Mbuf)

/-- The message that was delivered, wherever it went. -/
def Delivery.mbuf? : Delivery → Option Mbuf
  | .dropped => none
  | .normal mbuf => some mbuf
  | .chute _ mbuf => some mbuf

/-- The cross-check of the length indicators in the header with the size of the message. -/
def lengthsFit (order : ByteOrder) (rawMsg : Block) (msgSize : Int) : Prop :=
  toUint ((rmrHdrLen order rawMsg : Int) + tpHdrLen + hdrGet order rawMsg .plen) ≤
    toUint msgSize

instance (order : ByteOrder) (rawMsg : Block) (msgSize : Int) :
    Decidable (lengthsFit order rawMsg msgSize) :=
  inferInstanceAs (Decidable (_ ≤ _))

/-- `buf2mbuf`: point a message buffer at a raw message, and find out where it goes. -/
def buf2mbuf (conf : RcvConf) (rawMsg : Block) (msgSize senderFd : Int) :
    Except Fault Delivery :=
  if ¬ lengthsFit conf.order rawMsg msgSize then .ok .dropped
  else do
    let mbuf := { Mbuf.alloc rawMsg .unset with
      rtsFd := senderFd
      huge := conf.usual < msgSize }
    let mbuf ← mbuf.refTpbuf conf.order msgSize
    -- The flags are not converted to network order.
    if rawMsg.get32 conf.order HdrField.flags.offset &&& hflCallMsg ≠ 0 then
      return .normal mbuf
    else if rmrD1Len conf.order rawMsg = 0 then
      return .normal mbuf
    else if rawMsg.size ≤ data1Addr conf.order rawMsg then
      .error .range
    else if rawMsg.byte (data1Addr conf.order rawMsg) = 0 then
      return .normal mbuf
    else
      return .chute (rawMsg.byte (data1Addr conf.order rawMsg)) mbuf

/-- How many messages the ring of 4096 elements can hold. -/
def mringRoom : Nat := 4095

/-- What became of a frame. -/
inductive Outcome where
  | dropped
  /-- The ring was full, and the message was freed. -/
  | full
  | queued (mbuf : Mbuf)
  | chute (callId : UInt8) (mbuf : Mbuf)

/-- The receive side with what it delivers to, and a log of what became of each frame. -/
structure Dlv where
  rcv : Rcv
  /-- `mring`: messages for the application, the oldest first. -/
  mring : List Mbuf
  /-- `chutes`: where callers wait for the answer to their call. -/
  chutes : UInt8 → Option Mbuf
  log : List Outcome

/-- Nothing has been delivered. -/
def Dlv.init : Dlv where
  rcv := Rcv.init
  mring := []
  chutes := fun _ => none
  log := []

/-- `queue_normal`: a message is dropped when the ring is full. -/
def Dlv.queueNormal (dlv : Dlv) (mbuf : Mbuf) : Dlv :=
  if dlv.mring.length < mringRoom then
    { dlv with mring := dlv.mring ++ [mbuf], log := dlv.log ++ [.queued mbuf] }
  else
    { dlv with log := dlv.log ++ [.full] }

/-- One call of `buf2mbuf`, with its effects. -/
def Dlv.deliver (conf : RcvConf) (dlv : Dlv) (call : Call) : Except Fault Dlv := do
  match ← buf2mbuf conf call.rawMsg call.msgSize call.fd with
  | .dropped => return { dlv with log := dlv.log ++ [.dropped] }
  | .normal mbuf => return dlv.queueNormal mbuf
  | .chute callId mbuf =>
    return { dlv with
      chutes := Function.update dlv.chutes callId (some mbuf)
      log := dlv.log ++ [.chute callId mbuf] }

/-- What may happen next: a step of the receive thread, or the application takes a message. -/
inductive DlvStep where
  | thread (step : RcvStep)
  | take

/-- The calls made by a step of the receive thread. -/
def Rcv.handed (before after : Rcv) : List Call := after.calls.drop before.calls.length

/-- One step. -/
def Dlv.step (conf : RcvConf) (left : Leftover) (dlv : Dlv) : DlvStep → Except Fault Dlv
  | .thread step => do
    let next ← dlv.rcv.step conf left step
    (dlv.rcv.handed next).foldlM (fun dlv call => dlv.deliver conf call) { dlv with rcv := next }
  | .take => return { dlv with mring := dlv.mring.drop 1 }

/-- A run from the start. -/
def Dlv.run (conf : RcvConf) (left : Leftover) (steps : List DlvStep) : Except Fault Dlv :=
  steps.foldlM (fun dlv step => dlv.step conf left step) Dlv.init

end Rmr
