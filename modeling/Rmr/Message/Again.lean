import Rmr.Message.Returns

/-! A message that is returned to its sender, and returned again. -/

namespace Rmr

/-- `rmr_rts_msg` again and again with what it gives back, with no endpoint to send to or with what
sending comes to. -/
def rtsCalls (conf : SendConf) (left : Leftover) (draft : Draft) :
    List (Option SendResult) → Except Fault (Option Draft)
  | [] => .ok (some draft)
  | result :: results => do
    match ← rmrRtsMsg conf left draft result with
    | none => return none
    | some next => rtsCalls conf left next results

/-- A string ends within its source field. -/
structure Holds (tpBuf : Block) (start : Nat) (str : List UInt8) : Prop where
  ended : 0 ∉ str
  short : str.length < rmrMaxSrc
  room : start + str.length + 1 ≤ tpBuf.size
  bytes : tpBuf.slice start (str.length + 1) = str ++ [0]

/-- The source of a message is a name and an address. -/
structure Mbuf.From (msg : Mbuf) (src ip : List UInt8) : Prop where
  src : Holds msg.tpBuf HdrField.src.offset src
  ip : Holds msg.tpBuf HdrField.srcip.offset ip

/-- What `rmr_rts_msg` could not return is as it was. -/
structure Mbuf.Intact (msg next : Mbuf) : Prop where
  payload : next.payloadBytes = msg.payloadBytes
  len : next.len = msg.len
  mtype : next.mtype = msg.mtype
  subId : next.subId = msg.subId
  xaction : next.tpBuf.slice HdrField.xid.offset rmrMaxXid =
    msg.tpBuf.slice HdrField.xid.offset rmrMaxXid
  meid : next.tpBuf.slice HdrField.meid.offset rmrMaxMeid =
    msg.tpBuf.slice HdrField.meid.offset rmrMaxMeid

/-- The descriptor that `rmr_rts_msg` sends on: that of the source by name, the one that the message
came with, or that of the source by address, whatever looking an endpoint up comes to and does. -/
def rtsSock {σ : Type*} (order : ByteOrder) (byName byAddr : σ → CStr → σ × Option Int) (state : σ)
    (msg : Mbuf) : σ × Option Int :=
  let found := byName state (msg.tpBuf.name HdrField.src.offset)
  match found.2 with
  | some _ => found
  | none =>
    match msg.rtsTurn order with
    | .fd sock => (found.1, some sock)
    | .addr => byAddr found.1 (msg.tpBuf.name HdrField.srcip.offset)
    | .noEndpt => (found.1, none)

/-- Returning a message can be tried again: the message that comes back is from the same source, and
it is sent on the descriptor that the message was to be sent on, unless a send went well and the
source is not reached by its name. -/
structure Mbuf.Retried (order : ByteOrder) (msg : Mbuf) (results : List (Option SendResult))
    (src ip : List UInt8) (next : Mbuf) : Prop extends next.From src ip where
  aims : ∀ (σ : Type) (byName byAddr : σ → CStr → σ × Option Int) (state : σ), some .ok ∉ results ∨
    (byName state (msg.tpBuf.name HdrField.src.offset)).2 ≠ none →
    rtsSock order byName byAddr state next = rtsSock order byName byAddr state msg

end Rmr
