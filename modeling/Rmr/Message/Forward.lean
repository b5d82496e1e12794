import Rmr.Message.Api
import Rmr.Message.Fanout

/-! A message that was received, sent on to others as it is. -/

namespace Rmr

/-- The message that an application gets of what `buf2mbuf` found: off the ring `rmr_mt_rcv` sees to
it that the source is put in when it is sent. -/
def Delivery.given : Delivery → Option Mbuf
  | .dropped => none
  | .normal mbuf => some { mbuf with addSrc := true }
  | .chute _ mbuf => some mbuf

/-- How a message is sent on, and what that comes to. -/
inductive Forward where
  /-- `rmr_send_msg` or `rmr_mtosend_msg`. -/
  | send (groups : List (Option SendResult))
  /-- `rmr_wh_send_msg`. -/
  | whSend (wormhole : Wormhole)

namespace Forward

/-- The frames that are sent. -/
def frames (conf : SendConf) (left : Leftover) (draft : Draft) :
    Forward → Except Fault (List (List UInt8))
  | .send groups => rmrSendFrames conf left draft groups
  | .whSend wormhole => rmrWhSendFrames conf draft wormhole

/-- The message that comes back, if there is one. -/
def sent (conf : SendConf) (left : Leftover) (draft : Draft) :
    Forward → Except Fault (Option Draft)
  | .send groups => rmrSendMsg conf left draft groups
  | .whSend wormhole => rmrWhSendMsg conf left draft wormhole

end Forward

/-- A frame has the payload of a message behind headers of the same lengths. -/
structure Mbuf.Carries (msg : Mbuf) (frame : List UInt8) : Prop where
  lens : (frame.drop HdrField.len0.offset).take 16 = msg.tpBuf.slice HdrField.len0.offset 16
  payload : frame.drop msg.payload = msg.payloadBytes

/-- What a message says is as it was, also its trace data. -/
structure Mbuf.Unsent (order : ByteOrder) (msg next : Mbuf) : Prop where
  payload : next.payloadBytes = msg.payloadBytes
  len : next.len = msg.len
  mtype : next.mtype = msg.mtype
  subId : next.subId = msg.subId
  trace : next.traceBytes order = msg.traceBytes order

/-- A message is sent on as it is: each frame carries its payload, and what comes back from a send
that failed says the same. -/
structure Forwards (conf : SendConf) (left : Leftover) (draft : Draft)
    (forward : Forward) : Prop where
  carried : ∃ frames, forward.frames conf left draft = .ok frames ∧
    ∀ frame ∈ frames, draft.msg.Carries frame
  unsent : ∃ back, forward.sent conf left draft = .ok back ∧
    ∀ next ∈ back, next.msg.state ≠ .ok → draft.msg.Unsent conf.order next.msg

/-- The ways there are to send a message on. -/
inductive Way where
  /-- `rmr_wh_send_msg` with an id that no open wormhole has. -/
  | refused
  /-- `rmr_wh_send_msg` to a wormhole. -/
  | wormhole
  /-- `rmr_send_msg` or `rmr_mtosend_msg` where the route has one group of endpoints at most. -/
  | single
  /-- `rmr_send_msg` or `rmr_mtosend_msg` whatever the route is. -/
  | routed
  deriving DecidableEq

namespace Way

/-- What may come of a way, as far as the route and the transport decide about it. -/
def Meets : Way → Forward → Prop
  | .refused, .whSend target => target = .noneOpen ∨ target = .invalid
  | .wormhole, .whSend target => ∃ result, target = .open_ result
  | .single, .send groups => groups.length ≤ 1
  | .routed, .send _ => True
  | _, _ => False

/-- A message that is sent on in a way is sent on as it is, whatever comes of it, and whatever is
left over in memory that is allocated. -/
def Preserves (conf : SendConf) (way : Way) (msg : Mbuf) : Prop :=
  ∀ (left : Leftover) (allocs : Nat) (forward : Forward), way.Meets forward →
    Forwards conf left ⟨msg, allocs⟩ forward

end Way

/-- The byte that is written to a place with a field, if the place is one of the bytes written. -/
def fieldByte (field : HdrField) (bytes : List UInt8) (place : Nat) : Option UInt8 :=
  if field.offset ≤ place then bytes[place - field.offset]? else none

/-- The byte that `zt_buf_fill` writes to a place with a source field. -/
def sourceByte (field : HdrField) (src : List UInt8) (place : Nat) : Option UInt8 :=
  fieldByte field (src.take (rmrMaxSrc - 1) ++ [0]) place

/-- The byte that is written to a place with a number in network order. -/
def netByte (field : HdrField) (value : Int) (place : Nat) : Option UInt8 :=
  fieldByte field (bytes32 .big (toUint value)) place

/-- What `send_msg` writes to each place of the header. -/
def Mbuf.stamp (conf : SendConf) (msg : Mbuf) (place : Nat) : Option UInt8 :=
  (if msg.addSrc then sourceByte .srcip conf.myIp place <|> sourceByte .src conf.myName place
    else none) <|>
  netByte .plen msg.len place <|> netByte .subId msg.subId place <|> netByte .mtype msg.mtype place

/-- Where the byte with the call flag is: the flags are stored in the order of the host. -/
def callFlagAt : ByteOrder → Nat
  | .little => HdrField.flags.offset
  | .big => HdrField.flags.offset + 3

/-- What is written to each place before `send_msg` is called: no call id, and no call flag but for
a wormhole. -/
def Way.clear (way : Way) (order : ByteOrder) (msg : Mbuf) (place : Nat) : Option UInt8 :=
  if place = data1Addr order msg.tpBuf then some 0
  else if way ≠ .wormhole ∧ place = callFlagAt order then
    some (msg.tpBuf.byte place - (msg.tpBuf.byte place &&& UInt8.ofNat hflCallMsg))
  else none

/-- A place is one of the lengths in the header, of the trace data or of the payload. -/
def Mbuf.Part (order : ByteOrder) (msg : Mbuf) (place : Nat) : Prop :=
  (HdrField.len0.offset ≤ place ∧ place < HdrField.len3.offset + 4) ∨
    (traceAddr order msg.tpBuf ≤ place ∧
      place < traceAddr order msg.tpBuf + rmrTrLen order msg.tpBuf) ∨
    (msg.payload ≤ place ∧ place < msg.payload + msg.len.toNat)

instance (order : ByteOrder) (msg : Mbuf) (place : Nat) : Decidable (msg.Part order place) :=
  inferInstanceAs (Decidable (_ ∨ _))

/-- What is written to a place on the way is there anyway. -/
def Way.Spares (conf : SendConf) (way : Way) (msg : Mbuf) (place : Nat) : Prop :=
  (∀ byte ∈ way.clear conf.order msg place, msg.tpBuf.byte place = byte) ∧
    ∀ byte ∈ msg.stamp conf place, msg.tpBuf.byte place = byte

instance (conf : SendConf) (way : Way) (msg : Mbuf) (place : Nat) :
    Decidable (way.Spares conf msg place) :=
  inferInstanceAs (Decidable (_ ∧ _))

/-- What it takes for a message to be sent on as it is. -/
structure Way.Fits (conf : SendConf) (way : Way) (msg : Mbuf) : Prop where
  /-- The place of a call id is in the buffer. -/
  inside : data1Addr conf.order msg.tpBuf < msg.tpBuf.size
  /-- The payload ends in the buffer, behind the lengths in the header. -/
  ends : 0 < msg.len → (HdrField.len3.offset + 4 : Int) ≤ msg.payload + msg.len ∧
    msg.payload + msg.len ≤ msg.allocLen
  /-- Without a payload, the headers are as long as that, in 32 bits. -/
  headed : msg.len ≤ 0 → (HdrField.len3.offset + 4 : Int) ≤ toInt (msg.payload + msg.len)
  /-- What is cleared in a part of the message is clear anyway, or, for a wormhole, it is written to
  after that. -/
  cleared : ∀ place, msg.Part conf.order place →
    (way = .wormhole → msg.stamp conf place = none) →
    ∀ byte ∈ way.clear conf.order msg place, msg.tpBuf.byte place = byte
  /-- What `send_msg` writes to a part of the message is there anyway. -/
  stamped : ∀ place, msg.Part conf.order place →
    ∀ byte ∈ msg.stamp conf place, msg.tpBuf.byte place = byte
  /-- Where a clone may be needed there is room for it, and the lengths are copied with the header.
  -/
  clones : way = .routed → msg.Clonable conf.order ∧
    HdrField.len3.offset + 4 ≤ tpHdrLen + msg.cloneCount conf.order

end Rmr
