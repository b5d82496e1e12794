import Rmr.Message.Forward
import Rmr.Proofs.Message.Fanout
import Rmr.Proofs.Message.Kin

/-! A message that was received, what it is like when all of it is in its buffer, and what a send
clears in it first. -/

namespace Rmr

/-- A message that is all in its buffer, by its own lengths. -/
structure Mbuf.Inside (order : ByteOrder) (msg : Mbuf) : Prop extends msg.Framed order where
  nonneg : 0 ≤ msg.len
  room : (msg.payload : Int) + msg.len ≤ msg.allocLen
  held : msg.allocLen ≤ msg.tpBuf.size


section
variable {order : ByteOrder} {msg silent : Mbuf}

/-- Such a message can be sent. -/
theorem Mbuf.Inside.shippable (inside : msg.Inside order) : msg.Shippable order := by
  -- The message has all the room that it says, and its length is within that.
  have nonneg := inside.nonneg
  have room := inside.room
  have held := inside.held
  rw [shippable_iff, Mbuf.totLen_whole inside.toFramed nonneg room]
  omega

/-- It is whole as far as a send looks at it. -/
theorem Mbuf.Inside.whole (inside : msg.Inside order) : tpHdrLen + mhdrLen ≤ msg.tpBuf.size := by
  -- The payload starts behind both headers, and within the buffer.
  have behind := inside.behind
  have nonneg := inside.nonneg
  have room := inside.room
  have held := inside.held
  simp only [tpHdrLen, mhdrLen]
  omega

/-- A message in which the byte at the place of a call id was cleared, and perhaps its flags. -/
structure Mbuf.Blotted (msg silent : Mbuf) : Prop where
  alike : silent.Alike msg
  mtype : silent.mtype = msg.mtype
  subId : silent.subId = msg.subId
  size : silent.tpBuf.size = msg.tpBuf.size

/-- The call id is blotted out within the buffer exactly if its place is there. -/
theorem blotCallId_iff :
    (∃ silent, msg.blotCallId order = .ok silent) ↔ data1Addr order msg.tpBuf < msg.tpBuf.size := by
  -- The byte is written with one `memcpy` of length 1, which is in bounds exactly there.
  constructor
  · intro blots
    obtain ⟨silent, made⟩ := blots
    obtain ⟨filled, filledIs, -⟩ := bind_eq_ok.mp made
    obtain ⟨⟨-, -, inside, -, -⟩, -⟩ := Block.memcpy_inside filledIs
    omega
  · intro inside
    exact ⟨_, bind_eq_ok.mpr ⟨_, Block.memcpy_ok _ _ (Block.ofList [0]) 0 1 inside (Nat.le_refl 1),
      rfl⟩⟩

/-- The call id of a message that is sent is blotted out exactly if its place is in the buffer. -/
theorem unmarkCall_blot_iff (order : ByteOrder) (msg : Mbuf) :
    (∃ silent, (msg.unmarkCall order).blotCallId order = .ok silent) ↔
      data1Addr order msg.tpBuf < msg.tpBuf.size := by
  rw [blotCallId_iff, (data1_congr order (unmarkCall_alike order msg).keeps.lens).2]
  rfl

/-- What `rmr_send_msg` blots out, with the call flag. -/
theorem unmarkCall_blotted (framed : msg.Framed order)
    (made : (msg.unmarkCall order).blotCallId order = .ok silent) : msg.Blotted silent := by
  -- Neither of the two bytes is one of the lengths.
  have alike := unmarkCall_alike order msg
  have blotted := blotCallId_alike (alike.framed framed) made
  obtain ⟨filled, filledIs, made⟩ := bind_eq_ok.mp made
  cases made
  obtain ⟨-, rfl⟩ := Block.memcpy_inside filledIs
  exact ⟨blotted.trans alike, rfl, rfl, rfl⟩

/-- It is all in its buffer, too. -/
theorem Mbuf.Blotted.inside (blotted : msg.Blotted silent) (inside : msg.Inside order) :
    silent.Inside order where
  toFramed := blotted.alike.framed inside.toFramed
  nonneg := blotted.alike.len ▸ inside.nonneg
  room := by
    rw [blotted.alike.payload, blotted.alike.len, blotted.alike.allocLen]
    exact inside.room
  held := by
    rw [blotted.alike.allocLen, blotted.size]
    exact inside.held

/-- It can be cloned if and only if the message can. -/
theorem Mbuf.Blotted.clonable (blotted : msg.Blotted silent) :
    silent.Clonable order ↔ msg.Clonable order := by
  -- The lengths in the header are the same, and so are the sizes of the buffer.
  have count := cloneCount_congr order blotted.alike.keeps.lens
  constructor
  · intro clones
    obtain ⟨hdrHeld, hdrRoom, len, payloadHeld, payloadRoom⟩ := clones
    rw [count, blotted.size] at hdrHeld
    rw [count, blotted.alike.allocLen] at hdrRoom
    rw [blotted.alike.len] at len
    rw [blotted.alike.payload, blotted.alike.len, blotted.size] at payloadHeld
    rw [blotted.alike.payload, blotted.alike.len, blotted.alike.allocLen] at payloadRoom
    exact ⟨hdrHeld, hdrRoom, len, payloadHeld, payloadRoom⟩
  · intro clones
    obtain ⟨hdrHeld, hdrRoom, len, payloadHeld, payloadRoom⟩ := clones
    refine ⟨?_, ?_, ?_, ?_, ?_⟩
    · rwa [count, blotted.size]
    · rwa [count, blotted.alike.allocLen]
    · rwa [blotted.alike.len]
    · rwa [blotted.alike.payload, blotted.alike.len, blotted.size]
    · rwa [blotted.alike.payload, blotted.alike.len, blotted.alike.allocLen]

/-- A message that was received is its frame, as its header tells of it. -/
theorem given_made {conf : RcvConf} {rawMsg : Block} {msgSize fd : Int} {delivery : Delivery}
    (handed : buf2mbuf conf rawMsg msgSize fd = .ok delivery) (given : delivery.given = some msg) :
    msg.tpBuf = rawMsg ∧ msg.payload = payloadAddr conf.order rawMsg ∧ msg.allocLen = msgSize ∧
      InInt msg.len := by
  -- The message is the one that was delivered, but perhaps for a flag.
  have same : ∃ mbuf, delivery.mbuf? = some mbuf ∧ msg.tpBuf = mbuf.tpBuf ∧
      msg.payload = mbuf.payload ∧ msg.allocLen = mbuf.allocLen ∧ msg.len = mbuf.len := by
    cases delivery with
    | dropped => cases given
    | normal mbuf =>
      cases given
      exact ⟨mbuf, rfl, rfl, rfl, rfl, rfl⟩
    | chute callId mbuf =>
      cases given
      exact ⟨msg, rfl, rfl, rfl, rfl, rfl⟩
  obtain ⟨mbuf, is, tpBufIs, payloadIs, allocLenIs, lenIs⟩ := same
  obtain ⟨-, made⟩ := buf2mbuf_made handed is
  obtain ⟨tpBuf, payload, len⟩ := Mbuf.refTpbuf_found made
  refine ⟨tpBufIs.trans tpBuf, payloadIs.trans payload,
    allocLenIs.trans (Mbuf.refTpbuf_allocLen made), ?_⟩
  obtain ⟨space, spaceIs, -⟩ := bind_eq_ok.mp made
  obtain ⟨fits, -⟩ := subInt_eq_ok spaceIs
  rw [lenIs, len]
  exact min_rec (fun _ => inInt_toInt _) (fun _ => fits)

/-- A message that was received, with all of its parts in its frame, is all in its buffer. -/
theorem given_inside {rcvConf : RcvConf} {rawMsg : Block} {msgSize fd : Int} {delivery : Delivery}
    (handed : buf2mbuf rcvConf rawMsg msgSize fd = .ok delivery) (given : delivery.given = some msg)
    (inFrame : InFrame rcvConf.order msgSize msg) (held : msgSize ≤ rawMsg.size)
    (small : (rawMsg.size : Int) ≤ intMax) : msg.Inside rcvConf.order := by
  -- The parts end in the frame, and the frame in its raw message.
  obtain ⟨tpBuf, payload, allocLen, -⟩ := given_made handed given
  rw [← tpBuf] at payload held small
  obtain ⟨nonneg, len0, area⟩ := (inFrame_iff rfl payload).mp inFrame
  change msg.payload = (lengthsIn rcvConf.order msg.tpBuf).start at payload
  rw [← payload] at area
  have behind : tpHdrLen + mhdrLen ≤ msg.payload := inFrame.payload.1
  simp only [intMax] at small
  exact {
    inInt := by
      rw [allocLen]
      exact ⟨by simp only [intMin]; omega, by simp only [intMax]; omega⟩
    headed := ⟨len0, payload, by simp only [tpHdrLen]; omega⟩
    near := by
      simp only [intMax, tpHdrLen]
      omega
    nonneg := nonneg
    room := by
      rw [allocLen]
      exact area
    held := by
      rw [allocLen]
      exact held }

end

/-- A frame with data 1 of some length, none of it set, and a payload. -/
def forwardFrame (d1Len : Nat) (payload : List UInt8) : Block :=
  let hdr := Block.ofList (List.replicate (tpHdrLen + mhdrLen + d1Len) 0 ++ payload)
  let hdr := hdr.setNet32 .little HdrField.len0.offset mhdrLen
  let hdr := hdr.setNet32 .little HdrField.len2.offset d1Len
  hdr.setNet32 .little HdrField.plen.offset payload.length

end Rmr
