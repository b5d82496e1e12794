import Rmr.Proofs.Message.Blot

/-! Sending on a message that was received: when its payload arrives as it was. -/

namespace Rmr

section
variable {order : ByteOrder} {conf : SendConf} {msg other silent : Mbuf} {way : Way}

/-- A byte that may be written twice is read through both writes. -/
theorem getD_orElse (first second : Option UInt8) (byte : UInt8) :
    (first <|> second).getD byte = first.getD (second.getD byte) := by
  -- The later write hides the earlier one.
  cases first with
  | none => rfl
  | some _ => rfl

/-- What is read where bytes were written with a field. -/
theorem overlay_field (block : Block) (field : HdrField) {bytes : List UInt8} {count : Nat}
    (all : bytes.length = count) (place : Nat) :
    (block.overlay field.offset (Block.ofList bytes) 0 count).byte place =
      (fieldByte field bytes place).getD (block.byte place) := by
  -- A place is in front of the field, within the bytes that were written, or behind them.
  simp only [Block.overlay, fieldByte, Block.ofList, Nat.zero_add]
  by_cases after : field.offset ≤ place
  · by_cases within : place < field.offset + count
    · have inside : place - field.offset < bytes.length := by omega
      simp [after, within, inside]
    · have outside : bytes.length ≤ place - field.offset := by omega
      simp [after, within, List.getElem?_eq_none outside]
  · simp [after]

/-- What is read after a number was put into a field. -/
theorem hdrSet_byte (order : ByteOrder) (block : Block) (field : HdrField) (value : Int)
    (place : Nat) :
    (hdrSet order block field value).byte place =
      (netByte field value place).getD (block.byte place) := by
  rw [hdrSet, Block.setNet32, Block.put32, bytes32_htonl, netByte]
  exact overlay_field block field (bytes32_length _ _) place

/-- What is read after a source field was filled. -/
theorem ztBufFill_byte (block : Block) (field : HdrField) (src : List UInt8) (place : Nat) :
    (ztBufFill block field.offset src rmrMaxSrc).byte place =
      (sourceByte field src place).getD (block.byte place) := by
  rw [ztBufFill, sourceByte]
  exact overlay_field block field (by simp) place

/-- What is read after `send_msg` has put the message into shape. -/
theorem prepare_stamp (conf : SendConf) (msg : Mbuf) (place : Nat) :
    (prepare conf msg).tpBuf.byte place =
      (msg.stamp conf place).getD (msg.tpBuf.byte place) := by
  -- The last of the fields is the one that is read.
  simp only [prepare, Mbuf.stamp]
  by_cases added : msg.addSrc = true
  · simp only [added, if_true, fillSource, getD_orElse, ztBufFill_byte, hdrSet_byte]
  · simp only [added, if_false, getD_orElse, hdrSet_byte, Bool.false_eq_true, Option.getD_none]

/-- The size of a message is written to its transport header only. -/
theorem insertMlen_byte (order : ByteOrder) (len : Nat) (block : Block) {place : Nat}
    (behind : tpHdrLen ≤ place) : (insertMlen order len block).byte place = block.byte place := by
  have outside : ¬ (0 ≤ place ∧ place < 0 + 13) := by
    simp only [tpHdrLen] at behind
    omega
  exact if_neg outside

/-- Messages that say the same in these fields are put into shape in the same way. -/
theorem stamp_congr (mtype : other.mtype = msg.mtype) (subId : other.subId = msg.subId)
    (len : other.len = msg.len) (addSrc : other.addSrc = msg.addSrc) (place : Nat) :
    other.stamp conf place = msg.stamp conf place := by
  rw [Mbuf.stamp, Mbuf.stamp, mtype, subId, len, addSrc]

/-- Nothing is written with a field to a place that is not in it. -/
theorem fieldByte_none {field : HdrField} {bytes : List UInt8} {place : Nat}
    (apart : place < field.offset ∨ field.offset + bytes.length ≤ place) :
    fieldByte field bytes place = none := by
  -- The place is below the field, or behind its bytes.
  unfold fieldByte
  split
  · exact List.getElem?_eq_none (by omega)
  · rfl

/-- The lengths in the header are not written to. -/
theorem stamp_lens (conf : SendConf) (msg : Mbuf) {place : Nat}
    (after : HdrField.len0.offset ≤ place) (before : place < HdrField.len3.offset + 4) :
    msg.stamp conf place = none := by
  -- Every word and both source fields end in front of the lengths, or start behind them.
  simp only [HdrField.offset, tpHdrLen] at after before
  have word : ∀ {field : HdrField} (value : Int),
      place < field.offset ∨ field.offset + 4 ≤ place → netByte field value place = none := by
    intro field value apart
    exact fieldByte_none (by rwa [bytes32_length])
  have source : sourceByte .src conf.myName place = none := by
    apply fieldByte_none
    have short := List.length_take_le (rmrMaxSrc - 1) conf.myName
    simp only [HdrField.offset, tpHdrLen, rmrMaxSrc, List.length_append, List.length_singleton]
      at short ⊢
    omega
  have sourceIp : sourceByte .srcip conf.myIp place = none := by
    apply fieldByte_none
    simp only [HdrField.offset, tpHdrLen]
    omega
  rw [Mbuf.stamp, source, sourceIp, word _ (by simp only [HdrField.offset, tpHdrLen]; omega),
    word _ (by simp only [HdrField.offset, tpHdrLen]; omega),
    word _ (by simp only [HdrField.offset, tpHdrLen]; omega)]
  split
  · rfl
  · rfl

/-- One bit of a number. -/
theorem and_hflCallMsg_eq (word : Nat) : word &&& hflCallMsg = 4 * (word / 4 % 2) := by
  -- The flag is the bit of weight 4, which is there or not.
  have bit := Nat.and_two_pow word 2
  rw [show (2 : Nat) ^ 2 = hflCallMsg from rfl] at bit
  rw [bit, Nat.testBit_eq_decide_div_mod_eq]
  by_cases one : word / 2 ^ 2 % 2 = 1
  · simp only [one, decide_true, Bool.toNat_true, hflCallMsg]
    omega
  · simp only [one, decide_false, Bool.toNat_false]
    omega

/-- Turning the call flag off is a matter of one byte. -/
theorem bytesLe_unflag (b0 b1 b2 b3 : UInt8) :
    bytesLe (wordLe [b0, b1, b2, b3] - (wordLe [b0, b1, b2, b3] &&& hflCallMsg)) =
      [b0 - (b0 &&& UInt8.ofNat hflCallMsg), b1, b2, b3] := by
  -- The flag is in the lowest byte, which is no less than it, so that nothing is borrowed.
  have low := b0.toNat_lt
  have next := b1.toNat_lt
  have third := b2.toNat_lt
  have high := b3.toNat_lt
  have flag : (b0 &&& UInt8.ofNat hflCallMsg).toNat = 4 * (b0.toNat / 4 % 2) := by
    rw [UInt8.toNat_and]
    exact and_hflCallMsg_eq b0.toNat
  have less : b0 &&& UInt8.ofNat hflCallMsg ≤ b0 := by
    rw [UInt8.le_iff_toNat_le, flag]
    omega
  have first : (b0 - (b0 &&& UInt8.ofNat hflCallMsg)).toNat =
      b0.toNat - 4 * (b0.toNat / 4 % 2) := by
    rw [UInt8.toNat_sub_of_le _ _ less, flag]
  rw [and_hflCallMsg_eq]
  simp only [wordLe, bytesLe, List.cons.injEq, and_true]
  refine ⟨UInt8.toNat.inj ?_, UInt8.toNat.inj ?_, UInt8.toNat.inj ?_, UInt8.toNat.inj ?_⟩
  · rw [first, UInt8.toNat_ofNat']
    omega
  · rw [UInt8.toNat_ofNat']
    omega
  · rw [UInt8.toNat_ofNat']
    omega
  · rw [UInt8.toNat_ofNat']
    omega

/-- What is read after the call flag was turned off. -/
theorem unmarkCall_byte (order : ByteOrder) (msg : Mbuf) (place : Nat) :
    (msg.unmarkCall order).tpBuf.byte place =
      if place = callFlagAt order then
        msg.tpBuf.byte place - (msg.tpBuf.byte place &&& UInt8.ofNat hflCallMsg)
      else msg.tpBuf.byte place := by
  -- The flag is in the lowest byte of a word in the order of the host.
  have four : msg.tpBuf.slice HdrField.flags.offset 4 =
      [msg.tpBuf.byte 242, msg.tpBuf.byte 243, msg.tpBuf.byte 244, msg.tpBuf.byte 245] := rfl
  have bytes : bytes32 order (msg.tpBuf.get32 order HdrField.flags.offset -
      (msg.tpBuf.get32 order HdrField.flags.offset &&& hflCallMsg)) =
      [242, 243, 244, 245].map fun place => if place = callFlagAt order then
        msg.tpBuf.byte place - (msg.tpBuf.byte place &&& UInt8.ofNat hflCallMsg)
      else msg.tpBuf.byte place := by
    rw [Block.get32, four]
    cases order with
    | little => exact bytesLe_unflag _ _ _ _
    | big => exact congrArg List.reverse (bytesLe_unflag _ _ _ _)
  have put : (msg.unmarkCall order).tpBuf.byte place = _ :=
    overlay_field msg.tpBuf .flags (bytes32_length order _) place
  rw [put, bytes, fieldByte]
  have flags : HdrField.flags.offset = 242 := rfl
  have within : 242 ≤ callFlagAt order ∧ callFlagAt order < 246 := by
    cases order with
    | little => decide
    | big => decide
  rw [flags]
  by_cases inside : 242 ≤ place ∧ place < 246
  · have cases_ : place = 242 ∨ place = 243 ∨ place = 244 ∨ place = 245 := by omega
    obtain rfl | rfl | rfl | rfl := cases_
    · rfl
    · rfl
    · rfl
    · rfl
  · rw [if_neg (by omega : ¬ place = callFlagAt order)]
    split
    · rw [List.getElem?_eq_none
        (by simp only [List.length_map, List.length_cons, List.length_nil]; omega)]
      rfl
    · rfl

/-- What was cleared in a message before it is handed to `send_msg`. -/
structure Way.Silences (way : Way) (order : ByteOrder) (msg silent : Mbuf) : Prop where
  mtype : silent.mtype = msg.mtype
  subId : silent.subId = msg.subId
  len : silent.len = msg.len
  payload : silent.payload = msg.payload
  allocLen : silent.allocLen = msg.allocLen
  addSrc : silent.addSrc = msg.addSrc
  size : silent.tpBuf.size = msg.tpBuf.size
  byte : ∀ place, silent.tpBuf.byte place = (way.clear order msg place).getD (msg.tpBuf.byte place)

/-- What is read after the call id was blotted out. -/
theorem blotCallId_byte (made : msg.blotCallId order = .ok silent) (place : Nat) :
    silent.tpBuf.byte place =
      if place = data1Addr order msg.tpBuf then 0 else msg.tpBuf.byte place := by
  -- The place is that of data 1, or one that the byte does not touch.
  obtain ⟨filled, filledIs, made⟩ := bind_eq_ok.mp made
  cases made
  obtain ⟨-, rfl⟩ := Block.memcpy_inside filledIs
  by_cases at_ : place = data1Addr order msg.tpBuf
  · rw [if_pos at_, at_]
    exact overlay_byte _ _ 0
  · rw [if_neg at_]
    exact if_neg (by omega)

/-- `rmr_wh_send_msg` clears the call id. -/
theorem blotCallId_silences
    (made : ({ msg with state := .ok } : Mbuf).blotCallId order = .ok silent) :
    Way.wormhole.Silences order msg silent := by
  -- Only the byte of data 1 is written, as the state is no part of the buffer.
  have byte := blotCallId_byte made
  obtain ⟨filled, filledIs, made⟩ := bind_eq_ok.mp made
  cases made
  obtain ⟨-, rfl⟩ := Block.memcpy_inside filledIs
  refine ⟨rfl, rfl, rfl, rfl, rfl, rfl, rfl, fun place => ?_⟩
  rw [byte, Way.clear]
  by_cases at_ : place = data1Addr order msg.tpBuf
  · rw [if_pos at_, if_pos at_]
    rfl
  · rw [if_neg at_, if_neg at_, if_neg (fun flag => flag.1 rfl)]
    rfl

/-- `rmr_send_msg` and `rmr_mtosend_msg` clear the call flag, too. -/
theorem unmarkCall_silences (sends : way ≠ .wormhole)
    (made : (msg.unmarkCall order).blotCallId order = .ok silent) :
    way.Silences order msg silent := by
  -- The flag lies in front of data 1, so that the two writes do not meet.
  have byte := blotCallId_byte made
  have place_ := (data1_congr order (unmarkCall_alike order msg).keeps.lens).2
  obtain ⟨filled, filledIs, made⟩ := bind_eq_ok.mp made
  cases made
  obtain ⟨-, rfl⟩ := Block.memcpy_inside filledIs
  refine ⟨rfl, rfl, rfl, rfl, rfl, rfl, rfl, fun place => ?_⟩
  rw [byte, place_, unmarkCall_byte, Way.clear]
  by_cases at_ : place = data1Addr order msg.tpBuf
  · rw [if_pos at_, if_pos at_]
    rfl
  · rw [if_neg at_, if_neg at_]
    by_cases flag : place = callFlagAt order
    · rw [if_pos flag, if_pos ⟨sends, flag⟩]
      rfl
    · rw [if_neg flag, if_neg (fun both => flag both.2)]
      rfl

end

/-- A message that was received, in the accumulator of its connection. -/
structure Mbuf.Accepted (order : ByteOrder) (msg : Mbuf) : Prop where
  starts : msg.payload = payloadAddr order msg.tpBuf
  filled : msg.allocLen = msg.tpBuf.size
  whole : tpHdrLen + mhdrLen ≤ msg.tpBuf.size
  small : (msg.tpBuf.size : Int) ≤ intMax
  len : InInt msg.len

/-- A message has what another one says, but perhaps at places that are yet to be written to. -/
structure Mbuf.Says (order : ByteOrder) (stale : Nat → Prop) (msg other : Mbuf) : Prop where
  mtype : other.mtype = msg.mtype
  subId : other.subId = msg.subId
  len : other.len = msg.len
  payload : other.payload = msg.payload
  allocLen : other.allocLen = msg.allocLen
  addSrc : other.addSrc = msg.addSrc
  size : msg.tpBuf.size ≤ other.tpBuf.size
  lens : other.tpBuf.slice HdrField.len0.offset 16 = msg.tpBuf.slice HdrField.len0.offset 16
  parts : ∀ place, msg.Part order place → ¬ stale place →
    other.tpBuf.byte place = msg.tpBuf.byte place

/-- The places of a message that `send_msg` writes to. -/
def Mbuf.Stamped (conf : SendConf) (msg : Mbuf) (place : Nat) : Prop := msg.stamp conf place ≠ none

section
variable {order : ByteOrder} {conf : SendConf} {left : Leftover}
    {msg other silent : Mbuf} {way : Way}
  {stale : Nat → Prop} {allocs : Nat}

/-- A part of a message lies behind the transport header. -/
theorem Mbuf.Part.behind {place : Nat} (accepted : msg.Accepted order)
    (part : msg.Part order place) :
    tpHdrLen ≤ place := by
  -- The parts are the lengths in the header, the trace data and the payload.
  have starts := accepted.starts
  simp only [payloadAddr, data2Addr, data1Addr, traceAddr] at starts
  cases part with
  | inl lens =>
    have after := lens.1
    simp only [HdrField.offset] at after
    omega
  | inr part =>
    cases part with
    | inl trace =>
      have after := trace.1
      rw [traceAddr] at after
      omega
    | inr payload => omega

/-- The length of a frame, if no more than the buffer were to be sent. -/
theorem Mbuf.Accepted.totLen (accepted : msg.Accepted order) :
    msg.totLen order = min msg.allocLen (toInt (msg.payload + msg.len)) := by
  -- The lengths are summed in 32 bits, as the address of the payload is not.
  have residue : toInt (toUint (msg.len + rmrHdrLen order msg.tpBuf + tpHdrLen)) =
      toInt (msg.payload + msg.len) := by
    rw [toInt_of_toUint, rmrHdrLen]
    have sum : toUint (msg.len + tpHdrLen + (toUint ((hdrGet order msg.tpBuf .len0 : Int) +
        hdrGet order msg.tpBuf .len1 + hdrGet order msg.tpBuf .len2 +
        hdrGet order msg.tpBuf .len3) : Nat)) = toUint (msg.payload + msg.len) := by
      rw [toUint_add_toUint, accepted.starts]
      congr 1
      simp only [payloadAddr, data2Addr, data1Addr, traceAddr, Int.natCast_add]
      omega
    rw [← toInt_of_toUint, ← toInt_of_toUint (msg.payload + msg.len), ← sum]
    congr 3
    omega
  rw [totLen_min, residue]

/-- A frame has the lengths of the header and all of the payload exactly if the message reaches over
the lengths, and no further than the buffer. -/
theorem Mbuf.Accepted.long_iff (accepted : msg.Accepted order) :
    ((HdrField.len3.offset + 4 : Int) ≤ msg.totLen order ∧
      (0 < msg.len → msg.totLen order = msg.payload + msg.len)) ↔
    (0 < msg.len → (HdrField.len3.offset + 4 : Int) ≤ msg.payload + msg.len ∧
        msg.payload + msg.len ≤ msg.allocLen) ∧
      (msg.len ≤ 0 → (HdrField.len3.offset + 4 : Int) ≤ toInt (msg.payload + msg.len)) := by
  have filled := accepted.filled
  have whole := accepted.whole
  have small := accepted.small
  simp only [tpHdrLen, mhdrLen] at whole
  have field : (HdrField.len3.offset + 4 : Int) = 262 := rfl
  rw [accepted.totLen, field]
  by_cases some_ : 0 < msg.len
  · by_cases room : (msg.payload : Int) + msg.len ≤ msg.allocLen
    · -- The sum is an int.
      have told : toInt (msg.payload + msg.len) = msg.payload + msg.len :=
        toInt_of_inInt ⟨by simp only [intMin]; omega, by omega⟩
      rw [told, min_eq_right room]
      constructor
      · intro long
        exact ⟨fun _ => ⟨long.1, room⟩, fun none_ => by omega⟩
      · intro long
        exact ⟨(long.1 some_).1, fun _ => rfl⟩
    · constructor
      · intro long
        have all := long.2 some_
        have upTo := min_le_left msg.allocLen (toInt (msg.payload + msg.len))
        omega
      · intro long
        exact absurd (long.1 some_).2 room
  · constructor
    · intro long
      exact ⟨fun some' => absurd some' some_, fun _ => (le_min_iff.mp long.1).2⟩
    · intro long
      exact ⟨le_min_iff.mpr ⟨by omega, long.2 (by omega)⟩, fun some' => absurd some' some_⟩

/-- Without a payload the frame ends where the payload would start, or before that. -/
theorem Mbuf.Accepted.totLen_le (accepted : msg.Accepted order) (none_ : msg.len ≤ 0) :
    msg.totLen order ≤ msg.payload := by
  -- The total is the smaller of two lengths, one of which is without the payload.
  have inInt := accepted.len
  simp only [InInt, intMin] at inInt
  rw [accepted.totLen]
  refine le_trans (min_le_right _ _) (le_trans (toInt_le ?_) (by omega))
  simp only [intMin]
  omega

/-- What clears nothing that a message says leaves it as it is, as far as it is not written to
later. -/
theorem Way.Silences.tells (silences : way.Silences conf.order msg silent)
    (fits : way.Fits conf msg) :
    msg.Says conf.order (fun place => way = .wormhole ∧ msg.Stamped conf place) silent := by
  have parts : ∀ place, msg.Part conf.order place → ¬ (way = .wormhole ∧ msg.Stamped conf place) →
      silent.tpBuf.byte place = msg.tpBuf.byte place := by
    intro place part fresh
    rw [silences.byte]
    cases is : way.clear conf.order msg place with
    | none => rfl
    | some byte =>
      have unstamped : way = .wormhole → msg.stamp conf place = none := by
        intro wormhole
        by_contra written
        exact fresh ⟨wormhole, written⟩
      exact (fits.cleared place part unstamped byte is).symm
  exact {
    mtype := silences.mtype
    subId := silences.subId
    len := silences.len
    payload := silences.payload
    allocLen := silences.allocLen
    addSrc := silences.addSrc
    size := le_of_eq silences.size.symm
    parts := parts
    lens := by
      -- No field that is written to is one of the lengths.
      apply Block.slice_congr
      intro i within
      have after : HdrField.len0.offset ≤ HdrField.len0.offset + i := Nat.le_add_right _ _
      have before : HdrField.len0.offset + i < HdrField.len3.offset + 4 := by
        simp only [HdrField.offset]
        omega
      exact parts _ (.inl ⟨after, before⟩)
        fun written => written.2 (stamp_lens conf msg after before) }

/-- Fewer places that are yet to be written to are as good. -/
theorem Mbuf.Says.allow {later : Nat → Prop} (tells : msg.Says order stale other)
    (fewer : ∀ place, stale place → later place) : msg.Says order later other :=
  { tells with parts :=
    fun place part fresh => tells.parts place part fun old => fresh (fewer place old) }

/-- None of these places is as good as some. -/
theorem Mbuf.Says.anywhere (tells : msg.Says order (fun _ => False) other) (later : Nat → Prop) :
    msg.Says order later other :=
  tells.allow fun _ none_ => none_.elim

/-- The state and the flag for the next buffer are nothing that a message says. -/
theorem Mbuf.Says.marked (tells : msg.Says order stale other) (state : MsgState) (noAlloc : Bool) :
    msg.Says order stale { other with state := state, noAlloc := noAlloc } where
  mtype := tells.mtype
  subId := tells.subId
  len := tells.len
  payload := tells.payload
  allocLen := tells.allocLen
  addSrc := tells.addSrc
  size := tells.size
  lens := tells.lens
  parts := tells.parts

/-- A message that has all that another one says is as that was. -/
theorem Mbuf.Says.unsent (tells : msg.Says order (fun _ => False) other) :
    msg.Unsent order other where
  payload := by
    rw [Mbuf.payloadBytes, Mbuf.payloadBytes, tells.payload, tells.len]
    apply Block.slice_congr
    intro i within
    exact tells.parts _ (.inr (.inr ⟨by omega, by omega⟩)) id
  len := tells.len
  mtype := tells.mtype
  subId := tells.subId
  trace := by
    -- The trace data is at the same place, as the lengths are the same.
    obtain ⟨len0, len1, -, -⟩ := lens_congr order tells.lens
    rw [Mbuf.traceBytes, Mbuf.traceBytes, traceAddr, traceAddr, rmrTrLen, rmrTrLen, len0, len1]
    apply Block.slice_congr
    intro i within
    exact tells.parts _ (.inr (.inl ⟨by rw [traceAddr]; omega, by rw [traceAddr, rmrTrLen]; omega⟩))
      id

/-- What is written to a message when it is sent is what it says already. -/
theorem Mbuf.Says.prepared (tells : msg.Says conf.order (msg.Stamped conf) other)
    (accepted : msg.Accepted conf.order) (fits : way.Fits conf msg) (size : Nat) {place : Nat}
    (part : msg.Part conf.order place) :
    (insertMlen conf.order size (prepare conf other).tpBuf).byte place = msg.tpBuf.byte place := by
  -- What is not stamped is as it was, and what is stamped fits.
  rw [insertMlen_byte _ _ _ (part.behind accepted), prepare_stamp,
    stamp_congr tells.mtype tells.subId tells.len tells.addSrc]
  cases is : msg.stamp conf place with
  | none => exact tells.parts place part fun stamped => stamped is
  | some byte => exact (fits.stamped place part byte is).symm

/-- A message that could not be sent has all that it said. -/
theorem Mbuf.Says.unsentMsg (tells : msg.Says conf.order (msg.Stamped conf) other)
    (accepted : msg.Accepted conf.order) (fits : way.Fits conf msg) (bytes : List UInt8)
    (state : MsgState) :
    msg.Says conf.order (fun _ => False) (unsentMsg conf other bytes state) where
  -- The send writes its words and the source, which are not among what is to be kept.
  mtype := tells.mtype
  subId := tells.subId
  len := tells.len
  payload := tells.payload
  allocLen := tells.allocLen
  addSrc := tells.addSrc
  size := by
    refine le_of_le_of_eq tells.size ?_
    exact (prepare_size conf other).symm
  lens := by
    apply Block.slice_congr
    intro i within
    refine tells.prepared accepted fits bytes.length (.inl ⟨by omega, ?_⟩)
    simp only [HdrField.offset]
    omega
  parts := fun _ part _ => tells.prepared accepted fits bytes.length part

/-- A message that has what another one says is sent as that, with its payload behind headers of the
same lengths. -/
theorem Mbuf.Says.sends (tells : msg.Says conf.order (msg.Stamped conf) other)
    (accepted : msg.Accepted conf.order) (fits : way.Fits conf msg) :
    ∃ bytes, sendMsg conf other = .ok bytes ∧ msg.Carries bytes := by
  have filled := accepted.filled
  obtain ⟨reaches, all⟩ := accepted.long_iff.mpr ⟨fits.ends, fits.headed⟩
  have upTo := accepted.totLen_le
  have same : other.totLen conf.order = msg.totLen conf.order :=
    totLen_congr conf.order tells.allocLen tells.len tells.lens
  have most : msg.totLen conf.order ≤ msg.allocLen := by
    rw [accepted.totLen]
    exact min_le_left _ _
  have size := tells.size
  change 262 ≤ msg.totLen conf.order at reaches
  obtain ⟨bytes, bytesIs⟩ : ∃ bytes, sendMsg conf other = .ok bytes :=
    sendMsg_of_room (by omega) (by omega)
  obtain ⟨-, -, is⟩ := sendMsg_frame bytesIs
  rw [same] at is
  generalize toUint (msg.totLen conf.order) = told at is
  -- Each part of the message is found in the frame.
  have part : ∀ {start size : Nat}, (start + size : Int) ≤ msg.totLen conf.order →
      (∀ i, i < size → msg.Part conf.order (start + i)) →
      (bytes.drop start).take size = msg.tpBuf.slice start size := by
    intro start size within among
    rw [is, Block.slice_drop_take _ _ _ _ _ (by omega), Nat.zero_add]
    exact Block.slice_congr fun i below => tells.prepared accepted fits told (among i below)
  refine ⟨bytes, bytesIs, ?_, ?_⟩
  · refine part ?_ fun i below => .inl ⟨by omega, ?_⟩
    · simp only [HdrField.offset, tpHdrLen]
      omega
    · simp only [HdrField.offset]
      omega
  · have length : (bytes.drop msg.payload).length = msg.len.toNat := by
      rw [is, List.length_drop, Block.slice_length]
      by_cases some_ : 0 < msg.len
      · rw [all some_]
        omega
      · have short := upTo (not_lt.mp some_)
        omega
    rw [← List.take_of_length_le (le_of_eq length), Mbuf.payloadBytes]
    by_cases some_ : 0 < msg.len
    · have total := all some_
      exact part (by omega) fun i below => .inr (.inr ⟨by omega, by omega⟩)
    · have none_ : msg.len.toNat = 0 := by omega
      rw [none_]
      simp

/-- What `send_msg` comes to: a frame if the send goes well, and else the message as it was. -/
theorem Mbuf.Says.tried (tells : msg.Says conf.order (msg.Stamped conf) other)
    (accepted : msg.Accepted conf.order) (fits : way.Fits conf msg) (left : Leftover) (allocs : Nat)
    (result : SendResult) :
    (∃ frames, trySendFrames conf ⟨other, allocs⟩ result = .ok frames ∧
        ∀ frame ∈ frames, msg.Carries frame) ∧
      ∃ back, trySend conf left ⟨other, allocs⟩ result = .ok back ∧
        ∀ next ∈ back, next.msg.state ≠ .ok → msg.Says conf.order (fun _ => False) next.msg := by
  obtain ⟨bytes, bytesIs, carries⟩ := tells.sends accepted fits
  constructor
  · refine ⟨_, bind_eq_ok.mpr ⟨bytes, bytesIs, rfl⟩, ?_⟩
    cases result with
    | ok => simpa using carries
    | blocked => simp
    | failed => simp
  · have ends : ∃ back, trySend conf left ⟨other, allocs⟩ result = .ok back :=
      trySend_ends (le_trans accepted.whole tells.size) bytesIs
    obtain ⟨back, backIs⟩ := ends
    refine ⟨back, backIs, fun next is bad => ?_⟩
    obtain ⟨sent, -, ⟨-, -, none_⟩ | ⟨-, -, last, lastIs, made⟩ | ⟨-, state, -, lastIs⟩⟩ :=
      trySend_cases backIs
    · rw [none_] at is
      cases is
    · -- After a send that went well the next message is a new one.
      obtain rfl := Option.some.inj (is.symm.trans lastIs)
      exact absurd (allocZcmsg_state made) bad
    · obtain rfl := Option.some.inj (is.symm.trans lastIs)
      exact tells.unsentMsg accepted fits sent state

/-- The headers of a message that ends in the buffer are all copied by `clone_msg`. -/
theorem Mbuf.Accepted.counted (accepted : msg.Accepted order)
    (near : (msg.payload : Int) ≤ intMax) :
    msg.payload ≤ tpHdrLen + msg.cloneCount order := by
  have starts := accepted.starts
  simp only [payloadAddr, data2Addr, data1Addr, traceAddr] at starts
  simp only [Mbuf.cloneCount, rmrHdrLen, rmrTrLen, rmrD1Len, rmrD2Len, ← Int.natCast_add]
  generalize hdrGet order msg.tpBuf .len0 = len0 at *
  generalize hdrGet order msg.tpBuf .len1 = len1 at *
  generalize hdrGet order msg.tpBuf .len2 = len2 at *
  generalize hdrGet order msg.tpBuf .len3 = len3 at *
  simp only [intMax] at near
  -- Neither sum wraps, although the parts behind the header proper are counted twice.
  rw [toUint_natCast (by omega : len0 + len1 + len2 + len3 < 4294967296), toUint_natCast (by omega)]
  omega

/-- A clone has all that the message says, if there is room for it and the lengths are copied. -/
theorem Mbuf.Says.cloned (tells : msg.Says order (fun _ => False) other)
    (accepted : msg.Accepted order) (clonable : msg.Clonable order)
    (copied : HdrField.len3.offset + 4 ≤ tpHdrLen + msg.cloneCount order) (left : Leftover)
    (allocs : Nat) :
    ∃ clone, cloneMsg order left ⟨other, allocs⟩ = .ok clone ∧
      msg.Says order (fun _ => False) clone.msg := by
  have size := tells.size
  have small := accepted.small
  have count := cloneCount_congr order tells.lens
  have lens := lens_congr order tells.lens
  have starts : other.payload = payloadAddr order other.tpBuf := by
    rw [tells.payload, accepted.starts]
    simp only [payloadAddr, data2Addr, data1Addr, traceAddr, lens]
  have clonable' : other.Clonable order := by
    obtain ⟨hdrHeld, hdrRoom, nonneg, payloadHeld, payloadRoom⟩ := clonable
    refine ⟨?_, ?_, ?_, ?_, ?_⟩
    · rw [count]
      omega
    · rwa [count, tells.allocLen]
    · rwa [tells.len]
    · rw [tells.payload, tells.len]
      omega
    · rwa [tells.payload, tells.len, tells.allocLen]
  have made : cloneMsg order left ⟨other, allocs⟩ = .ok _ :=
    cloneMsg_filled clonable' (by rw [count]; exact copied) starts
  have near : msg.payload ≤ tpHdrLen + msg.cloneCount order :=
    accepted.counted (by have held := clonable.payloadHeld; have nonneg := clonable.len; omega)
  -- What is copied with the headers and with the payload is as it was.
  have byte : ∀ place, tpHdrLen ≤ place →
      (place < tpHdrLen + msg.cloneCount order ∨
        msg.payload ≤ place ∧ place < msg.payload + msg.len.toNat) →
      (Draft.cloneBuf order left ⟨other, allocs⟩).byte place = other.tpBuf.byte place := by
    intro place behind within
    simp only [Draft.cloneBuf, Block.overlay, tells.payload, tells.len, count]
    split
    · congr 1
      omega
    · rw [if_pos (by omega)]
      congr 1
      omega
  have among : ∀ place, msg.Part order place → place < tpHdrLen + msg.cloneCount order ∨
      msg.payload ≤ place ∧ place < msg.payload + msg.len.toNat := by
    intro place part
    obtain part | part | part := part
    · omega
    · have starts := accepted.starts
      simp only [payloadAddr, data2Addr, data1Addr] at starts
      rw [rmrTrLen] at part
      omega
    · exact .inr part
  have parts : ∀ place, msg.Part order place →
      (Draft.cloneBuf order left ⟨other, allocs⟩).byte place = msg.tpBuf.byte place := by
    intro place part
    rw [byte place (part.behind accepted) (among place part)]
    exact tells.parts place part id
  refine ⟨_, made, ?_⟩
  exact {
    mtype := tells.mtype
    subId := tells.subId
    len := tells.len
    payload := tells.payload
    allocLen := tells.allocLen
    addSrc := tells.addSrc
    size := by
      change msg.tpBuf.size ≤ (other.allocLen + tpHdrLen).toNat
      rw [tells.allocLen, accepted.filled]
      omega
    lens := by
      apply Block.slice_congr
      intro i within
      refine parts _ (.inl ⟨Nat.le_add_right _ _, ?_⟩)
      simp only [HdrField.offset]
      omega
    parts := fun place part _ => parts place part }

/-- The groups but the last are those with something behind them. -/
theorem clones_cons {group : Option SendResult} {groups : List (Option SendResult)}
    (more : groups ≠ []) :
    (∃ other ∈ (group :: groups).dropLast, other ≠ none) ↔
      group ≠ none ∨ ∃ other ∈ groups.dropLast, other ≠ none := by
  rw [List.dropLast_cons_of_ne_nil more]
  simp

/-- A fan-out of a message comes to frames that carry it, and to the message as it was if its last
send fails. -/
theorem Mbuf.Says.fansOut {draft : Draft} {groups : List (Option SendResult)} (okSends : Bool)
    (tells : msg.Says conf.order (fun _ => False) draft.msg) (accepted : msg.Accepted conf.order)
    (fits : way.Fits conf msg)
    (clones : (∃ group ∈ groups.dropLast, group ≠ none) → way = .routed) :
    (∃ frames, fanOutFrames conf left draft groups = .ok frames ∧
        ∀ frame ∈ frames, msg.Carries frame) ∧
      ∃ back, fanOut conf left draft okSends groups = .ok back ∧
        ∀ next ∈ back.1, next.msg.state ≠ .ok → msg.Says conf.order (fun _ => False) next.msg := by
  -- The induction is on the loop, whose next message says the same, be it a clone.
  fun_induction fanOut conf left draft okSends groups with
  | case1 draft okSends =>
    refine ⟨⟨[], rfl, by simp⟩, _, rfl, fun next is _ => ?_⟩
    cases is
    exact tells
  | case2 draft okSends groups ih =>
    have clones' : (∃ group ∈ groups.dropLast, group ≠ none) → way = .routed := by
      intro followed
      cases groups with
      | nil => simp at followed
      | cons group groups => exact clones ((clones_cons (List.cons_ne_nil _ _)).mpr (.inr followed))
    exact ih (tells.marked .noEndpt draft.msg.noAlloc) clones'
  | case3 draft okSends result =>
    obtain ⟨sent, back, backIs, unsent⟩ :=
      (tells.anywhere (msg.Stamped conf)).tried accepted fits left draft.allocs result
    exact ⟨sent, _, bind_eq_ok.mpr ⟨back, backIs, rfl⟩, unsent⟩
  | case4 draft okSends result groups more failed went =>
    have followed : ∃ group ∈ (some result :: groups).dropLast, group ≠ none :=
      (clones_cons more).mpr (.inl (by simp))
    have clones' : (∃ group ∈ groups.dropLast, group ≠ none) → way = .routed :=
      fun later => clones ((clones_cons more).mpr (.inr later))
    obtain ⟨clonable, copied⟩ := fits.clones (clones followed)
    obtain ⟨clone, cloneIs, clonesTell⟩ :=
      tells.cloned accepted clonable copied left draft.allocs
    -- The frame is the same with the flag that no next buffer is wanted, which only the send sees.
    obtain ⟨⟨first, firstIs, firstCarries⟩, -⟩ :=
      (tells.anywhere (msg.Stamped conf)).tried accepted fits left draft.allocs result
    obtain ⟨-, sent, sentIs, -⟩ :=
      ((tells.marked draft.msg.state true).anywhere (msg.Stamped conf)).tried accepted fits left
        clone.allocs result
    obtain ⟨⟨later, laterIs, laterCarries⟩, last, lastIs, unsent⟩ := failed clone clonesTell clones'
    have frames : ∃ frames, fanOutFrames conf left draft (some result :: groups) = .ok frames ∧
        ∀ frame ∈ frames, msg.Carries frame := by
      cases groups with
      | nil => exact absurd rfl more
      | cons group groups =>
        refine ⟨first ++ later, bind_eq_ok.mpr ⟨clone, cloneIs, bind_eq_ok.mpr ⟨first, firstIs,
          bind_eq_ok.mpr ⟨later, laterIs, rfl⟩⟩⟩, fun frame is => ?_⟩
        cases List.mem_append.mp is with
        | inl is => exact firstCarries frame is
        | inr is => exact laterCarries frame is
    refine ⟨frames, ?_⟩
    cases groups with
    | nil => exact absurd rfl more
    | cons group groups =>
      cases sent with
      | some back =>
        exact ⟨last, bind_eq_ok.mpr ⟨clone, cloneIs, bind_eq_ok.mpr ⟨some back, sentIs, lastIs⟩⟩,
          unsent⟩
      | none =>
        obtain ⟨-, last, lastIs, unsent⟩ :=
          went clone (clonesTell.marked .ok clone.msg.noAlloc) clones'
        exact ⟨last, bind_eq_ok.mpr ⟨clone, cloneIs, bind_eq_ok.mpr ⟨none, sentIs, lastIs⟩⟩, unsent⟩

/-- A send to a route leaves a message as it is. -/
theorem Way.Fits.send {groups : List (Option SendResult)} (fits : way.Fits conf msg)
    (accepted : msg.Accepted conf.order) (sends : way ≠ .wormhole)
    (clones : (∃ group ∈ groups.dropLast, group ≠ none) → way = .routed) :
    Forwards conf left ⟨msg, allocs⟩ (.send groups) := by
  obtain ⟨silent, silentIs⟩ := (unmarkCall_blot_iff conf.order msg).mpr fits.inside
  have tells : msg.Says conf.order (fun _ => False) silent :=
    ((unmarkCall_silences sends silentIs).tells fits).allow fun _ written => sends written.1
  have fansOut : (∃ frames, fanOutFrames conf left ⟨silent, allocs⟩ groups = .ok frames ∧
        ∀ frame ∈ frames, msg.Carries frame) ∧
      ∃ back, fanOut conf left ⟨silent, allocs⟩ false groups = .ok back ∧
        ∀ next ∈ back.1, next.msg.state ≠ .ok → msg.Says conf.order (fun _ => False) next.msg :=
    Mbuf.Says.fansOut false tells accepted fits clones
  obtain ⟨⟨frames, framesIs, carried⟩, ⟨back, okSends⟩, backIs, unsent⟩ := fansOut
  refine ⟨⟨frames, bind_eq_ok.mpr ⟨silent, silentIs, framesIs⟩, carried⟩, ?_⟩
  by_cases unrouted : groups = []
  · -- There is no entry in the route table.
    refine ⟨_, bind_eq_ok.mpr ⟨silent, silentIs, if_pos unrouted⟩, fun next is _ => ?_⟩
    cases is
    exact (tells.marked .noEndpt silent.noAlloc).unsent
  · refine ⟨_, bind_eq_ok.mpr ⟨silent, silentIs, (if_neg unrouted).trans
      (bind_eq_ok.mpr ⟨_, backIs, rfl⟩)⟩, fun next is bad => ?_⟩
    obtain ⟨last, lastIs, rfl⟩ := Option.map_eq_some_iff.mp is
    cases okSends with
    | true => exact absurd rfl bad
    | false => exact ((unsent last lastIs bad).marked last.msg.state false).unsent

/-- A send to a wormhole leaves a message as it is. -/
theorem Way.Fits.whSend {result : SendResult} (fits : Way.wormhole.Fits conf msg)
    (accepted : msg.Accepted conf.order) :
    Forwards conf left ⟨msg, allocs⟩ (.whSend (.open_ result)) := by
  -- The call id is blotted out first, in a place that the way of sending allows.
  obtain ⟨silent, silentIs⟩ : ∃ silent,
      ({ msg with state := .ok } : Mbuf).blotCallId conf.order = .ok silent :=
    blotCallId_iff.mpr fits.inside
  have tells : msg.Says conf.order (msg.Stamped conf) silent :=
    ((blotCallId_silences silentIs).tells fits).allow fun _ written => written.2
  obtain ⟨⟨frames, framesIs, carried⟩, back, backIs, unsent⟩ :=
    tells.tried accepted fits left allocs result
  exact ⟨⟨frames, bind_eq_ok.mpr ⟨silent, silentIs, framesIs⟩, carried⟩,
    back, bind_eq_ok.mpr ⟨silent, silentIs, backIs⟩, fun next is bad => (unsent next is bad).unsent⟩

/-- A frame that carries a message has its lengths, and is long enough for that. -/
theorem carries_lens {bytes : List UInt8} (sent : sendMsg conf other = .ok bytes)
    (carries : msg.Carries bytes) :
    262 ≤ other.totLen conf.order ∧
      other.tpBuf.slice HdrField.len0.offset 16 = msg.tpBuf.slice HdrField.len0.offset 16 := by
  obtain ⟨nonneg, -, is⟩ := sendMsg_frame sent
  have lens := carries.lens
  have length := congrArg List.length lens
  rw [is, List.length_take, List.length_drop, Block.slice_length, Block.slice_length] at length
  simp only [HdrField.offset, tpHdrLen] at length
  have long : 262 ≤ other.totLen conf.order := by omega
  refine ⟨long, ?_⟩
  rw [← lens, is, Block.slice_drop_take _ _ _ _ _
    (by simp only [HdrField.offset, tpHdrLen]; omega), Nat.zero_add]
  -- Neither the size nor a field that is written to is one of the lengths.
  have prepared : (prepare conf other).tpBuf.slice 246 16 = other.tpBuf.slice 246 16 :=
    prepare_lens_slice other
  refine prepared.symm.trans (Block.slice_congr fun i _ => ?_)
  exact (insertMlen_byte _ _ _ (by simp only [tpHdrLen]; omega)).symm

/-- A message that is as another one, with the same lengths, has the parts of that. -/
theorem Mbuf.Unsent.parts (unsent : msg.Unsent order other) (payload : other.payload = msg.payload)
    (lens : other.tpBuf.slice HdrField.len0.offset 16 = msg.tpBuf.slice HdrField.len0.offset 16)
    {place : Nat} (part : msg.Part order place) : other.tpBuf.byte place =
      msg.tpBuf.byte place := by
  -- The parts are the lengths, the trace data and the payload, each read from its slice.
  obtain part | part | part := part
  · have byte := Block.byte_of_slice lens (i := place - HdrField.len0.offset) (by
      simp only [HdrField.offset] at part ⊢
      omega)
    rwa [Nat.add_sub_cancel' part.1] at byte
  · obtain ⟨len0, len1, -, -⟩ := lens_congr order lens
    have trace := unsent.trace
    rw [Mbuf.traceBytes, Mbuf.traceBytes, traceAddr, traceAddr, rmrTrLen, rmrTrLen, len0,
      len1] at trace
    rw [traceAddr, rmrTrLen] at part
    have byte := Block.byte_of_slice trace (i := place - (tpHdrLen + hdrGet order msg.tpBuf .len0))
      (by omega)
    rwa [Nat.add_sub_cancel' part.1] at byte
  · have bytes := unsent.payload
    rw [Mbuf.payloadBytes, Mbuf.payloadBytes, payload, unsent.len] at bytes
    have byte := Block.byte_of_slice bytes (i := place - msg.payload) (by omega)
    rwa [Nat.add_sub_cancel' part.1] at byte

/-- What an attempt to send a message shows of it, if the frame carries the message, and if the
message is as it was when the send fails. -/
structure Way.Attempted (conf : SendConf) (way : Way) (msg silent : Mbuf) : Prop where
  lens : silent.tpBuf.slice HdrField.len0.offset 16 = msg.tpBuf.slice HdrField.len0.offset 16
  long : (HdrField.len3.offset + 4 : Int) ≤ msg.totLen conf.order ∧
    (0 < msg.len → msg.totLen conf.order = msg.payload + msg.len)
  parts : ∀ place, msg.Part conf.order place → (prepare conf silent).tpBuf.byte place =
    msg.tpBuf.byte place

/-- An attempt shows all of this. -/
theorem Way.Silences.attempted {bytes sent : List UInt8} {state : MsgState}
    (silences : way.Silences conf.order msg silent) (accepted : msg.Accepted conf.order)
    (bytesIs : sendMsg conf silent = .ok bytes) (carries : msg.Carries bytes)
    (unsent : msg.Unsent conf.order (unsentMsg conf silent sent state)) :
    way.Attempted conf msg silent := by
  -- What is sent and what comes back both show the silenced message, stamped.
  obtain ⟨long, lens⟩ := carries_lens bytesIs carries
  have same : silent.totLen conf.order = msg.totLen conf.order :=
    totLen_congr conf.order silences.allocLen silences.len lens
  have prepared : ∀ {place : Nat}, tpHdrLen ≤ place →
      (unsentMsg conf silent sent state).tpBuf.byte place =
        (prepare conf silent).tpBuf.byte place := insertMlen_byte _ _ _
  have lens' : (unsentMsg conf silent sent state).tpBuf.slice HdrField.len0.offset 16 =
      msg.tpBuf.slice HdrField.len0.offset 16 := by
    refine Eq.trans (Block.slice_congr fun i _ => prepared ?_)
      ((prepare_lens_slice silent).trans lens)
    simp only [HdrField.offset]
    omega
  refine ⟨lens, ⟨same ▸ long, fun some_ => ?_⟩, fun place part => ?_⟩
  · obtain ⟨-, -, is⟩ := sendMsg_frame bytesIs
    have length := congrArg List.length carries.payload
    rw [is, Mbuf.payloadBytes, List.length_drop, Block.slice_length, Block.slice_length,
      same] at length
    omega
  · rw [← prepared (part.behind accepted)]
    exact unsent.parts silences.payload lens' part

/-- What is written to a part of a message that an attempt leaves as it was is there anyway. -/
theorem Way.Attempted.stamped (attempted : way.Attempted conf msg silent)
    (silences : way.Silences conf.order msg silent) {place : Nat}
    (part : msg.Part conf.order place) :
    ∀ byte ∈ msg.stamp conf place, msg.tpBuf.byte place = byte := by
  -- The stamp is the same before and after the message is silenced.
  intro byte is
  rw [← attempted.parts place part, prepare_stamp,
    stamp_congr silences.mtype silences.subId silences.len silences.addSrc, Option.mem_def.mp is]
  rfl

/-- What is cleared is clear anyway, where nothing is written to the place later. -/
theorem Way.Attempted.unstamped (attempted : way.Attempted conf msg silent)
    (silences : way.Silences conf.order msg silent) {place : Nat} (part : msg.Part conf.order place)
    (unstamped : msg.stamp conf place = none) :
    ∀ byte ∈ way.clear conf.order msg place, msg.tpBuf.byte place = byte := by
  -- The place is not stamped, so that the byte there is the one that was cleared.
  intro byte is
  rw [← attempted.parts place part, prepare_stamp,
    stamp_congr silences.mtype silences.subId silences.len silences.addSrc, unstamped,
      Option.getD_none,
    silences.byte, Option.mem_def.mp is]
  rfl

/-- The last byte of a length is no more than the length. -/
theorem len3_low (order : ByteOrder) (block : Block) :
    (block.byte 261).toNat ≤ hdrGet order block .len3 := by
  -- Lengths are in network order, where the last byte counts once.
  have bytes : block.slice HdrField.len3.offset 4 =
      [block.byte 258, block.byte 259, block.byte 260, block.byte 261] := rfl
  rw [hdrGet, Block.net32_eq, bytes]
  simp only [word32, List.reverse_cons, List.reverse_nil, List.nil_append, List.cons_append, wordLe]
  omega

/-- Memory that is full of ones. -/
def allOnes : Leftover := fun _ _ => 255

/-- A message that is cloned with its lengths, also where all memory is full of ones, has room for
that, and its lengths are copied. -/
theorem cloneMsg_copies {clone : Draft} (accepted : msg.Accepted order)
    (payload : other.payload = msg.payload) (len : other.len = msg.len)
    (allocLen : other.allocLen = msg.allocLen) (size : other.tpBuf.size = msg.tpBuf.size)
    (lens : other.tpBuf.slice HdrField.len0.offset 16 = msg.tpBuf.slice HdrField.len0.offset 16)
    (cloned : cloneMsg order allOnes ⟨other, allocs⟩ = .ok clone)
    (same : clone.msg.tpBuf.slice HdrField.len0.offset 16 =
      msg.tpBuf.slice HdrField.len0.offset 16) :
    msg.Clonable order ∧ HdrField.len3.offset + 4 ≤ tpHdrLen + msg.cloneCount order := by
  have filled := accepted.filled
  have small := accepted.small
  have asked : (other.allocLen + tpHdrLen).toNat = (msg.allocLen + tpHdrLen).toNat := by
    rw [allocLen]
  have count : other.cloneCount order = msg.cloneCount order := cloneCount_congr order lens
  obtain ⟨hdr, hdrIs, cloned⟩ := bind_eq_ok.mp cloned
  dsimp only at cloned
  split at cloned
  · cases cloned
  obtain ⟨tpBuf, tpBufIs, made⟩ := bind_eq_ok.mp cloned
  cases made
  change Block.memcpy _ _ _ _ (other.cloneCount order : Int) = _ at hdrIs
  obtain ⟨⟨-, -, hdrRoom, -, hdrHeld⟩, rfl⟩ := Block.memcpy_inside hdrIs
  obtain ⟨⟨nonneg, -, -, -, payloadHeld⟩, rfl⟩ := Block.memcpy_inside tpBufIs
  rw [count] at hdrRoom hdrHeld
  change (tpHdrLen : Int) + msg.cloneCount order ≤
    ((other.allocLen + tpHdrLen).toNat : Int) at hdrRoom
  rw [size] at hdrHeld payloadHeld
  rw [payload, len] at payloadHeld
  rw [len] at nonneg
  have near : msg.payload ≤ tpHdrLen + msg.cloneCount order := accepted.counted (by omega)
  rw [asked] at hdrRoom
  refine ⟨⟨by omega, by omega, nonneg, payloadHeld, by omega⟩, ?_⟩
  by_contra short
  simp only [HdrField.offset] at short
  -- The last byte of the lengths is one that lay in memory, and the payload is copied behind it.
  simp only [tpHdrLen] at short
  generalize hdrIs : (allOnes.malloc allocs (other.allocLen + tpHdrLen)).overlay
    (tpHdrLen : Int).toNat
    other.tpBuf (tpHdrLen : Int).toNat (other.cloneCount order : Int).toNat = hdr at same
  have left_ : hdr.byte 261 = 255 := by
    rw [← hdrIs, count]
    refine if_neg ?_
    simp only [tpHdrLen]
    omega
  have told := len3_low order hdr
  rw [left_] at told
  have behind : 305 ≤ payloadAddr order hdr := by
    rw [payloadAddr, data2Addr, data1Addr, traceAddr]
    simp only [tpHdrLen]
    have ones : (255 : UInt8).toNat = 255 := rfl
    omega
  have byte := Block.byte_of_slice same (i := 15) (by decide)
  have kept : (hdr.overlay (payloadAddr order hdr : Int).toNat other.tpBuf
      (other.payload : Int).toNat other.len.toNat).byte (HdrField.len0.offset + 15) =
        hdr.byte 261 :=
    if_neg (by simp only [HdrField.offset, tpHdrLen]; omega)
  have last : (hdr.overlay (payloadAddr order hdr : Int).toNat other.tpBuf
      (other.payload : Int).toNat other.len.toNat).byte (HdrField.len0.offset + 15) =
      msg.tpBuf.byte 261 := byte
  rw [kept, left_] at last
  have told' := len3_low order msg.tpBuf
  rw [← last] at told'
  have starts := accepted.starts
  rw [payloadAddr, data2Addr, data1Addr, traceAddr] at starts
  have ones : (255 : UInt8).toNat = 255 := rfl
  simp only [tpHdrLen] at starts near
  omega

/-- What is cleared in a message that comes back without any attempt is clear anyway. -/
theorem Way.Silences.cleared (silences : way.Silences conf.order msg silent) {state : MsgState}
    (unsent : msg.Unsent conf.order { silent with state := state, noAlloc := false })
    (lens : silent.tpBuf.slice HdrField.len0.offset 16 = msg.tpBuf.slice HdrField.len0.offset 16)
    {place : Nat} (part : msg.Part conf.order place) :
    ∀ byte ∈ way.clear conf.order msg place, msg.tpBuf.byte place = byte := by
  intro byte is
  rw [← unsent.parts silences.payload lens part]
  change silent.tpBuf.byte place = byte
  rw [silences.byte, Option.mem_def.mp is]
  rfl

/-- A message that is sent to a wormhole as it is fits. -/
theorem fits_of_whSend (accepted : msg.Accepted conf.order)
    (preserves : ∀ result, Forwards conf allOnes ⟨msg, 0⟩ (.whSend (.open_ result))) :
    Way.wormhole.Fits conf msg := by
  have failed : MsgState.sendFailed ≠ .ok := by decide
  -- The frame of a send that goes well, and the message that comes back from one that fails.
  obtain ⟨frames, framesIs, carried⟩ := (preserves .ok).carried
  obtain ⟨back, backIs, unsent⟩ := (preserves .failed).unsent
  obtain ⟨silent, silentIs, framesIs⟩ := bind_eq_ok.mp framesIs
  obtain ⟨silent', silentIs', backIs⟩ := bind_eq_ok.mp backIs
  obtain rfl := Except.ok.inj (silentIs.symm.trans silentIs')
  have inside : data1Addr conf.order ({ msg with state := .ok } : Mbuf).tpBuf <
      ({ msg with state := .ok } : Mbuf).tpBuf.size := blotCallId_iff.mp ⟨silent, silentIs⟩
  have silences := blotCallId_silences silentIs
  obtain ⟨bytes, bytesIs, made⟩ := bind_eq_ok.mp framesIs
  obtain ⟨sent, sentIs, made'⟩ := bind_eq_ok.mp backIs
  cases made
  cases made'
  have untold : msg.Unsent conf.order (unsentMsg conf silent sent .sendFailed) :=
    unsent _ rfl failed
  have attempted := silences.attempted accepted bytesIs (carried bytes List.mem_cons_self) untold
  have long := accepted.long_iff.mp attempted.long
  exact {
    inside := inside
    ends := long.1
    headed := long.2
    cleared := fun place part unstamped => attempted.unstamped silences part (unstamped rfl)
    stamped := fun place part => attempted.stamped silences part
    clones := fun routed => by cases routed }

/-- A message that is sent to a route as it is fits. -/
theorem fits_of_send (accepted : msg.Accepted conf.order) (sends : way ≠ .wormhole)
    (preserves : ∀ group, Forwards conf allOnes ⟨msg, 0⟩ (.send [group]))
    (clones : way = .routed → msg.Clonable conf.order ∧
      HdrField.len3.offset + 4 ≤ tpHdrLen + msg.cloneCount conf.order) : way.Fits conf msg := by
  have failed : MsgState.sendFailed ≠ .ok := by decide
  have unreached : MsgState.noEndpt ≠ .ok := by decide
  -- The message also comes back where there is no endpoint to send to.
  obtain ⟨frames, framesIs, carried⟩ := (preserves (some .ok)).carried
  obtain ⟨back, backIs, unsent⟩ := (preserves (some .failed)).unsent
  obtain ⟨kept, keptIs, untried⟩ := (preserves none).unsent
  obtain ⟨silent, silentIs, framesIs⟩ := bind_eq_ok.mp framesIs
  obtain ⟨silent', silentIs', backIs⟩ := bind_eq_ok.mp backIs
  obtain rfl := Except.ok.inj (silentIs.symm.trans silentIs')
  obtain ⟨silent', silentIs', keptIs⟩ := bind_eq_ok.mp keptIs
  obtain rfl := Except.ok.inj (silentIs.symm.trans silentIs')
  have silences := unmarkCall_silences sends silentIs
  obtain ⟨bytes, bytesIs, made⟩ := bind_eq_ok.mp framesIs
  cases made
  obtain ⟨⟨last, okSends⟩, lastIs, made⟩ := bind_eq_ok.mp backIs
  obtain ⟨tried, triedIs, last_⟩ := bind_eq_ok.mp lastIs
  cases last_
  obtain ⟨sent, sentIs, tried_⟩ := bind_eq_ok.mp triedIs
  cases tried_
  cases made
  cases keptIs
  have untold := unsent _ rfl failed
  have untold : msg.Unsent conf.order (unsentMsg conf silent sent .sendFailed) :=
    ⟨untold.payload, untold.len, untold.mtype, untold.subId, untold.trace⟩
  have attempted := silences.attempted accepted bytesIs (carried bytes List.mem_cons_self) untold
  have long := accepted.long_iff.mp attempted.long
  exact {
    inside := (unmarkCall_blot_iff conf.order msg).mp ⟨silent, silentIs⟩
    ends := long.1
    headed := long.2
    cleared := fun place part _ =>
      silences.cleared (untried _ rfl unreached) attempted.lens part
    stamped := fun place part => attempted.stamped silences part
    clones := clones }

/-- A message that is sent to routes with more groups as it is can be cloned with its lengths. -/
theorem clones_of_send (accepted : msg.Accepted conf.order)
    (preserves : ∀ groups, Forwards conf allOnes ⟨msg, 0⟩ (.send groups)) :
    msg.Clonable conf.order ∧ HdrField.len3.offset + 4 ≤ tpHdrLen + msg.cloneCount conf.order := by
  -- The frame that follows a send which failed is that of a clone.
  obtain ⟨frames, framesIs, carried⟩ := (preserves [some .ok]).carried
  obtain ⟨frames', framesIs', carried'⟩ := (preserves [some .failed, some .ok]).carried
  obtain ⟨silent, silentIs, framesIs⟩ := bind_eq_ok.mp framesIs
  obtain ⟨silent', silentIs', framesIs'⟩ := bind_eq_ok.mp framesIs'
  obtain rfl := Except.ok.inj (silentIs.symm.trans silentIs')
  have sends : Way.routed ≠ .wormhole := by decide
  have silences := unmarkCall_silences sends silentIs
  obtain ⟨bytes, bytesIs, made⟩ := bind_eq_ok.mp framesIs
  cases made
  obtain ⟨-, lens⟩ := carries_lens bytesIs (carried bytes List.mem_cons_self)
  obtain ⟨clone, cloneIs, framesIs'⟩ := bind_eq_ok.mp framesIs'
  obtain ⟨first, firstIs, framesIs'⟩ := bind_eq_ok.mp framesIs'
  obtain ⟨later, laterIs, made⟩ := bind_eq_ok.mp framesIs'
  cases made
  obtain ⟨bytes', bytesIs', made⟩ := bind_eq_ok.mp laterIs
  cases made
  obtain ⟨-, lens'⟩ :=
    carries_lens bytesIs' (carried' bytes' (List.mem_append_right _ List.mem_cons_self))
  exact cloneMsg_copies accepted silences.payload silences.len silences.allocLen silences.size lens
    cloneIs lens'

/-- A message is sent on as it is in a way exactly if it fits, unless the way leads nowhere. -/
theorem preserves_iff (accepted : msg.Accepted conf.order) (way : Way) :
    way.Preserves conf msg ↔ (way ≠ .refused → way.Fits conf msg) := by
  cases way with
  | refused =>
    refine ⟨fun _ sends => absurd rfl sends, fun _ left allocs forward meets => ?_⟩
    -- The message is not looked at where there is no wormhole.
    cases forward with
    | send groups => exact meets.elim
    | whSend target =>
      obtain rfl | rfl := meets
      · refine ⟨⟨[], rfl, by simp⟩, _, rfl, fun next is _ => ?_⟩
        cases is
        exact ⟨rfl, rfl, rfl, rfl, rfl⟩
      · refine ⟨⟨[], rfl, by simp⟩, _, rfl, fun next is _ => ?_⟩
        cases is
        exact ⟨rfl, rfl, rfl, rfl, rfl⟩
  | wormhole =>
    constructor
    · intro preserves _
      exact fits_of_whSend accepted fun result => preserves allOnes 0 _ ⟨result, rfl⟩
    · intro fits left allocs forward meets
      cases forward with
      | send groups => exact meets.elim
      | whSend target =>
        obtain ⟨result, rfl⟩ := meets
        exact (fits (by decide)).whSend accepted
  | single =>
    constructor
    · intro preserves _
      exact fits_of_send accepted (by decide)
        (fun group => preserves allOnes 0 (.send [group]) (Nat.le_refl 1))
          fun routed => by cases routed
    · intro fits left allocs forward meets
      cases forward with
      | send groups =>
        refine (fits (by decide)).send accepted (by decide) fun followed => ?_
        -- No group follows another one.
        obtain ⟨group, among, -⟩ := followed
        have short : groups.length ≤ 1 := meets
        have none_ := List.length_pos_of_mem among
        rw [List.length_dropLast] at none_
        omega
      | whSend target => exact meets.elim
  | routed =>
    constructor
    · intro preserves _
      exact fits_of_send accepted (by decide)
        (fun group => preserves allOnes 0 (.send [group]) trivial)
        fun _ => clones_of_send accepted fun groups => preserves allOnes 0 (.send groups) trivial
    · intro fits left allocs forward meets
      cases forward with
      | send groups => exact (fits (by decide)).send accepted (by decide) fun _ => rfl
      | whSend target => exact meets.elim

/-- A message that was received is sent on as it is in a way, whatever sending comes to, exactly if
it fits: no more is cleared or written in its parts than stands there, and there is room for a clone
where one may be needed. -/
theorem received_forwards_iff {rcvConf : RcvConf} {rawMsg : Block} {fd : Int} {delivery : Delivery}
    (same : rcvConf.order = conf.order)
    (handed : buf2mbuf rcvConf rawMsg rawMsg.size fd = .ok delivery)
    (given : delivery.given = some msg) (whole : tpHdrLen + mhdrLen ≤ rawMsg.size)
    (small : (rawMsg.size : Int) ≤ intMax) (way : Way) :
    way.Preserves conf msg ↔ (way ≠ .refused → way.Fits conf msg) := by
  -- The message lies in the raw buffer as `buf2mbuf` leaves it, which is all that the law for one
  -- message asks for.
  obtain ⟨tpBuf, payload, allocLen, len⟩ := given_made handed given
  rw [← tpBuf] at payload allocLen whole small
  rw [same] at payload
  exact preserves_iff ⟨payload, allocLen, whole, small, len⟩ way

end

/-- A frame whose header proper is told to be shorter than it is, so that the payload is in it. -/
def shortFrame (payload : List UInt8) : Block :=
  let hdr := Block.ofList (List.replicate 326 0 ++ payload)
  let hdr := hdr.setNet32 .little HdrField.len0.offset 276
  hdr.setNet32 .little HdrField.plen.offset payload.length

/-- Two messages are sent on as they are whatever the route is: one with data 1, and one with a
header that is told to be short, whose payload starts with a clear byte. -/
theorem received_forwards_two :
    Yields (fun delivery => ∃ msg, delivery.given = some msg ∧
        Way.routed.Preserves SendConf.plain msg)
      (buf2mbuf RcvConf.default (forwardFrame 4 [1, 2, 3, 4, 5, 6, 7, 8])
        (forwardFrame 4 [1, 2, 3, 4, 5, 6, 7, 8]).size 9) ∧
    Yields (fun delivery => ∃ msg, delivery.given = some msg ∧
        Way.routed.Preserves SendConf.plain msg)
      (buf2mbuf RcvConf.default (shortFrame [0, 2, 3, 4, 5, 6, 7, 8])
        (shortFrame [0, 2, 3, 4, 5, 6, 7, 8]).size 9) := by
  -- All that the theorem asks for is decided for both frames at once.
  have each : ∀ rawMsg ∈ [forwardFrame 4 [1, 2, 3, 4, 5, 6, 7, 8],
        shortFrame [0, 2, 3, 4, 5, 6, 7, 8]],
      Yields (fun delivery => ∃ msg, delivery.given = some msg ∧
        Way.routed.Preserves SendConf.plain msg)
          (buf2mbuf RcvConf.default rawMsg rawMsg.size 9) := by
    intro rawMsg among
    have sized : tpHdrLen + mhdrLen ≤ rawMsg.size ∧ (rawMsg.size : Int) ≤ intMax := by
      revert rawMsg
      decide +kernel
    have facts : Yields (fun delivery => ∃ msg ∈ delivery.given,
          (data1Addr .little msg.tpBuf < msg.tpBuf.size ∧ 0 < msg.len ∧
            (262 : Int) ≤ msg.payload + msg.len ∧ (msg.payload + msg.len : Int) ≤ msg.allocLen) ∧
          (traceAddr .little msg.tpBuf + rmrTrLen .little msg.tpBuf ≤ 342 ∧
            msg.payload + msg.len.toNat ≤ 342) ∧
          tpHdrLen + msg.cloneCount .little ≤ msg.tpBuf.size ∧
          (msg.cloneCount .little : Int) ≤ msg.allocLen ∧
          262 ≤ tpHdrLen + msg.cloneCount .little)
        (buf2mbuf RcvConf.default rawMsg rawMsg.size 9) := by
      clear sized
      revert rawMsg
      decide +kernel
    have written : Yields (fun delivery => ∀ msg ∈ delivery.given, ∀ place < 342,
          msg.Part .little place → Way.routed.Spares SendConf.plain msg place)
        (buf2mbuf RcvConf.default rawMsg rawMsg.size 9) := by
      clear sized facts
      revert rawMsg
      decide +kernel
    obtain ⟨delivery, handed, msg, given, ⟨inside, some_, after, upTo⟩,
      ⟨traceEnd, payloadEnd⟩, held,
      room, copied⟩ := facts.exists
    have spared := written.of_ok handed msg given
    have near : ∀ {place : Nat}, msg.Part .little place → place < 342 := by
      intro place part
      obtain part | part | part := part
      · simp only [HdrField.offset, tpHdrLen] at part
        omega
      · omega
      · omega
    obtain ⟨tpBuf, -, allocLen, -⟩ := given_made handed given
    rw [← tpBuf] at allocLen
    refine Yields.intro handed ⟨msg, given, ?_⟩
    exact (received_forwards_iff rfl handed given sized.1 sized.2 .routed).mpr fun _ => {
      inside := inside
      ends := fun _ => ⟨after, upTo⟩
      headed := fun none_ => by omega
      cleared := fun place part _ => (spared place (near part) part).1
      stamped := fun place part => (spared place (near part) part).2
      clones := fun _ => ⟨⟨held, room, by omega, by omega, by omega⟩, copied⟩ }
  exact ⟨each _ (by simp), each _ (by simp)⟩

/-- The payload of a message without data 1 is not sent on as it is: its first byte is taken for a
call id, whether it is sent to a route or to a wormhole. -/
theorem forward_blots_payload :
    Yields (fun delivery => ∃ msg, delivery.given = some msg ∧ msg.payloadBytes = [7] ∧
        ¬ Forwards SendConf.plain (fun _ _ => 0) ⟨msg, 0⟩ (.send [some .ok]) ∧
        ¬ Forwards SendConf.plain (fun _ _ => 0) ⟨msg, 0⟩ (.whSend (.open_ .ok)))
      (buf2mbuf RcvConf.default (forwardFrame 0 [7]) 331 9) := by
  have facts : Yields (fun delivery => ∃ msg ∈ delivery.given,
        (msg.payload = 330 ∧ msg.payloadBytes = [7]) ∧
        Yields (fun frames => ∃ frame ∈ frames, frame.drop 330 = [0])
          (rmrSendFrames SendConf.plain (fun _ _ => 0) ⟨msg, 0⟩ [some .ok]) ∧
        Yields (fun frames => ∃ frame ∈ frames, frame.drop 330 = [0])
          (rmrWhSendFrames SendConf.plain ⟨msg, 0⟩ (.open_ .ok)))
      (buf2mbuf RcvConf.default (forwardFrame 0 [7]) 331 9) := by
    decide +kernel
  obtain ⟨delivery, handed, msg, given, ⟨payload, bytes⟩, sent, whSent⟩ := facts.exists
  -- A frame that carried the payload would end in 7.
  have blotted : ∀ {outcome : Except Fault (List (List UInt8))},
      Yields (fun frames => ∃ frame ∈ frames, frame.drop 330 = [0]) outcome →
      ¬ ∃ frames, outcome = .ok frames ∧ ∀ frame ∈ frames, msg.Carries frame := by
    intro outcome told carried
    obtain ⟨frames, is, carries⟩ := carried
    obtain ⟨frame, among, zero⟩ := told.of_ok is
    have same := (carries frame among).payload
    rw [payload, zero, bytes] at same
    exact absurd same (by decide)
  exact Yields.intro handed ⟨msg, given, bytes, fun forwards => blotted sent forwards.carried,
    fun forwards => blotted whSent forwards.carried⟩

end Rmr
