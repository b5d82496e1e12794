import Rmr.Message.MbufApi
import Rmr.Proofs.Message.Kin

/-! Trace data that is set again and again: when what is copied stays inside the buffers, and that
all else in the message is as it was. -/

namespace Rmr

/-- When a message can be moved to a buffer with room for trace data of another length: there is
room, and what is copied is there. -/
structure Mbuf.Moves (order : ByteOrder) (msg : Mbuf) (size : Nat) : Prop
    extends Retraces order msg size where
  used : 0 ≤ msg.len
  held : (msg.payload : Int) + msg.len ≤ msg.tpBuf.size

/-- The new buffer, with the header, data 1, data 2 and the payload. -/
def movedBuf (order : ByteOrder) (old : Mbuf) (fresh : Block) (size : Nat) : Block :=
  let data1 := traceAddr order old.tpBuf + size
  let data2 := data1 + rmrD1Len order old.tpBuf
  (((movedHdr order old.tpBuf fresh size).overlay data1 old.tpBuf (data1Addr order old.tpBuf)
    (rmrD1Len order old.tpBuf)).overlay data2 old.tpBuf (data2Addr order old.tpBuf)
    (rmrD2Len order old.tpBuf)).overlay (data2 + rmrD2Len order old.tpBuf) old.tpBuf old.payload
    old.len.toNat

section
variable {order : ByteOrder} {left : Leftover} {draft nm : Draft} {msg old : Mbuf} {size : Nat}

/-- The parts of a message follow one another. -/
theorem Mbuf.Framed.parts (framed : msg.Framed order) :
    330 ≤ traceAddr order msg.tpBuf ∧
      data1Addr order msg.tpBuf = traceAddr order msg.tpBuf + rmrTrLen order msg.tpBuf ∧
      data2Addr order msg.tpBuf = data1Addr order msg.tpBuf + rmrD1Len order msg.tpBuf ∧
      msg.payload = data2Addr order msg.tpBuf + rmrD2Len order msg.tpBuf ∧
      (msg.payload : Int) ≤ intMax + tpHdrLen :=
  ⟨(addrs_behind framed.headed.len0).1, rfl, rfl, framed.headed.starts, framed.near⟩

/-- The same lengths leave the parts of the message where they are. -/
theorem parts_congr {tpBuf next : Block} (order : ByteOrder)
    (lens : next.slice 246 16 = tpBuf.slice 246 16) :
    traceAddr order next = traceAddr order tpBuf ∧ rmrTrLen order next = rmrTrLen order tpBuf ∧
      data1Addr order next = data1Addr order tpBuf ∧ rmrD1Len order next = rmrD1Len order tpBuf ∧
      data2Addr order next = data2Addr order tpBuf ∧ rmrD2Len order next = rmrD2Len order tpBuf ∧
      payloadAddr order next = payloadAddr order tpBuf := by
  obtain ⟨len0, len1, len2, len3⟩ := lens_congr order lens
  simp only [payloadAddr, data2Addr, data1Addr, traceAddr, rmrTrLen, rmrD1Len, rmrD2Len, len0, len1,
    len2, len3, and_self]

/-- So do bytes laid over a block behind its header. -/
theorem parts_behind (order : ByteOrder) (tpBuf : Block) (start : Nat) (src : Block)
    (origin count : Nat) (behind : 330 ≤ start) :
    traceAddr order (tpBuf.overlay start src origin count) = traceAddr order tpBuf ∧
      rmrTrLen order (tpBuf.overlay start src origin count) = rmrTrLen order tpBuf ∧
      data1Addr order (tpBuf.overlay start src origin count) = data1Addr order tpBuf ∧
      rmrD1Len order (tpBuf.overlay start src origin count) = rmrD1Len order tpBuf ∧
      data2Addr order (tpBuf.overlay start src origin count) = data2Addr order tpBuf ∧
      rmrD2Len order (tpBuf.overlay start src origin count) = rmrD2Len order tpBuf ∧
      payloadAddr order (tpBuf.overlay start src origin count) = payloadAddr order tpBuf :=
  parts_congr order (overlay_behind start src origin count behind)

/-- The parts in the new buffer. -/
theorem movedHdr_parts (order : ByteOrder) (tpBuf fresh : Block) (fits : (size : Int) ≤ intMax) :
    traceAddr order (movedHdr order tpBuf fresh size) = traceAddr order tpBuf ∧
      rmrTrLen order (movedHdr order tpBuf fresh size) = size ∧
      data1Addr order (movedHdr order tpBuf fresh size) = traceAddr order tpBuf + size ∧
      rmrD1Len order (movedHdr order tpBuf fresh size) = rmrD1Len order tpBuf ∧
      data2Addr order (movedHdr order tpBuf fresh size) =
        traceAddr order tpBuf + size + rmrD1Len order tpBuf ∧
      rmrD2Len order (movedHdr order tpBuf fresh size) = rmrD2Len order tpBuf ∧
      payloadAddr order (movedHdr order tpBuf fresh size) =
        traceAddr order tpBuf + size + rmrD1Len order tpBuf + rmrD2Len order tpBuf := by
  obtain ⟨len0, len1, len2, len3⟩ := movedHdr_lens order tpBuf fresh fits
  simp only [payloadAddr, data2Addr, data1Addr, traceAddr, rmrTrLen, rmrD1Len, rmrD2Len, len0, len1,
    len2, len3, and_self]

/-- The new memory: as many bytes as the message has, with more or less for the trace data. -/
def freshTpb (order : ByteOrder) (left : Leftover) (draft : Draft) (size : Nat) : Block :=
  let tpbLen := draft.msg.allocLen + (size - toInt (rmrTrLen order draft.msg.tpBuf)) + tpHdrLen
  insertMlen order (toUint tpbLen) (left.malloc draft.allocs tpbLen)

/-- What `realloc_msg` makes of a message. -/
def Draft.moved (order : ByteOrder) (left : Leftover) (draft : Draft) (size : Nat) : Draft where
  msg := { draft.msg with
    tpBuf := movedBuf order draft.msg (freshTpb order left draft size) size
    payload := traceAddr order draft.msg.tpBuf + size + rmrD1Len order draft.msg.tpBuf +
      rmrD2Len order draft.msg.tpBuf
    allocLen := draft.msg.allocLen + (size - toInt (rmrTrLen order draft.msg.tpBuf))
    rtsFd := 0 }
  allocs := draft.allocs + 1

/-- The trace data of a message has a length that is an `int`. -/
theorem Mbuf.Framed.trLen_int (framed : msg.Framed order) :
    toInt (rmrTrLen order msg.tpBuf) = rmrTrLen order msg.tpBuf := by
  obtain ⟨behind, data1, data2, payload, near⟩ := framed.parts
  simp only [tpHdrLen] at near
  exact toInt_natCast (by omega)

/-- The new buffer with its header and data 1. -/
def movedData1 (order : ByteOrder) (tpBuf fresh : Block) (size : Nat) : Block :=
  (movedHdr order tpBuf fresh size).overlay (traceAddr order tpBuf + size) tpBuf
    (data1Addr order tpBuf) (rmrD1Len order tpBuf)

/-- The new buffer with its header, data 1 and data 2. -/
def movedData2 (order : ByteOrder) (tpBuf fresh : Block) (size : Nat) : Block :=
  (movedData1 order tpBuf fresh size).overlay (traceAddr order tpBuf + size + rmrD1Len order tpBuf)
    tpBuf (data2Addr order tpBuf) (rmrD2Len order tpBuf)

/-- Where the next copy goes is not moved by what was copied so far: the lengths lie in front of it.
-/
theorem movedData_parts (order : ByteOrder) (tpBuf fresh : Block) (fits : (size : Int) ≤ intMax)
    (behind : 330 ≤ traceAddr order tpBuf) :
    data2Addr order (movedData1 order tpBuf fresh size) =
        traceAddr order tpBuf + size + rmrD1Len order tpBuf ∧
      rmrD2Len order (movedData1 order tpBuf fresh size) = rmrD2Len order tpBuf ∧
      payloadAddr order (movedData2 order tpBuf fresh size) =
        traceAddr order tpBuf + size + rmrD1Len order tpBuf + rmrD2Len order tpBuf := by
  -- Each copy lies behind the header, and so leaves the lengths that the next one is placed by.
  obtain ⟨-, -, -, -, data2, d2Len, starts⟩ := movedHdr_parts order tpBuf fresh fits
  obtain ⟨-, -, -, -, data2One, d2LenOne, startsOne⟩ := parts_behind order
    (movedHdr order tpBuf fresh size) (traceAddr order tpBuf + size) tpBuf (data1Addr order tpBuf)
    (rmrD1Len order tpBuf) (by omega)
  obtain ⟨-, -, -, -, -, -, startsTwo⟩ := parts_behind order (movedData1 order tpBuf fresh size)
    (traceAddr order tpBuf + size + rmrD1Len order tpBuf) tpBuf (data2Addr order tpBuf)
    (rmrD2Len order tpBuf) (by omega)
  exact ⟨data2One.trans data2, d2LenOne.trans d2Len, startsTwo.trans (startsOne.trans starts)⟩

/-- A message that moves has new memory for the transport header and all that it held. -/
theorem Mbuf.Moves.fresh_size (left : Leftover) (framed : draft.msg.Framed order)
    (moves : draft.msg.Moves order size) :
    ((freshTpb order left draft size).size : Int) =
      draft.msg.allocLen + size - rmrTrLen order draft.msg.tpBuf + tpHdrLen := by
  -- The old trace length is taken off what was allocated, and the new one is added.
  have fits := moves.fits
  have used := moves.used
  obtain ⟨-, oldData1, oldData2, payload, -⟩ := framed.parts
  change ((draft.msg.allocLen + (size - toInt (rmrTrLen order draft.msg.tpBuf)) +
    tpHdrLen).toNat : Int) = _
  rw [framed.trLen_int]
  omega

/-- `realloc_msg` succeeds only if the message moves, and then this is what comes of it. -/
theorem reallocMsg_moves (framed : draft.msg.Framed order) (fits : (size : Int) ≤ intMax)
    (made : reallocMsg order left draft size = .ok nm) :
    draft.msg.Moves order size ∧ nm = draft.moved order left size := by
  obtain ⟨one, two, filled, small, -, oneIs, twoIs, filledIs, rfl⟩ := reallocMsg_steps made
  obtain ⟨-, -, data1, d1Len, -⟩ :=
    movedHdr_parts order draft.msg.tpBuf (freshTpb order left draft size) fits
  obtain ⟨data2, d2Len, starts⟩ := movedData_parts order draft.msg.tpBuf
    (freshTpb order left draft size) fits framed.parts.1
  change copyData (movedHdr order draft.msg.tpBuf (freshTpb order left draft size) size)
    (data1Addr order (movedHdr order draft.msg.tpBuf (freshTpb order left draft size) size))
    draft.msg.tpBuf (data1Addr order draft.msg.tpBuf)
    (rmrD1Len order (movedHdr order draft.msg.tpBuf (freshTpb order left draft size) size)) =
    .ok one at oneIs
  rw [data1, d1Len] at oneIs
  obtain rfl : one = movedData1 order draft.msg.tpBuf (freshTpb order left draft size) size :=
    copyData_made oneIs
  rw [data2, d2Len] at twoIs
  obtain rfl : two = movedData2 order draft.msg.tpBuf (freshTpb order left draft size) size :=
    copyData_made twoIs
  rw [starts] at filledIs
  obtain ⟨⟨used, -, room, -, held⟩, rfl⟩ := Block.memcpy_inside filledIs
  rw [starts]
  refine ⟨⟨?_, used, held⟩, rfl⟩
  -- The payload is what needs the most room, and there was enough of it.
  obtain ⟨behind, oldData1, oldData2, payload, -⟩ := framed.parts
  have bufSize : (movedData2 order draft.msg.tpBuf (freshTpb order left draft size) size).size =
      (draft.msg.allocLen + (size - toInt (rmrTrLen order draft.msg.tpBuf)) + tpHdrLen).toNat := rfl
  rw [framed.trLen_int] at small bufSize
  rw [bufSize] at room
  have high := small.2
  push_cast at room
  exact ⟨by omega, by omega⟩

/-- A message that moves is moved. -/
theorem Mbuf.Moves.reallocMsg (framed : draft.msg.Framed order) (fits : (size : Int) ≤ intMax)
    (moves : draft.msg.Moves order size) :
    reallocMsg order left draft size = .ok (draft.moved order left size) := by
  have bufSize := moves.fresh_size left framed
  obtain ⟨⟨fits', counted⟩, used, held⟩ := moves
  obtain ⟨behind, oldData1, oldData2, payload, near⟩ := framed.parts
  have small : (size : Int) ≤ 2147483647 := fits
  simp only [tpHdrLen, intMax] at bufSize fits' counted near
  have grown : subInt (size : Int) (toInt (rmrTrLen order draft.msg.tpBuf)) =
      .ok (size - toInt (rmrTrLen order draft.msg.tpBuf)) :=
    subInt_ok (by rw [framed.trLen_int]; simp only [InInt, intMin, intMax]; omega)
  have mlen : addInt draft.msg.allocLen (size - toInt (rmrTrLen order draft.msg.tpBuf)) =
      .ok (draft.msg.allocLen + (size - toInt (rmrTrLen order draft.msg.tpBuf))) :=
    addInt_ok (by rw [framed.trLen_int]; simp only [InInt, intMin, intMax]; omega)
  have tpbLen : addInt (draft.msg.allocLen + (size - toInt (rmrTrLen order draft.msg.tpBuf)))
      tpHdrLen = .ok (draft.msg.allocLen + (size - toInt (rmrTrLen order draft.msg.tpBuf)) +
        tpHdrLen) :=
    addInt_ok (by rw [framed.trLen_int]; simp only [InInt, intMin, intMax, tpHdrLen]; omega)
  -- Each copy stays within both buffers.
  have header := Block.memcpy_ok (freshTpb order left draft size) tpHdrLen draft.msg.tpBuf tpHdrLen
    mhdrLen (by simp only [tpHdrLen, mhdrLen]; omega) (by simp only [tpHdrLen, mhdrLen]; omega)
  obtain ⟨-, -, data1, d1Len, -⟩ :=
    movedHdr_parts order draft.msg.tpBuf (freshTpb order left draft size) fits
  obtain ⟨data2, d2Len, starts⟩ := movedData_parts order draft.msg.tpBuf
    (freshTpb order left draft size) fits behind
  have usedIs : ((draft.msg.len.toNat : Nat) : Int) = draft.msg.len := Int.toNat_of_nonneg used
  have one := copyData_ok (movedHdr order draft.msg.tpBuf (freshTpb order left draft size) size)
    (traceAddr order draft.msg.tpBuf + size) draft.msg.tpBuf (data1Addr order draft.msg.tpBuf)
    (rmrD1Len order draft.msg.tpBuf)
    (by change _ ≤ (freshTpb order left draft size).size; omega) (by omega)
  have two := copyData_ok
    (movedData1 order draft.msg.tpBuf (freshTpb order left draft size) size)
    (traceAddr order draft.msg.tpBuf + size + rmrD1Len order draft.msg.tpBuf) draft.msg.tpBuf
    (data2Addr order draft.msg.tpBuf) (rmrD2Len order draft.msg.tpBuf)
    (by change _ ≤ (freshTpb order left draft size).size; omega) (by omega)
  have body := Block.memcpy_ok
    (movedData2 order draft.msg.tpBuf (freshTpb order left draft size) size)
    (traceAddr order draft.msg.tpBuf + size + rmrD1Len order draft.msg.tpBuf +
      rmrD2Len order draft.msg.tpBuf) draft.msg.tpBuf draft.msg.payload draft.msg.len.toNat
    (by change _ ≤ (freshTpb order left draft size).size; omega) (by omega)
  rw [usedIs] at body
  unfold Rmr.reallocMsg
  refine bind_eq_ok.mpr ⟨_, grown, bind_eq_ok.mpr ⟨_, mlen, bind_eq_ok.mpr ⟨_, tpbLen,
    bind_eq_ok.mpr ⟨_, header, ?_⟩⟩⟩⟩
  change (copyData (movedHdr order draft.msg.tpBuf (freshTpb order left draft size) size)
    (data1Addr order (movedHdr order draft.msg.tpBuf (freshTpb order left draft size) size))
    draft.msg.tpBuf (data1Addr order draft.msg.tpBuf)
    (rmrD1Len order (movedHdr order draft.msg.tpBuf (freshTpb order left draft size) size))
      >>= _) = _
  rw [data1, d1Len]
  refine bind_eq_ok.mpr ⟨movedData1 order draft.msg.tpBuf (freshTpb order left draft size) size,
    one, ?_⟩
  rw [data2, d2Len]
  refine bind_eq_ok.mpr ⟨movedData2 order draft.msg.tpBuf (freshTpb order left draft size) size,
    two, ?_⟩
  rw [starts]
  exact bind_eq_ok.mpr ⟨_, body, rfl⟩

/-- Header bytes other than the length of the trace data are those of the old buffer. -/
theorem movedBuf_header (framed : old.Framed order) (fresh : Block) {start count : Nat}
    (low : tpHdrLen ≤ start) (high : start + count ≤ 330)
    (apart : start + count ≤ HdrField.len1.offset ∨ HdrField.len1.offset + 4 ≤ start) :
    (movedBuf order old fresh size).slice start count = old.tpBuf.slice start count := by
  -- Trace, data 1 and data 2 lie behind the header, where their copies do not reach it.
  have behind := framed.parts.1
  obtain ⟨skip, rfl⟩ := Nat.exists_eq_add_of_le low
  simp only [tpHdrLen] at *
  rw [movedBuf, Block.overlay_slice_outside _ _ _ _ _ (Or.inl (by omega)),
    Block.overlay_slice_outside _ _ _ _ _ (Or.inl (by omega)),
    Block.overlay_slice_outside _ _ _ _ _ (Or.inl (by omega)), movedHdr,
    hdrSet_slice_outside _ _ _ _ apart]
  exact Block.overlay_slice_part _ _ _ _ _ _ _ (by simp only [mhdrLen]; omega)

/-- The lengths are those of the new header. -/
theorem movedBuf_lens (framed : old.Framed order) (fresh : Block) (size : Nat) :
    (movedBuf order old fresh size).slice 246 16 =
      (movedHdr order old.tpBuf fresh size).slice 246 16 := by
  -- Data 1, data 2 and the payload are all put behind the lengths.
  have behind := framed.parts.1
  rw [movedBuf, Block.overlay_slice_outside _ _ _ _ _ (Or.inl (by omega)),
    Block.overlay_slice_outside _ _ _ _ _ (Or.inl (by omega)),
    Block.overlay_slice_outside _ _ _ _ _ (Or.inl (by omega))]

/-- Data 1 is that of the old buffer. -/
theorem movedBuf_data1 (old : Mbuf) (fresh : Block) :
    (movedBuf order old fresh size).slice (traceAddr order old.tpBuf + size)
      (rmrD1Len order old.tpBuf) = old.data1Bytes order := by
  rw [movedBuf, Block.overlay_slice_outside _ _ _ _ _ (Or.inl (by omega)),
    Block.overlay_slice_outside _ _ _ _ _ (Or.inl (by omega)), Block.overlay_slice_inside]
  rfl

/-- The message with room for other trace data, as `rmr_set_trace` has it: in the new buffer, with
the length that it had. -/
def Draft.resized (order : ByteOrder) (left : Leftover) (draft : Draft) (size : Nat) : Draft :=
  draft.takeBuffer (draft.moved order left size)

/-- What is known of it. -/
structure Mbuf.Resized (order : ByteOrder) (msg : Mbuf) (size : Nat) (next : Mbuf) : Prop
    extends Mbuf.Untouched order msg next where
  framed : next.Framed order
  allocLen : next.allocLen = msg.allocLen
  trLen : rmrTrLen order next.tpBuf = size
  traceAddr : traceAddr order next.tpBuf = Rmr.traceAddr order msg.tpBuf
  starts : next.payload + rmrTrLen order msg.tpBuf = msg.payload + size

/-- Another buffer says the same but for the trace data. -/
theorem Mbuf.Moves.resized (left : Leftover) (framed : draft.msg.Framed order)
    (fits : (size : Int) ≤ intMax) (moves : draft.msg.Moves order size) :
    draft.msg.Resized order size (draft.resized order left size).msg ∧
      ((draft.resized order left size).msg.tpBuf.size : Int) =
        draft.msg.allocLen + size - rmrTrLen order draft.msg.tpBuf + tpHdrLen := by
  have bufSize := moves.fresh_size left framed
  have shifted : traceAddr order draft.msg.tpBuf + size + rmrD1Len order draft.msg.tpBuf +
      rmrD2Len order draft.msg.tpBuf + rmrTrLen order draft.msg.tpBuf =
        draft.msg.payload + size := by
    obtain ⟨-, oldData1, oldData2, payload, -⟩ := framed.parts
    omega
  -- The payload starts before the end of the new memory, the size of which is an int.
  have high : ((traceAddr order draft.msg.tpBuf + size + rmrD1Len order draft.msg.tpBuf +
      rmrD2Len order draft.msg.tpBuf : Nat) : Int) ≤ intMax := by
    obtain ⟨⟨fits', counted⟩, used, -⟩ := moves
    omega
  have near : traceAddr order draft.msg.tpBuf + size + rmrD1Len order draft.msg.tpBuf +
      rmrD2Len order draft.msg.tpBuf < tpHdrLen + 4294967296 := by
    simp only [intMax] at high
    omega
  obtain ⟨trace, trLen, data1, d1Len, data2, d2Len, starts⟩ :=
    movedHdr_parts order draft.msg.tpBuf (freshTpb order left draft size) fits
  obtain ⟨trace', trLen', data1', d1Len', -, -, starts'⟩ :=
    parts_congr order (movedBuf_lens framed (freshTpb order left draft size) size)
  have len0 := (lens_congr order
    (movedBuf_lens framed (freshTpb order left draft size) size)).1.trans
    (movedHdr_lens order draft.msg.tpBuf (freshTpb order left draft size) fits).1
  refine ⟨{
    payload := Block.overlay_slice_inside _ _ _ _ _
    len := rfl
    mtype := rfl
    subId := rfl
    xaction := movedBuf_header framed _ (by decide) (by decide) (by decide)
    meid := movedBuf_header framed _ (by decide) (by decide) (by decide)
    data1 := ?_
    framed := ⟨framed.inInt, ⟨?_, ?_, near⟩, ?_⟩
    allocLen := rfl
    trLen := trLen'.trans trLen
    traceAddr := trace'.trans trace
    starts := shifted }, bufSize⟩
  · change (movedBuf order draft.msg (freshTpb order left draft size) size).slice
      (data1Addr order (movedBuf order draft.msg (freshTpb order left draft size) size))
      (rmrD1Len order (movedBuf order draft.msg (freshTpb order left draft size) size)) = _
    rw [data1', data1, d1Len', d1Len]
    exact movedBuf_data1 draft.msg _
  · change mhdrLen ≤ hdrGet order
      (movedBuf order draft.msg (freshTpb order left draft size) size) .len0
    rw [len0]
    exact framed.headed.len0
  · exact (starts'.trans starts).symm
  · exact high.trans (Int.le_add_of_nonneg_right (Int.natCast_nonneg _))

/-- A message is as it was after two steps that leave it as it was. -/
theorem Mbuf.Untouched.trans {mid next : Mbuf} (second : mid.Untouched order next)
    (first : msg.Untouched order mid) : msg.Untouched order next where
  payload := second.payload.trans first.payload
  len := second.len.trans first.len
  mtype := second.mtype.trans first.mtype
  subId := second.subId.trans first.subId
  xaction := second.xaction.trans first.xaction
  meid := second.meid.trans first.meid
  data1 := second.data1.trans first.data1

/-- The message with trace data written over that which it has. -/
def Mbuf.putTrace (order : ByteOrder) (msg : Mbuf) (data : List UInt8) : Mbuf :=
  { msg with
    tpBuf := msg.tpBuf.overlay (traceAddr order msg.tpBuf) (Block.ofList data) 0 data.length }

variable {data : List UInt8}

/-- Trace data of the length that there is changes nothing but the trace data. -/
theorem putTrace_untouched (framed : msg.Framed order)
    (trLen : rmrTrLen order msg.tpBuf = data.length) :
    msg.Untouched order (msg.putTrace order data) := by
  -- The trace data lies between header and data 1, so that its copy touches neither.
  obtain ⟨behind, data1, data2, payload, -⟩ := framed.parts
  obtain ⟨-, -, data1', d1Len', -⟩ := parts_behind order msg.tpBuf (traceAddr order msg.tpBuf)
    (Block.ofList data) 0 data.length behind
  have outside : ∀ other part, other + part ≤ 330 ∨ data1Addr order msg.tpBuf ≤ other →
      (msg.tpBuf.overlay (traceAddr order msg.tpBuf) (Block.ofList data) 0 data.length).slice other
        part = msg.tpBuf.slice other part :=
    fun other part apart => Block.overlay_slice_outside _ _ _ _ _ (by omega)
  have last : data1Addr order msg.tpBuf ≤ msg.payload := by omega
  exact {
    payload := outside _ _ (.inr last)
    len := rfl
    mtype := rfl
    subId := rfl
    xaction := outside _ _ (.inl (by decide))
    meid := outside _ _ (.inl (by decide))
    data1 := by
      unfold Mbuf.data1Bytes
      change (msg.tpBuf.overlay (traceAddr order msg.tpBuf) (Block.ofList data) 0
        data.length).slice (data1Addr order (msg.tpBuf.overlay (traceAddr order msg.tpBuf)
          (Block.ofList data) 0 data.length)) (rmrD1Len order (msg.tpBuf.overlay
          (traceAddr order msg.tpBuf) (Block.ofList data) 0 data.length)) = _
      rw [data1', d1Len']
      exact outside _ _ (.inr (Nat.le_refl _)) }

/-- Trace data that lies in the buffer is found there. -/
theorem rmrGetTrace_found (framed : msg.Framed order)
    (held : traceAddr order msg.tpBuf + data.length ≤ msg.tpBuf.size)
    (trLen : rmrTrLen order msg.tpBuf = data.length) (is : msg.traceBytes order = data) {size : Int}
    (inInt : InInt size) : rmrGetTrace order msg size = .ok (data.take size.toNat) := by
  have small := framed.trLen_int
  rw [trLen] at small
  have least := inInt_toInt data.length
  rw [small] at least
  unfold rmrGetTrace
  by_cases none_ : size ≤ 0
  · have zero : size.toNat = 0 := by omega
    rw [if_pos none_, zero]
    rfl
  · have word := toUint_of_nonneg inInt (by omega)
    have count : toInt (min (toUint size : Int) (rmrTrLen order msg.tpBuf : Int)) =
        min size (data.length : Int) := by
      rw [word, trLen]
      rcases Int.le_total size data.length with less | less
      · rw [Int.min_eq_left less]
        exact toInt_of_inInt inInt
      · rw [Int.min_eq_right less]
        exact small
    rw [if_neg none_]
    dsimp only
    rw [count]
    by_cases empty : data = []
    · have nothing : min size (data.length : Int) ≤ 0 := by
        rw [empty]
        exact Int.min_le_right _ _
      rw [if_pos nothing, empty, List.take_nil]
    · have some_ := List.length_pos_iff.mpr empty
      rw [if_neg (by omega), if_pos (by omega)]
      -- As many of the bytes are read as there is room for.
      have part : msg.tpBuf.slice (traceAddr order msg.tpBuf) (min size (data.length : Int)).toNat =
          (msg.traceBytes order).take (min size (data.length : Int)).toNat := by
        rw [Mbuf.traceBytes, trLen]
        exact (Block.slice_take _ _ _ _ (by omega)).symm
      rw [part, is]
      congr 1
      rcases Int.le_total size data.length with less | less
      · rw [Int.min_eq_left less]
      · rw [Int.min_eq_right less, List.take_of_length_le (by omega),
          List.take_of_length_le (by omega)]

/-- A message has room for trace data of the length that it has. -/
theorem Mbuf.Framed.resized (framed : msg.Framed order) :
    msg.Resized order (rmrTrLen order msg.tpBuf) msg where
  payload := rfl
  len := rfl
  mtype := rfl
  subId := rfl
  xaction := rfl
  meid := rfl
  data1 := rfl
  framed := framed
  allocLen := rfl
  trLen := rfl
  traceAddr := rfl
  starts := rfl

/-- Trace data that is put into a message with room for it is all that changes. -/
theorem Mbuf.Resized.put {mid : Mbuf} (resized : msg.Resized order data.length mid)
    (held : Rmr.traceAddr order msg.tpBuf + data.length ≤ mid.tpBuf.size) :
    msg.TraceSet order data (mid.putTrace order data) ∧
      msg.Resized order data.length (mid.putTrace order data) := by
  have framed := resized.framed
  have lens : (mid.tpBuf.overlay (Rmr.traceAddr order mid.tpBuf) (Block.ofList data) 0
      data.length).slice 246 16 = mid.tpBuf.slice 246 16 := overlay_behind _ _ _ _ framed.parts.1
  obtain ⟨trace, trLen, -⟩ := parts_congr order lens
  have untouched := (putTrace_untouched framed resized.trLen).trans resized.toUntouched
  have putFramed : (mid.putTrace order data).Framed order := framed.keep rfl rfl lens
  have putTrLen : rmrTrLen order (mid.putTrace order data).tpBuf = data.length :=
    trLen.trans resized.trLen
  -- What was written is what is found.
  have found : (mid.putTrace order data).traceBytes order = data := by
    rw [Mbuf.traceBytes, putTrLen]
    change (mid.tpBuf.overlay (Rmr.traceAddr order mid.tpBuf) (Block.ofList data) 0
      data.length).slice (Rmr.traceAddr order (mid.tpBuf.overlay (Rmr.traceAddr order mid.tpBuf)
        (Block.ofList data) 0 data.length)) data.length = data
    rw [trace, Block.overlay_slice_inside, Block.ofList_slice _ _ _ (by omega), List.drop_zero,
      List.take_length]
  have inside : Rmr.traceAddr order (mid.putTrace order data).tpBuf + data.length ≤
      (mid.putTrace order data).tpBuf.size := by
    change Rmr.traceAddr order (mid.tpBuf.overlay (Rmr.traceAddr order mid.tpBuf)
      (Block.ofList data) 0 data.length) + data.length ≤ mid.tpBuf.size
    rw [trace, resized.traceAddr]
    exact held
  constructor
  · exact {
      toUntouched := untouched
      trace := fun size inInt => rmrGetTrace_found putFramed inside putTrLen found inInt
      trlen := by
        have small := putFramed.trLen_int
        rw [putTrLen] at small
        rw [rmrGetTrlen, putTrLen, small] }
  · exact {
      toUntouched := untouched
      framed := putFramed
      allocLen := resized.allocLen
      trLen := putTrLen
      traceAddr := trace.trans resized.traceAddr
      starts := resized.starts }

/-- Trace data that is set: the message has another buffer where the length changed. -/
theorem rmrSetTrace_made {next : Draft} (framed : draft.msg.Framed order) (some_ : data ≠ [])
    (fits : (data.length : Int) ≤ intMax) (made : rmrSetTrace order left draft data = .ok next) :
    draft.msg.TraceSet order data next.msg ∧ draft.msg.Resized order data.length next.msg ∧
      if data.length = rmrTrLen order draft.msg.tpBuf then
        traceAddr order draft.msg.tpBuf + data.length ≤ draft.msg.tpBuf.size ∧
          next.msg.tpBuf.size = draft.msg.tpBuf.size
      else
        draft.msg.Moves order data.length ∧ (next.msg.tpBuf.size : Int) =
          draft.msg.allocLen + data.length - rmrTrLen order draft.msg.tpBuf + tpHdrLen := by
  -- Trace data of the same length is put in place; for another length there is a new buffer first.
  have length : data.length ≠ 0 := fun none_ => some_ (List.eq_nil_of_length_eq_zero none_)
  unfold rmrSetTrace at made
  rw [if_neg length] at made
  obtain ⟨mid, midIs, made⟩ := bind_eq_ok.mp made
  obtain ⟨traced, tracedIs, made⟩ := bind_eq_ok.mp made
  obtain ⟨⟨-, -, held, -, -⟩, rfl⟩ := Block.memcpy_inside tracedIs
  cases made
  rw [Draft.sizeTrace] at midIs
  by_cases same : data.length = rmrTrLen order draft.msg.tpBuf
  · rw [if_pos same.symm] at midIs
    cases midIs
    have resized : draft.msg.Resized order data.length draft.msg := by
      rw [same]
      exact framed.resized
    have held : traceAddr order draft.msg.tpBuf + data.length ≤ draft.msg.tpBuf.size := by omega
    rw [if_pos same]
    exact ⟨(resized.put held).1, (resized.put held).2, held, rfl⟩
  · rw [if_neg fun is => same is.symm] at midIs
    obtain ⟨nm, nmIs, midIs⟩ := bind_eq_ok.mp midIs
    cases midIs
    obtain ⟨moves, rfl⟩ := reallocMsg_moves framed fits nmIs
    obtain ⟨resized, bufSize⟩ := moves.resized left framed fits
    have held : traceAddr order draft.msg.tpBuf + data.length ≤
        (draft.resized order left data.length).msg.tpBuf.size := by
      rw [← resized.traceAddr]
      have held : (traceAddr order (draft.resized order left data.length).msg.tpBuf : Int) +
        data.length ≤ (draft.resized order left data.length).msg.tpBuf.size := held
      omega
    rw [if_neg same]
    exact ⟨(resized.put held).1, (resized.put held).2, moves, bufSize⟩

/-- Trace data can be set where it fits, or where the message moves. -/
theorem rmrSetTrace_goes (left : Leftover) (framed : draft.msg.Framed order) (some_ : data ≠ [])
    (fits : (data.length : Int) ≤ intMax)
    (room : if data.length = rmrTrLen order draft.msg.tpBuf then
        traceAddr order draft.msg.tpBuf + data.length ≤ draft.msg.tpBuf.size
      else draft.msg.Moves order data.length) :
    ∃ next, rmrSetTrace order left draft data = .ok next := by
  have length : data.length ≠ 0 := fun none_ => some_ (List.eq_nil_of_length_eq_zero none_)
  have whole : 0 + data.length ≤ (Block.ofList data).size := by
    rw [Nat.zero_add, Block.ofList_size]
  unfold rmrSetTrace
  rw [if_neg length]
  by_cases same : data.length = rmrTrLen order draft.msg.tpBuf
  · rw [if_pos same] at room
    have sized : draft.sizeTrace order left data.length = .ok draft := if_pos same.symm
    have put := Block.memcpy_ok draft.msg.tpBuf (traceAddr order draft.msg.tpBuf)
      (Block.ofList data) 0 data.length room whole
    exact ⟨_, bind_eq_ok.mpr ⟨_, sized, bind_eq_ok.mpr ⟨_, put, rfl⟩⟩⟩
  · rw [if_neg same] at room
    obtain ⟨resized, bufSize⟩ := room.resized left framed fits
    have sized : draft.sizeTrace order left data.length =
        .ok (draft.resized order left data.length) := by
      rw [Draft.sizeTrace, if_neg fun is => same is.symm, room.reallocMsg framed fits]
      rfl
    -- The trace data lies in front of the payload, for which there is room.
    have held : traceAddr order draft.msg.tpBuf + data.length ≤
        (draft.resized order left data.length).msg.tpBuf.size := by
      obtain ⟨-, data1, data2, payload, -⟩ := framed.parts
      have fits' := room.fits
      have used := room.used
      omega
    rw [← resized.traceAddr] at held
    have put := Block.memcpy_ok (draft.resized order left data.length).msg.tpBuf
      (traceAddr order (draft.resized order left data.length).msg.tpBuf) (Block.ofList data) 0
      data.length held whole
    exact ⟨_, bind_eq_ok.mpr ⟨_, sized, bind_eq_ok.mpr ⟨_, put, rfl⟩⟩⟩

/-- When a message moves, told by where its parts lie. -/
theorem Mbuf.moves_iff (used : 0 ≤ msg.len) (size : Nat) (front behind : Int)
    (starts : front + rmrTrLen order msg.tpBuf + behind = msg.payload + msg.len) :
    msg.Moves order size ↔
      front + rmrTrLen order msg.tpBuf + behind ≤ msg.tpBuf.size ∧
        front + rmrTrLen order msg.tpBuf + behind ≤ msg.allocLen + tpHdrLen ∧
        msg.allocLen + size - rmrTrLen order msg.tpBuf + tpHdrLen ≤ intMax := by
  -- Front, trace and rest make up the payload's end, which each of the bounds is about.
  rw [starts]
  constructor
  · intro moves
    exact ⟨moves.held, moves.fits, moves.counted⟩
  · intro room
    exact ⟨⟨room.2.1, room.2.2⟩, used, room.1⟩

/-- Trace data that is set again and again is what is found, and all else stays as it was, exactly
when there is room each time: a message that is given another buffer goes on with the length that it
had, so what was added for trace data is missing when its length changes again. -/
theorem rmrSetTrace_roundTrips_iff (left : Leftover) (framed : draft.msg.Framed order)
    (filled : 0 ≤ draft.msg.len) {sets : List (List UInt8)}
    (asked : ∀ data ∈ sets, data ≠ [] ∧ (data.length : Int) ≤ intMax) :
    draft.TracesAll order left sets ↔
      TraceRoom draft.msg.allocLen (traceAddr order draft.msg.tpBuf)
        (draft.msg.payload + draft.msg.len - traceAddr order draft.msg.tpBuf -
          rmrTrLen order draft.msg.tpBuf)
        draft.msg.tpBuf.size (rmrTrLen order draft.msg.tpBuf) (sets.map List.length) := by
  obtain ⟨behind, behindIs⟩ : ∃ behind : Int, behind = draft.msg.payload + draft.msg.len -
    traceAddr order draft.msg.tpBuf - rmrTrLen order draft.msg.tpBuf := ⟨_, rfl⟩
  rw [← behindIs]
  -- What stays the same is taken along from one set of trace data to the next.
  induction sets generalizing draft with
  | nil => exact Iff.rfl
  | cons data later ih =>
    obtain ⟨⟨some_, fits⟩, asked⟩ := List.forall_mem_cons.mp asked
    rw [Draft.TracesAll, List.map_cons, TraceRoom]
    have onward : ∀ next, rmrSetTrace order left draft data = .ok next →
        (next.TracesAll order left later ↔ TraceRoom draft.msg.allocLen
          (traceAddr order draft.msg.tpBuf) behind next.msg.tpBuf.size data.length
          (later.map List.length)) := by
      intro next made
      obtain ⟨-, resized, -⟩ := rmrSetTrace_made framed some_ fits made
      have starts := resized.starts
      have rest := ih resized.framed (resized.len ▸ filled) asked
        (by rw [resized.len, resized.traceAddr, resized.trLen]; omega)
      rw [resized.allocLen, resized.traceAddr, resized.trLen] at rest
      exact rest
    have moves := @Mbuf.moves_iff order draft.msg filled data.length
      (traceAddr order draft.msg.tpBuf) behind (by omega)
    by_cases same : data.length = rmrTrLen order draft.msg.tpBuf
    · rw [if_pos same]
      constructor
      · intro sets
        obtain ⟨next, made, -, rest⟩ := sets
        obtain ⟨-, -, held⟩ := rmrSetTrace_made framed some_ fits made
        rw [if_pos same] at held
        have room := (onward next made).mp rest
        rw [held.2, same] at room
        exact ⟨by exact_mod_cast held.1, room⟩
      · intro room
        obtain ⟨next, made⟩ := rmrSetTrace_goes left framed some_ fits
          (by rw [if_pos same]; exact_mod_cast room.1)
        obtain ⟨set_, -, held⟩ := rmrSetTrace_made framed some_ fits made
        rw [if_pos same] at held
        refine ⟨next, made, set_, (onward next made).mpr ?_⟩
        rw [held.2, same]
        exact room.2
    · rw [if_neg same]
      constructor
      · intro sets
        obtain ⟨next, made, -, rest⟩ := sets
        obtain ⟨-, -, held⟩ := rmrSetTrace_made framed some_ fits made
        rw [if_neg same] at held
        have room := (onward next made).mp rest
        rw [held.2] at room
        obtain ⟨there, fits', counted⟩ := moves.mp held.1
        exact ⟨there, fits', counted, room⟩
      · intro room
        obtain ⟨there, fits', counted, room⟩ := room
        have moves := moves.mpr ⟨there, fits', counted⟩
        obtain ⟨next, made⟩ := rmrSetTrace_goes left framed some_ fits
          (by rw [if_neg same]; exact moves)
        obtain ⟨set_, -, held⟩ := rmrSetTrace_made framed some_ fits made
        rw [if_neg same] at held
        refine ⟨next, made, set_, (onward next made).mpr ?_⟩
        rw [held.2]
        exact room

end

/-- Trace data that grows, is replaced and is cut again. -/
theorem rmrSetTrace_roundTrips_four :
    Yields (fun draft => draft.TracesAll .little (fun _ _ => 0) [[7], [7, 8, 9], [1, 2, 3], [4]])
      (compose SendConf.plain (fun _ _ => 0) (.alloc 100) [.payload (List.replicate 100 9)]) := by
  have room : Yields (fun draft => 0 ≤ draft.msg.len ∧
        TraceRoom draft.msg.allocLen (traceAddr .little draft.msg.tpBuf)
          (draft.msg.payload + draft.msg.len - traceAddr .little draft.msg.tpBuf -
            rmrTrLen .little draft.msg.tpBuf)
          draft.msg.tpBuf.size (rmrTrLen .little draft.msg.tpBuf)
          (([[7], [7, 8, 9], [1, 2, 3], [4]] : List (List UInt8)).map List.length))
      (compose SendConf.plain (fun _ _ => 0) (.alloc 100) [.payload (List.replicate 100 9)]) := by
    decide +kernel
  obtain ⟨draft, composed, filled, room⟩ := room.exists
  have framed : draft.msg.Framed .little := compose_framed plain_sane composed
  have asked : ∀ data ∈ ([[7], [7, 8, 9], [1, 2, 3], [4]] : List (List UInt8)),
      data ≠ [] ∧ (data.length : Int) ≤ intMax := by
    simp [intMax]
  refine Yields.intro composed ?_
  rw [rmrSetTrace_roundTrips_iff (fun _ _ => 0) framed filled asked]
  -- The room is not looked into once more, whatever the lengths are.
  generalize ([[7], [7, 8, 9], [1, 2, 3], [4]] : List (List UInt8)).map List.length = sizes
    at room ⊢
  exact room

/-- A message with its payload filled is given a hundred bytes of trace data; when these are cut to
ten, the payload is copied past the end of the new buffer. -/
theorem cut_trace_overruns :
    Yields (fun draft => draft.msg.len = rmrPayloadSize .little draft.msg ∧
        ¬ draft.TracesAll .little (fun _ _ => 0) [List.replicate 100 7, List.replicate 10 7])
      (compose SendConf.plain (fun _ _ => 0) (.alloc 100) [.payload (List.replicate 100 9)]) := by
  -- The second call is evaluated: its new buffer is sized for less than the payload that is in use.
  have fails : Yields (fun draft => draft.msg.len = rmrPayloadSize .little draft.msg ∧
        (rmrSetTrace .little (fun _ _ => 0) draft (List.replicate 100 7) >>= fun draft =>
          rmrSetTrace .little (fun _ _ => 0) draft (List.replicate 10 7)).toOption.isNone = true)
      (compose SendConf.plain (fun _ _ => 0) (.alloc 100) [.payload (List.replicate 100 9)]) := by
    decide +kernel
  obtain ⟨draft, composed, filled, none_⟩ := fails.exists
  refine Yields.intro composed ⟨filled, fun sets => ?_⟩
  rw [Draft.TracesAll] at sets
  obtain ⟨mid, first, -, later⟩ := sets
  rw [Draft.TracesAll] at later
  obtain ⟨next, second, -, -⟩ := later
  have both : (rmrSetTrace .little (fun _ _ => 0) draft (List.replicate 100 7) >>= fun draft =>
      rmrSetTrace .little (fun _ _ => 0) draft (List.replicate 10 7)) = .ok next :=
    bind_eq_ok.mpr ⟨mid, first, second⟩
  rw [both] at none_
  cases none_

end Rmr
