import Rmr.Proofs.Message.SetTrace

/-! What `rmr_realloc_payload` returns, for all flags and sizes. -/

namespace Rmr

/-- The message that `realloc_payload` returns. -/
def Realloc.returned (draft : Draft) : Realloc → Option Draft
  | .refused => none
  | .same => some draft
  | .failed => none
  | .made nm => some nm

/-- A message that is large enough for a payload, and says what the one that it was made of says. -/
structure Mbuf.Reallocated (order : ByteOrder) (payloadLen : Int) (copy : Bool) (msg nm : Mbuf) :
    Prop where
  room : payloadLen ≤ rmrPayloadSize order nm
  trace : nm.traceBytes order = msg.traceBytes order
  data1 : nm.data1Bytes order = msg.data1Bytes order
  xaction : nm.tpBuf.slice HdrField.xid.offset rmrMaxXid =
    msg.tpBuf.slice HdrField.xid.offset rmrMaxXid
  meid : nm.tpBuf.slice HdrField.meid.offset rmrMaxMeid =
    msg.tpBuf.slice HdrField.meid.offset rmrMaxMeid
  src : nm.tpBuf.slice HdrField.src.offset rmrMaxSrc = msg.tpBuf.slice HdrField.src.offset rmrMaxSrc
  srcip : nm.tpBuf.slice HdrField.srcip.offset rmrMaxSrc =
    msg.tpBuf.slice HdrField.srcip.offset rmrMaxSrc
  rtsFd : nm.rtsFd = msg.rtsFd
  copied : copy = true → nm.mtype = msg.mtype ∧ nm.subId = msg.subId ∧ nm.len = msg.len ∧
    nm.payloadBytes = msg.payloadBytes
  blank : copy = false → nm.mtype = -1 ∧ nm.subId = -1 ∧ nm.len = 0

/-- The law of `rmr_realloc_payload`, whatever the memory holds that is allocated. -/
def ReallocLaw (order : ByteOrder) (draft : Draft) (payloadLen : Int) (copy clone : Bool) : Prop :=
  ∀ left : Leftover, ∃ outcome nm, reallocPayload order left draft payloadLen copy clone =
    .ok outcome ∧
    outcome.returned draft = some nm ∧ draft.msg.Reallocated order payloadLen copy nm.msg ∧
    (clone = true →
      -- The message is in a buffer of its own, and the one that was cloned is still there as it
      -- was.
      nm.allocs = draft.allocs + 1 ∧ ∀ (pool : Pool) (id : Nat), id < pool.count →
        (pool.putRealloc id clone outcome).msgs id = pool.msgs id)

/-- The end of all in a message that has to be there after its payload was copied. -/
def Mbuf.usedEnd (order : ByteOrder) (msg : Mbuf) : Int :=
  if 0 < msg.len then msg.payload + msg.len
  else if 0 < rmrD1Len order msg.tpBuf then
    data1Addr order msg.tpBuf + rmrD1Len order msg.tpBuf
  else if 0 < rmrTrLen order msg.tpBuf then traceAddr order msg.tpBuf + rmrTrLen order msg.tpBuf
  else tpHdrLen + mhdrLen

/-- When another buffer can be made for a payload: its size is an `int`, and what is copied is
there; the payload and all else is copied as far as the message says that its buffer goes. -/
def Mbuf.ReallocRoom (order : ByteOrder) (msg : Mbuf) (payloadLen : Int) (copy : Bool) : Prop :=
  msg.payload + max payloadLen (rmrPayloadSize order msg) ≤ intMax ∧
    if copy then msg.usedEnd order ≤ msg.allocLen ∧ msg.allocLen ≤ msg.tpBuf.size
    else msg.payload ≤ msg.tpBuf.size

instance (order : ByteOrder) (msg : Mbuf) (payloadLen : Int) (copy : Bool) :
    Decidable (msg.ReallocRoom order payloadLen copy) :=
  inferInstanceAs (Decidable (_ ∧ if copy then _ else _))

section
variable {order : ByteOrder} {left : Leftover} {draft nm : Draft} {msg : Mbuf} {payloadLen : Int}
  {copy clone : Bool}

/-- What `realloc_payload` copies is there, and what the message says of itself does not come from
the header. -/
theorem reallocPayload_tells
    (made : reallocPayload order left draft payloadLen copy clone = .ok (.made nm)) :
    tpHdrLen + reallocCount order draft.msg copy ≤ draft.msg.tpBuf.size ∧
      nm.allocs = draft.allocs + 1 ∧ nm.msg.rtsFd = draft.msg.rtsFd ∧
      (copy = true → nm.msg.mtype = draft.msg.mtype ∧ nm.msg.subId = draft.msg.subId ∧
        nm.msg.len = draft.msg.len) ∧
      (copy = false → nm.msg.mtype = -1 ∧ nm.msg.subId = -1 ∧ nm.msg.len = 0) := by
  -- The branches that make no message are taken out one by one, in the order of the code.
  have marks := congrArg Marks.rtsFd (reallocPayload_marks made)
  have rtsFd : nm.msg.rtsFd = draft.msg.rtsFd := by
    change nm.msg.rtsFd = _ at marks
    rw [marks]
    cases clone <;> rfl
  unfold reallocPayload at made
  dsimp only at made
  split at made
  · cases made
  split at made
  · cases made
  obtain ⟨mlen, -, made⟩ := bind_eq_ok.mp made
  split at made
  · cases made
  split at made
  · cases made
  obtain ⟨filled, filledIs, made⟩ := bind_eq_ok.mp made
  obtain ⟨ref, refIs, made⟩ := bind_eq_ok.mp made
  change Block.memcpy _ _ _ _ (reallocCount order draft.msg copy : Int) = _ at filledIs
  obtain ⟨⟨-, -, -, -, held⟩, -⟩ := Block.memcpy_inside filledIs
  cases made
  refine ⟨by exact_mod_cast held, rfl, rtsFd, ?_, ?_⟩
  · intro on
    subst on
    exact ⟨rfl, rfl, rfl⟩
  · intro off
    subst off
    exact ⟨rfl, rfl, rfl⟩

/-- The bytes that were copied are those of the old buffer. -/
theorem Rebuilt.copied (rebuilt : Rebuilt order left draft payloadLen copy msg) {start count : Nat}
    (behind : tpHdrLen ≤ start)
    (within : start + count ≤ tpHdrLen + reallocCount order draft.msg copy) :
    msg.tpBuf.slice start count = draft.msg.tpBuf.slice start count := by
  obtain ⟨skip, rfl⟩ := Nat.exists_eq_add_of_le behind
  rw [rebuilt.tpBuf]
  exact Block.overlay_slice_part _ _ _ _ _ skip count (by omega)

/-- A byte behind those, and behind the length that is set before, is one of the memory found. -/
theorem Rebuilt.found (rebuilt : Rebuilt order left draft payloadLen copy msg) {i : Nat}
    (behind : 250 ≤ i) (after : tpHdrLen + reallocCount order draft.msg copy ≤ i) :
    msg.tpBuf.byte i = left draft.allocs i := by
  -- The byte is behind the copy and behind the word, so that only the memory itself is there.
  have outside : (hdrSet order (left.malloc draft.allocs msg.allocLen) .len0 mhdrLen).slice i 1 =
      (left.malloc draft.allocs msg.allocLen).slice i 1 :=
    hdrSet_slice_outside _ _ _ _ (.inr (by simp only [HdrField.offset, tpHdrLen]; omega))
  have byte : (hdrSet order (left.malloc draft.allocs msg.allocLen) .len0 mhdrLen).byte i =
      (left.malloc draft.allocs msg.allocLen).byte i :=
        Block.byte_of_slice (i := 0) outside Nat.one_pos
  rw [rebuilt.tpBuf]
  simp only [Block.overlay]
  rw [if_neg (by omega), byte]
  rfl

/-- The header parts of a message and the transport header, as `realloc_payload` adds them up. -/
theorem hdrLen_int (framed : msg.Framed order) :
    toInt (toUint ((rmrHdrLen order msg.tpBuf : Int) + tpHdrLen)) = toInt msg.payload := by
  rw [toInt_of_toUint, framed.headed.hdrLen]
  congr 1
  push_cast
  omega

/-- How far the parts of a message go that have to be there after they were copied. -/
structure Mbuf.Reaches (order : ByteOrder) (msg : Mbuf) (copy : Bool) (upTo : Nat) : Prop where
  header : 330 ≤ upTo
  trace : 0 < rmrTrLen order msg.tpBuf → traceAddr order msg.tpBuf + rmrTrLen order msg.tpBuf ≤ upTo
  data1 : 0 < rmrD1Len order msg.tpBuf → data1Addr order msg.tpBuf + rmrD1Len order msg.tpBuf ≤ upTo
  payload : copy = true → 0 < msg.len → msg.payload + msg.len ≤ upTo

/-- Where the payload is copied, too, they are those that end last. -/
theorem Mbuf.Framed.reaches_iff (framed : msg.Framed order) (upTo : Nat) :
    msg.Reaches order true upTo ↔ msg.usedEnd order ≤ upTo := by
  -- Each part ends no later than the last of them, which is the used end.
  obtain ⟨behind, data1, data2, payload, -⟩ := framed.parts
  unfold Mbuf.usedEnd
  simp only [tpHdrLen, mhdrLen]
  constructor
  · intro reaches
    have header := reaches.header
    have trace := reaches.trace
    have d1 := reaches.data1
    have body := reaches.payload rfl
    split_ifs <;> omega
  · intro within
    split_ifs at within with some_ d1 trace
    · exact ⟨by omega, by omega, by omega, by omega⟩
    · exact ⟨by omega, by omega, by omega, by omega⟩
    · exact ⟨by omega, by omega, by omega, by omega⟩
    · exact ⟨by omega, by omega, by omega, by omega⟩

/-- A header that is copied whole leads to all that is in front of the payload. -/
theorem Mbuf.Framed.reaches_head (framed : msg.Framed order) :
    msg.Reaches order false msg.payload := by
  obtain ⟨behind, data1, data2, payload, -⟩ := framed.parts
  exact ⟨by omega, by omega, by omega, fun copied => by cases copied⟩

/-- A message in another buffer says what it is to say if all of that was copied. -/
theorem Rebuilt.reallocated (rebuilt : Rebuilt order left draft payloadLen copy nm.msg)
    (framed : draft.msg.Framed order)
    (counted : draft.msg.payload + max payloadLen (rmrPayloadSize order draft.msg) ≤ intMax)
    (reaches : draft.msg.Reaches order copy (tpHdrLen + reallocCount order draft.msg copy))
    (made : reallocPayload order left draft payloadLen copy clone = .ok (.made nm)) :
    draft.msg.Reallocated order payloadLen copy nm.msg := by
  obtain ⟨-, -, rtsFd, copied, blank⟩ := reallocPayload_tells made
  have asked := rebuilt.asked
  have header := reaches.header
  have lens : nm.msg.tpBuf.slice 246 16 = draft.msg.tpBuf.slice 246 16 :=
    rebuilt.copied (by decide) (by omega)
  have headed := framed.headed.congr lens
  have payload : nm.msg.payload = draft.msg.payload := rebuilt.payload.trans headed.starts.symm
  have framedNm : nm.msg.Framed order :=
    ⟨rebuilt.inInt, headed.at_ payload, by rw [payload]; exact framed.near⟩
  obtain ⟨trace, trLen, data1, d1Len, -⟩ := parts_congr order lens
  have behind := framed.parts.1
  have behind' : 330 ≤ data1Addr order draft.msg.tpBuf := (addrs_behind framed.headed.len0).2.1
  have allocLen := rebuilt.allocLen
  rw [hdrLen_int framed] at allocLen
  obtain ⟨oldPsize, oldPsizeIs⟩ : ∃ oldPsize, oldPsize = rmrPayloadSize order draft.msg := ⟨_, rfl⟩
  rw [← oldPsizeIs] at allocLen counted
  clear oldPsizeIs
  -- The size of the buffer is that of all in front of the payload, and of the larger payload.
  have small : (draft.msg.payload : Int) ≤ intMax := by
    clear allocLen
    omega
  rw [toInt_natCast small] at allocLen
  have room : payloadLen ≤ rmrPayloadSize order nm.msg := by
    have rest : nm.msg.allocLen - nm.msg.payload = max payloadLen oldPsize := by
      rw [allocLen, payload]
      omega
    rw [rmrPayloadSize_behind framedNm, rest,
      toInt_of_inInt ⟨by simp only [intMin]; omega, by omega⟩]
    exact le_max_left _ _
  exact {
    room := room
    trace := by
      rw [Mbuf.traceBytes, Mbuf.traceBytes, trace, trLen]
      rcases Nat.eq_zero_or_pos (rmrTrLen order draft.msg.tpBuf) with none_ | some_
      · rw [none_, Block.slice_zero, Block.slice_zero]
      · exact rebuilt.copied (by simp only [tpHdrLen]; omega) (reaches.trace some_)
    data1 := by
      rw [Mbuf.data1Bytes, Mbuf.data1Bytes, data1, d1Len]
      rcases Nat.eq_zero_or_pos (rmrD1Len order draft.msg.tpBuf) with none_ | some_
      · rw [none_, Block.slice_zero, Block.slice_zero]
      · exact rebuilt.copied (by simp only [tpHdrLen]; omega) (reaches.data1 some_)
    xaction := rebuilt.copied (by decide)
      (by simp only [HdrField.offset, rmrMaxXid, tpHdrLen] at *; omega)
    meid := rebuilt.copied (by decide)
      (by simp only [HdrField.offset, rmrMaxMeid, tpHdrLen] at *; omega)
    src := rebuilt.copied (by decide)
      (by simp only [HdrField.offset, rmrMaxSrc, tpHdrLen] at *; omega)
    srcip := rebuilt.copied (by decide)
      (by simp only [HdrField.offset, rmrMaxSrc, tpHdrLen] at *; omega)
    rtsFd := rtsFd
    copied := by
      intro on
      obtain ⟨mtype, subId, len⟩ := copied on
      refine ⟨mtype, subId, len, ?_⟩
      rw [Mbuf.payloadBytes, Mbuf.payloadBytes, payload, len]
      rcases Int.lt_or_le 0 draft.msg.len with some_ | none_
      · have within := reaches.payload on some_
        have starts := framed.behind
        clear room
        exact rebuilt.copied (by simp only [tpHdrLen]; omega) (by omega)
      · rw [Int.toNat_of_nonpos none_, Block.slice_zero, Block.slice_zero]
    blank := blank }

/-- Without the payload, all in front of it is copied. -/
theorem reallocCount_head (framed : msg.Framed order) :
    tpHdrLen + reallocCount order msg false = msg.payload := by
  rw [reallocCount, if_neg Bool.false_ne_true, ← framed.headed.hdrLen]

/-- With the payload, all that the message says it has is copied, which is a lot where the length is
below that of the transport header. -/
theorem reallocCount_whole (order : ByteOrder) (inInt : InInt msg.allocLen) :
    (tpHdrLen ≤ msg.allocLen → ((tpHdrLen + reallocCount order msg true : Nat) : Int) =
      msg.allocLen) ∧
      (msg.allocLen < tpHdrLen →
        intMax < ((tpHdrLen + reallocCount order msg true : Nat) : Int)) := by
  obtain ⟨low, high⟩ := inInt
  rw [reallocCount, if_pos rfl, copyCount]
  simp only [tpHdrLen, intMin, intMax, toUint] at *
  -- A negative difference is taken for a large size.
  constructor
  · intro enough
    omega
  · intro short
    omega

/-- A message whose size is an `int` refers to its buffer. -/
theorem Mbuf.refTpbuf_goes {alen : Int} {payload : Nat} (headed : Headed order msg.tpBuf payload)
    (near : (payload : Int) ≤ intMax) (room : InInt alen) (enough : 0 ≤ alen) :
    ∃ mbuf, msg.refTpbuf order alen = .ok mbuf := by
  -- The space behind the header is an `int`, whichever branch it leads to.
  have hdrLen := headed.hdrLen
  have hlen : toInt (rmrHdrLen order msg.tpBuf) = rmrHdrLen order msg.tpBuf :=
    toInt_natCast (by omega)
  have space : subInt alen (toInt (rmrHdrLen order msg.tpBuf)) =
      .ok (alen - rmrHdrLen order msg.tpBuf) := by
    rw [hlen]
    clear hlen
    obtain ⟨-, high⟩ := room
    simp only [intMax] at high near
    exact subInt_ok (by simp only [InInt, intMin, intMax]; omega)
  by_cases less : alen - rmrHdrLen order msg.tpBuf < toInt (hdrGet order msg.tpBuf .plen)
  · exact ⟨_, bind_eq_ok.mpr ⟨_, space, if_pos less⟩⟩
  · exact ⟨_, bind_eq_ok.mpr ⟨_, space, if_neg less⟩⟩

/-- What is copied to the new buffer is there, and has room in it. -/
theorem Mbuf.ReallocRoom.copies (framed : msg.Framed order) (asked : 0 < payloadLen)
    (room : msg.ReallocRoom order payloadLen copy) :
    msg.Reaches order copy (tpHdrLen + reallocCount order msg copy) ∧
      tpHdrLen + reallocCount order msg copy ≤ msg.tpBuf.size ∧
      ((tpHdrLen + reallocCount order msg copy : Nat) : Int) ≤
        msg.payload + max payloadLen (rmrPayloadSize order msg) := by
  obtain ⟨counted, held⟩ := room
  have larger := le_max_right payloadLen (rmrPayloadSize order msg)
  have positive := le_max_left payloadLen (rmrPayloadSize order msg)
  cases copy with
  | false =>
    rw [if_neg Bool.false_ne_true] at held
    rw [reallocCount_head framed]
    generalize max payloadLen (rmrPayloadSize order msg) = most at *
    exact ⟨framed.reaches_head, held, by omega⟩
  | true =>
    rw [if_pos rfl] at held
    obtain ⟨reached, held⟩ := held
    have behind := framed.behind
    -- The message has its header at least, so what it says it has is copied.
    have header : 330 ≤ msg.allocLen := by
      have header := ((framed.reaches_iff msg.allocLen.toNat).mpr (by
        have low : (0 : Int) ≤ msg.usedEnd order := by
          unfold Mbuf.usedEnd
          split_ifs <;> omega
        omega)).header
      omega
    have whole := (reallocCount_whole order framed.inInt).1 (by simp only [tpHdrLen]; omega)
    have size : rmrPayloadSize order msg = msg.allocLen - msg.payload := by
      rw [rmrPayloadSize_behind framed]
      have high := framed.inInt.2
      clear larger
      generalize max payloadLen (rmrPayloadSize order msg) = most at *
      simp only [intMax] at counted high
      exact toInt_of_inInt ⟨by simp only [intMin]; omega, by simp only [intMax]; omega⟩
    generalize max payloadLen (rmrPayloadSize order msg) = most at *
    refine ⟨(framed.reaches_iff _).mpr (by omega), by omega, by omega⟩

/-- With room for it, another buffer is made. -/
theorem reallocPayload_goes (left : Leftover) (framed : draft.msg.Framed order)
    (asked : 0 < payloadLen)
    (slow : ¬ (clone = false ∧ payloadLen ≤ rmrPayloadSize order draft.msg))
    (room : draft.msg.ReallocRoom order payloadLen copy) :
    ∃ nm, reallocPayload order left draft payloadLen copy clone = .ok (.made nm) := by
  -- Each copy stays in its two blocks, and the sums of the sizes are `int`s.
  obtain ⟨reaches, held, fits⟩ := room.copies framed asked
  have counted := room.1
  have header := reaches.header
  have behind := framed.behind
  have positive := le_max_left payloadLen (rmrPayloadSize order draft.msg)
  obtain ⟨most, mostIs⟩ : ∃ most, most = max payloadLen (rmrPayloadSize order draft.msg) := ⟨_, rfl⟩
  have hdrLen := hdrLen_int framed
  rw [← mostIs] at counted fits positive
  have small : (draft.msg.payload : Int) ≤ intMax := by
    clear hdrLen mostIs
    omega
  rw [toInt_natCast small] at hdrLen
  have inInt : InInt (draft.msg.payload + most) := by
    clear hdrLen mostIs
    exact ⟨by simp only [intMin]; omega, counted⟩
  have sum : addInt (toInt (toUint ((rmrHdrLen order draft.msg.tpBuf : Int) + tpHdrLen)))
      (max payloadLen (rmrPayloadSize order draft.msg)) = .ok (draft.msg.payload + most) := by
    rw [hdrLen, ← mostIs]
    exact addInt_ok inInt
  clear hdrLen
  obtain ⟨mlen, mlenIs⟩ : ∃ mlen : Nat, draft.msg.payload + most = mlen :=
    Int.eq_ofNat_of_zero_le (by clear mostIs; omega)
  rw [mlenIs] at sum fits inInt
  have large : 330 < mlen := by
    clear mostIs
    omega
  have copied := Block.memcpy_ok
    (hdrSet order (left.malloc draft.allocs mlen) .len0 mhdrLen) tpHdrLen
    draft.msg.tpBuf tpHdrLen (reallocCount order draft.msg copy)
    (by exact_mod_cast fits) held
  have lens : ((hdrSet order (left.malloc draft.allocs mlen) .len0 mhdrLen).overlay tpHdrLen
      draft.msg.tpBuf tpHdrLen (reallocCount order draft.msg copy)).slice 246 16 =
      draft.msg.tpBuf.slice 246 16 :=
    Block.overlay_slice_part _ tpHdrLen _ tpHdrLen _ 196 16
      (by simp only [tpHdrLen] at header; omega)
  generalize (hdrSet order (left.malloc draft.allocs mlen) .len0 mhdrLen).overlay tpHdrLen
      draft.msg.tpBuf tpHdrLen (reallocCount order draft.msg copy) = filled at copied lens
  have target : (reallocTarget draft.msg filled clone).tpBuf = filled := by
    cases clone <;> rfl
  have goes : ∃ ref, (reallocTarget draft.msg filled clone).refTpbuf order mlen = .ok ref :=
    Mbuf.refTpbuf_goes (target.symm ▸ framed.headed.congr lens) small inInt (by omega)
  obtain ⟨ref, refIs⟩ := goes
  unfold reallocPayload
  dsimp only
  rw [if_neg (by omega), if_neg slow]
  refine ⟨{
    msg := if copy then
        { ref with
          len := draft.msg.len
          mtype := draft.msg.mtype
          subId := draft.msg.subId }
      else { ref with len := 0, mtype := -1, subId := -1 }
    allocs := draft.allocs + 1 }, bind_eq_ok.mpr ⟨_, sum, ?_⟩⟩
  rw [if_neg (by omega), if_neg (by simp only [HdrField.offset, tpHdrLen]; omega)]
  exact bind_eq_ok.mpr ⟨_, copied, bind_eq_ok.mpr ⟨_, refIs, rfl⟩⟩

/-- Memory that differs from a buffer in every byte. -/
def spoiled (tpBuf : Block) : Leftover := fun _ i => tpBuf.byte i + 1

/-- No byte is the one that comes next. -/
theorem add_one_ne (byte : UInt8) : byte + 1 ≠ byte := by
  -- The numbers of the two bytes differ by one, or by 255.
  intro same
  have number := congrArg UInt8.toNat same
  have small := byte.toNat_lt
  rw [UInt8.toNat_add, UInt8.toNat_one] at number
  omega

/-- In such memory, what is the same as before was copied. -/
theorem Rebuilt.upTo
    (rebuilt : Rebuilt order (spoiled draft.msg.tpBuf) draft payloadLen copy msg)
    {start count : Nat}
    (same : msg.tpBuf.slice start count = draft.msg.tpBuf.slice start count) (some_ : 0 < count)
    (behind : 250 < start + count) :
    start + count ≤ tpHdrLen + reallocCount order draft.msg copy := by
  -- By contradiction: the last byte of the part would be one more than it was, which no byte is.
  by_contra beyond
  have byte := Block.byte_of_slice same (i := count - 1) (by omega)
  rw [rebuilt.found (by omega) (by omega)] at byte
  exact add_one_ne _ byte

/-- The buffer is left as it is only on request, and where it will do. -/
theorem reallocPayload_same
    (kept : reallocPayload order left draft payloadLen copy clone = .ok .same) :
    clone = false ∧ payloadLen ≤ rmrPayloadSize order draft.msg := by
  -- Of all the branches only the first test leaves the message as it is.
  unfold reallocPayload at kept
  dsimp only at kept
  split at kept
  · cases kept
  split at kept
  · assumption
  obtain ⟨mlen, -, kept⟩ := bind_eq_ok.mp kept
  split at kept
  · cases kept
  split at kept
  · cases kept
  obtain ⟨filled, -, kept⟩ := bind_eq_ok.mp kept
  obtain ⟨ref, -, kept⟩ := bind_eq_ok.mp kept
  cases kept

/-- The size of a buffer that was made is the sum of what it is made for. -/
theorem Rebuilt.counted (rebuilt : Rebuilt order left draft payloadLen copy msg)
    (framed : draft.msg.Framed order) (fits : payloadLen ≤ intMax) :
    msg.allocLen = draft.msg.payload + max payloadLen (rmrPayloadSize order draft.msg) := by
  have allocLen := rebuilt.allocLen
  have room := rebuilt.room
  have near := framed.near
  have behind := framed.behind
  have most : max payloadLen (rmrPayloadSize order draft.msg) ≤ intMax :=
    max_le fits (inInt_toInt _).2
  rw [hdrLen_int framed] at allocLen
  generalize max payloadLen (rmrPayloadSize order draft.msg) = most at *
  by_cases small : (draft.msg.payload : Int) ≤ intMax
  · rwa [toInt_natCast small] at allocLen
  · -- The sum of the header parts turned negative, and less than a transport header is left.
    simp only [intMax, tpHdrLen] at near small most room
    rw [toInt_turn (by simp only [InInt, intMin, intMax]; omega)] at allocLen
    omega

/-- If the law holds whatever memory is found, there is room. -/
theorem ReallocLaw.room (framed : draft.msg.Framed order) (fits : payloadLen ≤ intMax)
    (slow : ¬ (clone = false ∧ payloadLen ≤ rmrPayloadSize order draft.msg))
    (law : ReallocLaw order draft payloadLen copy clone) :
    draft.msg.ReallocRoom order payloadLen copy := by
  obtain ⟨outcome, nm, outcomeIs, returned, tells, -⟩ := law (spoiled draft.msg.tpBuf)
  cases outcome with
  | refused => cases returned
  | failed => cases returned
  | same => exact absurd (reallocPayload_same outcomeIs) slow
  | made made =>
    obtain rfl := Option.some.inj returned
    have rebuilt := reallocPayload_made outcomeIs
    obtain ⟨held, -⟩ := reallocPayload_tells outcomeIs
    have allocLen := rebuilt.counted framed fits
    have inInt := rebuilt.inInt
    have room := rebuilt.room
    refine ⟨allocLen ▸ inInt.2, ?_⟩
    cases copy with
    | false =>
      rw [if_neg Bool.false_ne_true, ← reallocCount_head framed]
      exact held
    | true =>
      rw [if_pos rfl]
      obtain ⟨whole, short⟩ := reallocCount_whole order framed.inInt
      -- The length cannot be below that of the transport header, as too much would be copied.
      have enough : (tpHdrLen : Int) ≤ draft.msg.allocLen := by
        by_contra less
        have many := short (by omega)
        have high := inInt.2
        push_cast at many
        clear allocLen
        omega
      have whole := whole enough
      have header : 330 ≤ tpHdrLen + reallocCount order draft.msg true :=
        rebuilt.upTo tells.srcip (by decide) (by decide)
      have lens : made.msg.tpBuf.slice 246 16 = draft.msg.tpBuf.slice 246 16 :=
        rebuilt.copied (by decide) (by omega)
      have payload : made.msg.payload = draft.msg.payload :=
        rebuilt.payload.trans (framed.headed.congr lens).starts.symm
      obtain ⟨trace, trLen, data1, d1Len, -⟩ := parts_congr order lens
      obtain ⟨behind, data1Is, data2Is, payloadIs, -⟩ := framed.parts
      have reaches : draft.msg.Reaches order true
          (tpHdrLen + reallocCount order draft.msg true) := by
        refine ⟨header, ?_, ?_, ?_⟩
        · intro some_
          have same := tells.trace
          rw [Mbuf.traceBytes, Mbuf.traceBytes, trace, trLen] at same
          exact rebuilt.upTo same some_ (by omega)
        · intro some_
          have same := tells.data1
          rw [Mbuf.data1Bytes, Mbuf.data1Bytes, data1, d1Len] at same
          exact rebuilt.upTo same some_ (by omega)
        · intro on some_
          obtain ⟨-, -, len, same⟩ := tells.copied on
          rw [Mbuf.payloadBytes, Mbuf.payloadBytes, payload, len] at same
          have within := rebuilt.upTo same (by omega) (by omega)
          omega
      exact ⟨whole ▸ (framed.reaches_iff _).mp reaches, by omega⟩

/-- A buffer that will do is left as it is. -/
theorem reallocPayload_kept (left : Leftover) (asked : 0 < payloadLen)
    (fast : clone = false ∧ payloadLen ≤ rmrPayloadSize order draft.msg) :
    reallocPayload order left draft payloadLen copy clone = .ok .same := by
  unfold reallocPayload
  dsimp only
  rw [if_neg (by omega), if_pos fast]

/-- So the law asks for a message that says nothing where the payload is not to be copied. -/
theorem ReallocLaw.blank (law : ReallocLaw order draft payloadLen false clone)
    (asked : 0 < payloadLen)
    (fast : clone = false ∧ payloadLen ≤ rmrPayloadSize order draft.msg) :
    draft.msg.mtype = -1 ∧ draft.msg.subId = -1 ∧ draft.msg.len = 0 := by
  -- The law is asked of the buffer that is returned as it is.
  obtain ⟨outcome, nm, outcomeIs, returned, tells, -⟩ := law fun _ _ => 0
  rw [reallocPayload_kept _ asked fast] at outcomeIs
  obtain rfl := Except.ok.inj outcomeIs
  obtain rfl := Option.some.inj returned
  exact tells.blank rfl

/-- Reallocating a payload obeys its law exactly if, where the buffer is left as it is, the payload
was to be copied or there is nothing in the message; and if there is room for another buffer where
one is made. -/
theorem reallocPayload_law_iff (framed : draft.msg.Framed order) (asked : 0 < payloadLen)
    (fits : payloadLen ≤ intMax) :
    ReallocLaw order draft payloadLen copy clone ↔
      if clone = false ∧ payloadLen ≤ rmrPayloadSize order draft.msg then
        copy = true ∨ draft.msg.mtype = -1 ∧ draft.msg.subId = -1 ∧ draft.msg.len = 0
      else draft.msg.ReallocRoom order payloadLen copy := by
  by_cases fast : clone = false ∧ payloadLen ≤ rmrPayloadSize order draft.msg
  · rw [if_pos fast]
    constructor
    · intro law
      cases copy with
      | true => exact .inl rfl
      | false => exact .inr (law.blank asked fast)
    · intro right left
      refine ⟨.same, draft, reallocPayload_kept left asked fast, rfl, ?_,
        fun cloned => by rw [fast.1] at cloned; cases cloned⟩
      exact {
        room := fast.2
        trace := rfl
        data1 := rfl
        xaction := rfl
        meid := rfl
        src := rfl
        srcip := rfl
        rtsFd := rfl
        copied := fun _ => ⟨rfl, rfl, rfl, rfl⟩
        blank := fun off => right.resolve_left (by rw [off]; exact Bool.false_ne_true) }
  · rw [if_neg fast]
    constructor
    · exact ReallocLaw.room framed fits fast
    · intro room left
      obtain ⟨nm, made⟩ := reallocPayload_goes left framed asked fast room
      refine ⟨.made nm, nm, made, rfl, ?_, ?_⟩
      · exact (reallocPayload_made made).reallocated framed room.1 (room.copies framed asked).1 made
      · intro cloned
        refine ⟨(reallocPayload_tells made).2.1, ?_⟩
        intro pool id held
        -- The clone is put under a number of its own.
        rw [cloned]
        change (pool.add nm).msgs id = pool.msgs id
        rw [Pool.add_msgs, if_neg (by omega)]

end

/-- A message that is cloned into a larger one. -/
theorem reallocPayload_law_cloned :
    Yields (fun draft => ReallocLaw .little draft 100 true true)
      (compose SendConf.plain (fun _ _ => 0) (.alloc 8) [.mtype 7, .payload [1, 2]]) := by
  -- The room is decided for the message composed, so that the law holds of its clone.
  have room : Yields (fun draft => draft.msg.ReallocRoom .little 100 true)
      (compose SendConf.plain (fun _ _ => 0) (.alloc 8) [.mtype 7, .payload [1, 2]]) := by
    decide +kernel
  obtain ⟨draft, composed, room⟩ := room.exists
  have law := @reallocPayload_law_iff _ _ 100 true true (compose_framed plain_sane composed)
    (by decide) (by decide)
  rw [if_neg fun fast => by cases fast.1] at law
  exact Yields.intro composed (law.mpr room)

/-- A message that is large enough keeps its type and its length where the payload is not to be
copied; and of one that was given trace data the payload is not copied, since its length does not
count that. -/
theorem reallocPayload_unlawful :
    Yields (fun draft => ¬ ReallocLaw .little draft 50 false false)
      (compose SendConf.plain (fun _ _ => 0) (.alloc 100) [.mtype 7, .payload [1, 2]]) ∧
    Yields (fun draft => draft.msg.len = 100 ∧ draft.msg.allocLen = 434 ∧ draft.msg.payload = 434 ∧
        ¬ ReallocLaw .little draft 200 true false)
      (compose SendConf.plain (fun _ _ => 0) (.alloc 100)
        [.payload (List.replicate 100 9), .trace (List.replicate 100 7)]) := by
  -- Two messages: one that is kept as it is, and one whose payload is not copied.
  have kept : Yields (fun draft => 50 ≤ rmrPayloadSize .little draft.msg ∧ draft.msg.mtype = 7)
      (compose SendConf.plain (fun _ _ => 0) (.alloc 100) [.mtype 7, .payload [1, 2]]) := by
    decide +kernel
  have cut : Yields (fun draft => draft.msg.len = 100 ∧ draft.msg.allocLen = 434 ∧
        draft.msg.payload = 434 ∧ rmrPayloadSize .little draft.msg < 200 ∧
        ¬ draft.msg.ReallocRoom .little 200 true)
      (compose SendConf.plain (fun _ _ => 0) (.alloc 100)
        [.payload (List.replicate 100 9), .trace (List.replicate 100 7)]) := by
    decide +kernel
  constructor
  · obtain ⟨draft, composed, enough, mtype⟩ := kept.exists
    refine Yields.intro composed fun law => ?_
    have none_ := (law.blank (by decide) ⟨rfl, enough⟩).1
    rw [mtype] at none_
    cases none_
  · obtain ⟨draft, composed, len, allocLen, payload, less, short⟩ := cut.exists
    refine Yields.intro composed ⟨len, allocLen, payload, fun law => short ?_⟩
    have framed : draft.msg.Framed .little := compose_framed plain_sane composed
    exact law.room framed (by decide) fun fast => absurd fast.2 (Int.not_le.mpr less)

end Rmr
