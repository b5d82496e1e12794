import Rmr.Lib.Run
import Rmr.Proofs.Message.Layout

/-! Setting trace data, with and without another buffer for the message. -/

namespace Rmr

/-- A copy of no bytes changes nothing. -/
theorem overlay_zero (dst : Block) (start : Nat) (src : Block) (origin : Nat) :
    dst.overlay start src origin 0 = dst := by
  unfold Block.overlay
  congr 1
  funext i
  rw [if_neg (by omega)]

/-- Data that fits both buffers is copied, also when there is none. -/
theorem copyData_ok (hdr : Block) (start : Nat) (old : Block) (origin len : Nat)
    (room : start + len ≤ hdr.size) (held : origin + len ≤ old.size) :
    copyData hdr start old origin len = .ok (hdr.overlay start old origin len) := by
  -- Where there is no data `memcpy` is not called.
  unfold copyData
  by_cases none_ : len = 0
  · rw [if_pos none_, none_, overlay_zero]
  · rw [if_neg none_, Block.memcpy_ok _ _ _ _ _ room held]

/-- What was copied of data 1 or data 2 is laid over the header, also if it is nothing. -/
theorem copyData_made {hdr block out : Block} {start origin len : Nat}
    (copied : copyData hdr start block origin len = .ok out) :
    out = hdr.overlay start block origin len := by
  -- A length of 0 copies nothing, and any other length is copied within both blocks.
  unfold copyData at copied
  split at copied
  · rename_i none_
    rw [none_, overlay_zero]
    exact (Except.ok.inj copied).symm
  · exact (Block.memcpy_inside copied).2

/-- The new buffer of `realloc_msg` with the header that is copied to it. -/
def reallocHdr (order : ByteOrder) (left : Leftover) (draft : Draft) (trLen : Int) : Block :=
  let tpbLen := draft.msg.allocLen + (trLen - toInt (rmrTrLen order draft.msg.tpBuf)) + tpHdrLen
  hdrSet order ((insertMlen order (toUint tpbLen) (left.malloc draft.allocs tpbLen)).overlay
    tpHdrLen
    draft.msg.tpBuf tpHdrLen mhdrLen) .len1 trLen

/-- What `realloc_msg` went through if it succeeds: a size that is an `int`, a header for which
there is room, and the copies of data 1, of data 2 and of the payload. -/
theorem reallocMsg_steps {order : ByteOrder} {left : Leftover} {draft nm : Draft} {trLen : Int}
    (made : reallocMsg order left draft trLen = .ok nm) :
    ∃ one two filled,
      InInt (draft.msg.allocLen + (trLen - toInt (rmrTrLen order draft.msg.tpBuf)) + tpHdrLen) ∧
      330 ≤ (reallocHdr order left draft trLen).size ∧
      copyData (reallocHdr order left draft trLen)
        (data1Addr order (reallocHdr order left draft trLen)) draft.msg.tpBuf
        (data1Addr order draft.msg.tpBuf) (rmrD1Len order (reallocHdr order left draft trLen)) =
          .ok one ∧
      copyData one (data2Addr order one) draft.msg.tpBuf (data2Addr order draft.msg.tpBuf)
        (rmrD2Len order one) = .ok two ∧
      two.memcpy (payloadAddr order two) draft.msg.tpBuf draft.msg.payload draft.msg.len =
        .ok filled ∧
      nm = ⟨{ draft.msg with
        tpBuf := filled
        payload := payloadAddr order two
        allocLen := draft.msg.allocLen + (trLen - toInt (rmrTrLen order draft.msg.tpBuf))
        rtsFd := 0 }, draft.allocs + 1⟩ := by
  -- Each line of `realloc_msg` may fail; the binds are peeled apart in the order of the code.
  obtain ⟨grown, grownIs, made⟩ := bind_eq_ok.mp made
  obtain ⟨mlen, mlenIs, made⟩ := bind_eq_ok.mp made
  obtain ⟨tpbLen, tpbLenIs, made⟩ := bind_eq_ok.mp made
  obtain ⟨hdr, hdrIs, made⟩ := bind_eq_ok.mp made
  obtain ⟨one, oneIs, made⟩ := bind_eq_ok.mp made
  obtain ⟨two, twoIs, made⟩ := bind_eq_ok.mp made
  obtain ⟨filled, filledIs, made⟩ := bind_eq_ok.mp made
  cases made
  obtain ⟨-, rfl⟩ := subInt_eq_ok grownIs
  obtain ⟨-, rfl⟩ := addInt_eq_ok mlenIs
  obtain ⟨small, rfl⟩ := addInt_eq_ok tpbLenIs
  obtain ⟨⟨-, -, room, -, -⟩, rfl⟩ := Block.memcpy_inside hdrIs
  exact ⟨one, two, filled, small, Int.ofNat_le.mp room, oneIs, twoIs, filledIs, rfl⟩

/-- When a message has room to be given trace data of another length. -/
structure Retraces (order : ByteOrder) (msg : Mbuf) (size : Nat) : Prop where
  /-- The headers and the payload in use fit what the message thinks was allocated, or nearly. -/
  fits : (msg.payload : Int) + msg.len ≤ msg.allocLen + tpHdrLen
  /-- The size of the new buffer is an `int`. -/
  counted : msg.allocLen + size - rmrTrLen order msg.tpBuf + tpHdrLen ≤ intMax

/-- The new buffer, once the header, data 1 and the payload were copied to it. -/
def retraced (order : ByteOrder) (d1Len trLen size : Nat) (old : Mbuf) (fresh : Block) : Block :=
  ((hdrSet order (fresh.overlay tpHdrLen old.tpBuf tpHdrLen mhdrLen) .len1 size).overlay
      (330 + size) old.tpBuf (330 + trLen) d1Len).overlay
    (330 + size + d1Len) old.tpBuf old.payload old.len.toNat

section
variable {order : ByteOrder} {d1Len trLen size : Nat} {old : Mbuf} (fresh : Block)

/-- The new buffer is as large as it was allocated. -/
@[simp] theorem retraced_size :
    (retraced order d1Len trLen size old fresh).size = fresh.size := rfl

/-- Header bytes other than the trace length are those of the old buffer. -/
theorem retraced_header {start count : Nat} (low : tpHdrLen ≤ start)
    (high : start + count ≤ 330)
    (apart : start + count ≤ HdrField.len1.offset ∨ HdrField.len1.offset + 4 ≤ start) :
    (retraced order d1Len trLen size old fresh).slice start count =
      old.tpBuf.slice start count := by
  -- Trace data, data 1 and data 2 are laid behind the header, so that none of these copies reaches
  -- it.
  obtain ⟨skip, rfl⟩ := Nat.exists_eq_add_of_le low
  simp only [tpHdrLen] at *
  rw [retraced, Block.overlay_slice_outside _ _ _ _ _ (Or.inl (by omega)),
    Block.overlay_slice_outside _ _ _ _ _ (Or.inl (by omega)),
    hdrSet_slice_outside _ _ _ _ apart]
  exact Block.overlay_slice_part _ _ _ _ _ _ _ (by simp only [mhdrLen]; omega)

/-- Header words other than the trace length are those of the old buffer. -/
theorem retraced_word (field : HdrField) (high : field.offset + 4 ≤ 330)
    (apart : field.offset + 4 ≤ HdrField.len1.offset ∨ HdrField.len1.offset + 4 ≤ field.offset) :
    hdrGet order (retraced order d1Len trLen size old fresh) field =
      hdrGet order old.tpBuf field := by
  apply hdrGet_congr
  exact retraced_header fresh (by cases field <;> decide) high apart

/-- The trace length of the new buffer is the one asked for. -/
theorem retraced_len1 (fits : (size : Int) ≤ intMax) :
    hdrGet order (retraced order d1Len trLen size old fresh) .len1 = size := by
  -- The word is set after the header is copied, and all that is copied later lies behind it.
  simp only [intMax] at fits
  rw [retraced, hdrGet_overlay _ _ _ _ _ _ _
    (Or.inl (by simp only [HdrField.offset, tpHdrLen]; omega)),
    hdrGet_overlay _ _ _ _ _ _ _ (Or.inl (by simp only [HdrField.offset, tpHdrLen]; omega)),
    hdrGet_hdrSet]
  exact toUint_natCast (by omega)

/-- The payload in use is that of the old buffer. -/
theorem retraced_payload :
    (retraced order d1Len trLen size old fresh).slice (330 + size + d1Len) old.len.toNat =
      old.tpBuf.slice old.payload old.len.toNat :=
  Block.overlay_slice_inside _ _ _ _ _

/-- A message that is given the new buffer is laid out for the new trace data. -/
theorem Mbuf.Laid.retraced (laid : old.Laid order d1Len trLen) (fits : (size : Int) ≤ intMax)
    (room : ((330 + size + d1Len : Nat) : Int) + old.len ≤ fresh.size) :
    Mbuf.Laid order d1Len { old with
      tpBuf := Rmr.retraced order d1Len trLen size old fresh
      payload := 330 + size + d1Len } size := by
  -- Each length is read back from the new header, and the payload starts where they end.
  refine ⟨?_, retraced_len1 fresh fits, ?_, ?_, rfl, laid.len, ?_, fits, laid.keepSrc,
    laid.mtype, laid.subId⟩
  · exact (retraced_word fresh _ (by decide) (by decide)).trans laid.len0
  · exact (retraced_word fresh _ (by decide) (by decide)).trans laid.len2
  · exact (retraced_word fresh _ (by decide) (by decide)).trans laid.len3
  · simpa using room

end

section
variable {order : ByteOrder} {d1Len trLen size : Nat}

/-- The header that is put into the new buffer. -/
def movedHdr (order : ByteOrder) (tpBuf fresh : Block) (size : Nat) : Block :=
  hdrSet order (fresh.overlay tpHdrLen tpBuf tpHdrLen mhdrLen) .len1 size

/-- The lengths that it tells are those of the old header, but for that of the trace data. -/
theorem movedHdr_lens (order : ByteOrder) (tpBuf fresh : Block) (fits : (size : Int) ≤ intMax) :
    hdrGet order (movedHdr order tpBuf fresh size) .len0 = hdrGet order tpBuf .len0 ∧
      hdrGet order (movedHdr order tpBuf fresh size) .len1 = size ∧
      hdrGet order (movedHdr order tpBuf fresh size) .len2 = hdrGet order tpBuf .len2 ∧
      hdrGet order (movedHdr order tpBuf fresh size) .len3 = hdrGet order tpBuf .len3 := by
  -- A word of the copy is the word of the old header.
  have word : ∀ skip, skip + 4 ≤ mhdrLen →
      (fresh.overlay tpHdrLen tpBuf tpHdrLen mhdrLen).slice (tpHdrLen + skip) 4 =
        tpBuf.slice (tpHdrLen + skip) 4 :=
    fun skip within => Block.overlay_slice_part _ _ _ _ _ _ _ within
  simp only [intMax] at fits
  refine ⟨?_, ?_, ?_, ?_⟩
  · rw [movedHdr, hdrGet_hdrSet_ne _ _ _ (by decide)]
    exact hdrGet_congr order .len0 (word 196 (by decide))
  · rw [movedHdr, hdrGet_hdrSet]
    exact toUint_natCast (by omega)
  · rw [movedHdr, hdrGet_hdrSet_ne _ _ _ (by decide)]
    exact hdrGet_congr order .len2 (word 204 (by decide))
  · rw [movedHdr, hdrGet_hdrSet_ne _ _ _ (by decide)]
    exact hdrGet_congr order .len3 (word 208 (by decide))

/-- A message with room for it is copied to a buffer with trace data of another length. -/
theorem reallocMsg_ok {draft : Draft} (left : Leftover) (laid : draft.msg.Laid order d1Len trLen)
    (sizeFits : (size : Int) ≤ intMax) (retraces : Retraces order draft.msg size) :
    ∃ fresh : Block, (fresh.size : Int) = draft.msg.allocLen + size - trLen + tpHdrLen ∧
      reallocMsg order left draft size = .ok {
        msg := { draft.msg with
          tpBuf := retraced order d1Len trLen size draft.msg fresh
          payload := 330 + size + d1Len
          allocLen := draft.msg.allocLen + (size - trLen)
          rtsFd := 0 }
        allocs := draft.allocs + 1 } := by
  obtain ⟨fitsOld, counted⟩ := retraces
  have len := laid.len
  have room := laid.room
  have payload := laid.payload
  have traceFits := laid.traceFits
  have fits := sizeFits
  rw [rmrTrLen, laid.len1] at counted
  simp only [tpHdrLen, intMax] at fitsOld counted fits traceFits
  have trace : toInt (rmrTrLen order draft.msg.tpBuf) = trLen := by
    rw [rmrTrLen, laid.len1]
    exact toInt_natCast (by simp only [intMax]; omega)
  have grown : subInt (size : Int) trLen = .ok ((size : Int) - trLen) :=
    subInt_ok (by simp only [InInt, intMin, intMax]; omega)
  have mlen : addInt draft.msg.allocLen ((size : Int) - trLen) =
      .ok (draft.msg.allocLen + ((size : Int) - trLen)) :=
    addInt_ok (by simp only [InInt, intMin, intMax]; omega)
  obtain ⟨tpbLen, tpbLenIs⟩ : ∃ tpbLen : Nat,
      draft.msg.allocLen + ((size : Int) - trLen) + tpHdrLen = tpbLen :=
    Int.eq_ofNat_of_zero_le (by simp only [tpHdrLen]; omega)
  have tpb : addInt (draft.msg.allocLen + ((size : Int) - trLen)) tpHdrLen =
      .ok (tpbLen : Int) := by
    rw [addInt_ok, tpbLenIs]
    rw [tpbLenIs]
    simp only [InInt, intMin, intMax, tpHdrLen] at tpbLenIs ⊢
    omega
  simp only [tpHdrLen] at tpbLenIs
  obtain ⟨fresh, freshIs⟩ : ∃ fresh,
      fresh = insertMlen order (toUint tpbLen) (left.malloc draft.allocs tpbLen) := ⟨_, rfl⟩
  have freshSize : fresh.size = tpbLen := by
    rw [freshIs]
    simp [insertMlen, Leftover.malloc]
  refine ⟨fresh, by simp only [tpHdrLen]; omega, ?_⟩
  -- Each copy stays within both buffers.
  have header := Block.memcpy_ok fresh tpHdrLen draft.msg.tpBuf tpHdrLen mhdrLen
    (by simp only [tpHdrLen, mhdrLen]; omega) (by simp only [tpHdrLen, mhdrLen]; omega)
  obtain ⟨len0, len1, len2, len3⟩ := movedHdr_lens order draft.msg.tpBuf fresh sizeFits
  rw [laid.len0] at len0
  rw [laid.len2] at len2
  rw [laid.len3] at len3
  obtain ⟨hdr, hdrIs⟩ : ∃ hdr, hdr = hdrSet order
      (fresh.overlay tpHdrLen draft.msg.tpBuf tpHdrLen mhdrLen) .len1 size := ⟨_, rfl⟩
  rw [movedHdr, ← hdrIs] at len0 len1 len2 len3
  have hdrSize : hdr.size = tpbLen := by
    rw [hdrIs]
    simpa using freshSize
  have data1 : data1Addr order hdr = 330 + size := by
    rw [data1Addr, traceAddr, len0, len1]
    rfl
  have copied := copyData_ok hdr (330 + size) draft.msg.tpBuf (330 + trLen) d1Len
    (by omega) (by omega)
  -- The lengths lie before all that is copied from now on.
  have kept : ∀ field : HdrField, field.offset + 4 ≤ 330 →
      hdrGet order (hdr.overlay (330 + size) draft.msg.tpBuf (330 + trLen) d1Len) field =
        hdrGet order hdr field :=
    fun field before => hdrGet_overlay _ _ _ _ _ _ _ (Or.inl (by omega))
  have payloadAt : payloadAddr order
      (hdr.overlay (330 + size) draft.msg.tpBuf (330 + trLen) d1Len) = 330 + size + d1Len := by
    rw [payloadAddr, data2Addr, data1Addr, traceAddr, kept _ (by decide), kept _ (by decide),
      kept _ (by decide), kept _ (by decide), len0, len1, len2, len3]
    rfl
  have none_ : rmrD2Len order (hdr.overlay (330 + size) draft.msg.tpBuf (330 + trLen) d1Len) = 0 :=
    (kept _ (by decide)).trans len3
  obtain ⟨count, countIs⟩ := Int.eq_ofNat_of_zero_le len
  have body := Block.memcpy_ok
    (hdr.overlay (330 + size) draft.msg.tpBuf (330 + trLen) d1Len) (330 + size + d1Len)
    draft.msg.tpBuf draft.msg.payload count
    (by simp only [Block.overlay_size]; omega) (by omega)
  unfold reallocMsg
  dsimp only
  rw [trace]
  refine bind_eq_ok.mpr ⟨_, grown, bind_eq_ok.mpr ⟨_, mlen, bind_eq_ok.mpr ⟨_, tpb, ?_⟩⟩⟩
  rw [← freshIs]
  refine bind_eq_ok.mpr ⟨_, header, ?_⟩
  rw [← hdrIs, data1, laid.data1Addr, show rmrD1Len order hdr = d1Len from len2]
  refine bind_eq_ok.mpr ⟨_, copied, ?_⟩
  rw [none_]
  refine bind_eq_ok.mpr ⟨_, if_pos rfl, ?_⟩
  rw [payloadAt, countIs]
  refine bind_eq_ok.mpr ⟨_, body, ?_⟩
  rw [retraced, ← hdrIs, countIs, Int.toNat_natCast]
  rfl

/-- Trace data of the length that a message is laid out for is put into it. -/
theorem Mbuf.Laid.tracePut {msg : Mbuf} {data : List UInt8}
    (laid : msg.Laid order d1Len data.length) :
    ∃ traced, msg.tpBuf.memcpy (Rmr.traceAddr order msg.tpBuf) (Block.ofList data) 0
        data.length = .ok traced ∧
      Mbuf.Laid order d1Len { msg with tpBuf := traced } data.length ∧
      Mbuf.content order { msg with tpBuf := traced } =
        { msg.content order with trace := data } := by
  -- Trace data lies between the header and data 1, so that its copy touches no other part.
  have room := laid.room
  have len := laid.len
  have payload := laid.payload
  have copied := Block.memcpy_ok msg.tpBuf 330 (Block.ofList data) 0 data.length
    (by omega) (by simp)
  rw [laid.traceAddr]
  refine ⟨_, copied, ?_⟩
  have outside : ∀ other part, other + part ≤ 330 ∨ 330 + data.length ≤ other →
      (msg.tpBuf.overlay 330 (Block.ofList data) 0 data.length).slice other part =
        msg.tpBuf.slice other part :=
    fun other part apart => Block.overlay_slice_outside _ _ _ _ _ (by omega)
  have word : ∀ field : HdrField, field.offset + 4 ≤ 330 →
      hdrGet order (msg.tpBuf.overlay 330 (Block.ofList data) 0 data.length) field =
        hdrGet order msg.tpBuf field :=
    fun field header => hdrGet_overlay _ _ _ _ _ _ _ (Or.inl (by omega))
  have after : Mbuf.Laid order d1Len { msg with
      tpBuf := msg.tpBuf.overlay 330 (Block.ofList data) 0 data.length } data.length :=
    ⟨(word _ (by decide)).trans laid.len0, (word _ (by decide)).trans laid.len1,
      (word _ (by decide)).trans laid.len2, (word _ (by decide)).trans laid.len3, laid.payload,
      laid.len, laid.room, laid.traceFits, laid.keepSrc, laid.mtype, laid.subId⟩
  refine ⟨after, ?_⟩
  have written : (msg.tpBuf.overlay 330 (Block.ofList data) 0 data.length).slice 330 data.length =
      data := by
    rw [Block.overlay_slice_inside, Block.ofList_slice _ _ _ (by omega), List.drop_zero,
      List.take_length]
  rw [after.content_eq, laid.content_eq]
  dsimp only
  rw [written, outside _ _ (by omega), outside _ _ (by omega), outside _ _ (by omega),
    outside _ _ (by omega), outside _ _ (by omega)]

/-- A message that is given a buffer for other trace data says all else as before. -/
theorem Mbuf.Laid.content_retraced {old : Mbuf} (fresh : Block)
    (laid : old.Laid order d1Len trLen) (fits : (size : Int) ≤ intMax)
    (room : ((330 + size + d1Len : Nat) : Int) + old.len ≤ fresh.size) (data : List UInt8) :
    { Mbuf.content order { old with
        tpBuf := Rmr.retraced order d1Len trLen size old fresh
        payload := 330 + size + d1Len } with trace := data } =
      { old.content order with trace := data } := by
  -- Both are read part by part; each part but the trace was copied, or is in the old header.
  rw [(laid.retraced fresh fits room).content_eq, laid.content_eq]
  dsimp only
  rw [retraced_payload, laid.payload, retraced_header fresh (by decide) (by decide) (by decide),
    retraced_header fresh (by decide) (by decide) (by decide),
    retraced_header fresh (by decide) (by decide) (by decide),
    retraced_header fresh (by decide) (by decide) (by decide)]

/-- A message that has room for it is given trace data, and says all else as before. -/
theorem rmrSetTrace_ok {draft : Draft} (left : Leftover) (laid : draft.msg.Laid order d1Len trLen)
    (data : List UInt8) (sizeFits : (data.length : Int) ≤ intMax)
    (retraces : data.length ≠ 0 → data.length ≠ trLen →
      Retraces order draft.msg data.length) :
    ∃ next trLen', rmrSetTrace order left draft data = .ok next ∧
      next.msg.Laid order d1Len trLen' ∧
      next.msg.content order = (draft.msg.content order).apply (.trace data) ∧
      next.msg.allocLen = draft.msg.allocLen := by
  unfold rmrSetTrace
  by_cases none_ : data.length = 0
  · refine ⟨draft, trLen, if_pos none_, laid, ?_, rfl⟩
    simp only [Content.apply, if_pos none_]
  rw [if_neg none_]
  have told : (draft.msg.content order).apply (.trace data) =
      { draft.msg.content order with trace := data } := by
    simp only [Content.apply, if_neg none_]
  rw [told]
  by_cases same : trLen = data.length
  · -- The trace data has the length it had.
    subst same
    obtain ⟨traced, put, after, content⟩ := laid.tracePut
    refine ⟨{ draft with msg := { draft.msg with tpBuf := traced } }, data.length, ?_, after,
      content, rfl⟩
    have sized : draft.sizeTrace order left data.length = .ok draft := if_pos laid.len1
    exact bind_eq_ok.mpr ⟨draft, sized, bind_eq_ok.mpr ⟨traced, put, rfl⟩⟩
  · -- Another length takes another buffer.
    have room := retraces none_ (fun equal => same equal.symm)
    obtain ⟨fresh, freshSize, reallocated⟩ := reallocMsg_ok left laid sizeFits room
    have fits := room.fits
    have payload := laid.payload
    have wide : ((330 + data.length + d1Len : Nat) : Int) + draft.msg.len ≤ fresh.size := by
      omega
    have moved := laid.retraced fresh sizeFits wide
    obtain ⟨traced, put, after, content⟩ := moved.tracePut
    rw [laid.content_retraced fresh sizeFits wide] at content
    refine ⟨⟨{ draft.msg with tpBuf := traced, payload := 330 + data.length + d1Len },
      draft.allocs + 1⟩, data.length, ?_, after, content, rfl⟩
    have other : ¬ rmrTrLen order draft.msg.tpBuf = data.length := by
      rw [rmrTrLen, laid.len1]
      exact same
    have sized : draft.sizeTrace order left data.length = .ok ⟨{ draft.msg with
        tpBuf := retraced order d1Len trLen data.length draft.msg fresh
        payload := 330 + data.length + d1Len }, draft.allocs + 1⟩ := by
      rw [Draft.sizeTrace, if_neg other]
      exact bind_eq_ok.mpr ⟨_, reallocated, rfl⟩
    exact bind_eq_ok.mpr ⟨_, sized, bind_eq_ok.mpr ⟨traced, put, rfl⟩⟩

end

end Rmr
