import Rmr.Proofs.Message.Trace

/-! From the allocation of a message to the last step before it is sent. -/

namespace Rmr

/-- A string in a source field, padded with zero bytes. -/
def padded (name : List UInt8) : List UInt8 :=
  name.take (rmrMaxSrc - 1) ++ List.replicate (rmrMaxSrc - (name.take (rmrMaxSrc - 1)).length) 0

/-- A filled field leaves every byte outside it alone. -/
theorem ztBufFill_outside (dest : Block) (start : Nat) (src : List UInt8) (len : Nat)
    (positive : 0 < len) {other part : Nat} (apart : other + part ≤ start ∨ start + len ≤ other) :
    (ztBufFill dest start src len).slice other part = dest.slice other part := by
  have short := List.length_take_le (len - 1) src
  exact Block.overlay_slice_outside _ _ _ _ _ (by omega)

/-- A field that was clear holds the string and zero bytes once it was filled. -/
theorem ztBufFill_clear (dest : Block) (start : Nat) (src : List UInt8)
    (clear : dest.slice start rmrMaxSrc = List.replicate rmrMaxSrc 0) :
    (ztBufFill dest start src rmrMaxSrc).slice start rmrMaxSrc = padded src := by
  have short := List.length_take_le (rmrMaxSrc - 1) src
  have length : (src.take (rmrMaxSrc - 1) ++ [0]).length =
      (src.take (rmrMaxSrc - 1)).length + 1 := by simp
  simp only [rmrMaxSrc] at short length clear ⊢
  rw [ztBufFill, ← length, overlay_overFront _ _ _ _ (by rw [length]; omega), clear, overFront,
    length, padded, List.drop_replicate, List.append_assoc]
  congr 1
  -- The byte that ends the string is the first of the zero bytes.
  have zeros : 64 - (src.take (64 - 1)).length = 64 - ((src.take (64 - 1)).length + 1) + 1 := by
    omega
  simp only [rmrMaxSrc]
  rw [zeros, List.replicate_succ]
  rfl

section
variable (conf : SendConf) (tpBuf : Block)

/-- The header before its source fields are filled. -/
def clearHeader : Block :=
  hdrSet conf.order (hdrSet conf.order (hdrSet conf.order (hdrSet conf.order (hdrSet conf.order
    (tpBuf.overlay tpHdrLen (Block.ofList (List.replicate mhdrLen 0)) 0 mhdrLen)
    .rmrVer rmrMsgVer) .subId unsetId) .len0 mhdrLen) .len1 conf.traceDataLen) .len2 conf.d1Len

/-- Header bytes that are in none of the words set are zero. -/
theorem clearHeader_zero (start count : Nat) (low : tpHdrLen ≤ start)
    (high : start + count ≤ 330)
    (version : start + count ≤ 58 ∨ 62 ≤ start)
    (lengths : start + count ≤ 246 ∨ 258 ≤ start)
    (subId : start + count ≤ 262 ∨ 266 ≤ start) :
    (clearHeader conf tpBuf).slice start count = List.replicate count 0 := by
  -- Each of the words that are set lies apart from the range, which `memset` has cleared before.
  obtain ⟨skip, rfl⟩ := Nat.exists_eq_add_of_le low
  simp only [tpHdrLen] at low high version lengths subId ⊢
  rw [clearHeader, hdrSet_slice_outside _ _ _ _ (by simp only [HdrField.offset, tpHdrLen]; omega),
    hdrSet_slice_outside _ _ _ _ (by simp only [HdrField.offset, tpHdrLen]; omega),
    hdrSet_slice_outside _ _ _ _ (by simp only [HdrField.offset, tpHdrLen]; omega),
    hdrSet_slice_outside _ _ _ _ (by simp only [HdrField.offset, tpHdrLen]; omega),
    hdrSet_slice_outside _ _ _ _ (by simp only [HdrField.offset, tpHdrLen]; omega),
    tpHdrLen, Block.overlay_slice_part _ _ _ _ _ _ _ (by simp only [mhdrLen]; omega),
    Block.ofList_slice _ _ _ (by simp only [List.length_replicate, mhdrLen]; omega),
    List.drop_replicate, List.take_replicate]
  congr 1
  simp only [mhdrLen]
  omega

/-- Bytes behind the header are those of the buffer. -/
theorem freshHeader_behind {start count : Nat} (behind : 330 ≤ start) :
    (freshHeader conf tpBuf).slice start count = tpBuf.slice start count := by
  -- Neither the cleared header nor the words set in it reach behind byte 330.
  have clear : (clearHeader conf tpBuf).slice start count = tpBuf.slice start count := by
    rw [clearHeader,
      hdrSet_slice_outside _ _ _ _ (by simp only [HdrField.offset, tpHdrLen]; omega),
      hdrSet_slice_outside _ _ _ _ (by simp only [HdrField.offset, tpHdrLen]; omega),
      hdrSet_slice_outside _ _ _ _ (by simp only [HdrField.offset, tpHdrLen]; omega),
      hdrSet_slice_outside _ _ _ _ (by simp only [HdrField.offset, tpHdrLen]; omega),
      hdrSet_slice_outside _ _ _ _ (by simp only [HdrField.offset, tpHdrLen]; omega),
      Block.overlay_slice_outside _ _ _ _ _ (by simp only [tpHdrLen, mhdrLen]; omega)]
  rw [← clear]
  change (fillSource conf (clearHeader conf tpBuf)).slice start count = _
  rw [fillSource, ztBufFill_outside _ _ _ _ (by decide)
      (by simp only [HdrField.offset, tpHdrLen, rmrMaxSrc]; omega),
    ztBufFill_outside _ _ _ _ (by decide)
      (by simp only [HdrField.offset, tpHdrLen, rmrMaxSrc]; omega)]

/-- Header bytes outside the source fields are those before these were filled. -/
theorem freshHeader_apart {start count : Nat} (src : start + count ≤ 126 ∨ 190 ≤ start)
    (srcip : start + count ≤ 266 ∨ 330 ≤ start) :
    (freshHeader conf tpBuf).slice start count = (clearHeader conf tpBuf).slice start count := by
  -- The two strings are filled in outside of the range.
  change (fillSource conf (clearHeader conf tpBuf)).slice start count = _
  rw [fillSource, ztBufFill_outside _ _ _ _ (by decide)
      (by simp only [HdrField.offset, tpHdrLen, rmrMaxSrc]; omega),
    ztBufFill_outside _ _ _ _ (by decide)
      (by simp only [HdrField.offset, tpHdrLen, rmrMaxSrc]; omega)]

/-- The source fields of a fresh header. -/
theorem freshHeader_source :
    (freshHeader conf tpBuf).slice 126 64 = padded conf.myName ∧
      (freshHeader conf tpBuf).slice 266 64 = padded conf.myIp := by
  -- Both fields are zero after the header is cleared, so that the names are padded with zeros.
  have src := clearHeader_zero conf tpBuf 126 64 (by decide) (by decide)
    (by decide) (by decide) (by decide)
  have srcip := clearHeader_zero conf tpBuf 266 64 (by decide) (by decide)
    (by decide) (by decide) (by decide)
  change (fillSource conf (clearHeader conf tpBuf)).slice 126 64 = _ ∧
    (fillSource conf (clearHeader conf tpBuf)).slice 266 64 = _
  constructor
  · rw [fillSource, ztBufFill_outside _ _ _ _ (by decide) (by decide)]
    exact ztBufFill_clear _ _ _ src
  · apply ztBufFill_clear
    exact (ztBufFill_outside _ _ _ _ (by decide) (by decide)).trans srcip

/-- The lengths in a fresh header. -/
theorem freshHeader_lens (trace : (conf.traceDataLen : Int) ≤ intMax)
    (data1 : (conf.d1Len : Int) ≤ intMax) :
    hdrGet conf.order (freshHeader conf tpBuf) .len0 = mhdrLen ∧
    hdrGet conf.order (freshHeader conf tpBuf) .len1 = conf.traceDataLen ∧
    hdrGet conf.order (freshHeader conf tpBuf) .len2 = conf.d1Len ∧
    hdrGet conf.order (freshHeader conf tpBuf) .len3 = 0 := by
  simp only [intMax] at trace data1
  -- The lengths are in none of the source fields.
  have word : ∀ field : HdrField, 190 ≤ field.offset → field.offset + 4 ≤ 266 →
      hdrGet conf.order (freshHeader conf tpBuf) field =
        hdrGet conf.order (clearHeader conf tpBuf) field :=
    fun field low high => hdrGet_congr _ _ (freshHeader_apart conf tpBuf (Or.inr low) (Or.inl high))
  refine ⟨?_, ?_, ?_, ?_⟩
  · rw [word _ (by decide) (by decide), clearHeader, hdrGet_hdrSet_ne _ _ _ (by decide),
      hdrGet_hdrSet_ne _ _ _ (by decide), hdrGet_hdrSet]
    exact toUint_natCast (by decide)
  · rw [word _ (by decide) (by decide), clearHeader, hdrGet_hdrSet_ne _ _ _ (by decide),
      hdrGet_hdrSet]
    exact toUint_natCast (by omega)
  · rw [word _ (by decide) (by decide), clearHeader, hdrGet_hdrSet]
    exact toUint_natCast (by omega)
  · -- The length of data 2 was never set.
    have zero := clearHeader_zero conf tpBuf 258 4 (by decide) (by decide)
      (by decide) (by decide) (by decide)
    rw [word _ (by decide) (by decide), hdrGet, Block.net32_eq]
    change word32 .big ((clearHeader conf tpBuf).slice 258 4) = 0
    rw [zero]
    decide

end

/-- What a message says that was allocated just now; its trace data is what memory held. -/
def initialContent (conf : SendConf) (left : Leftover) : Content where
  mtype := unsetId
  subId := unsetId
  len := 0
  payload := []
  xact := List.replicate rmrMaxXid 0
  meid := List.replicate rmrMaxMeid 0
  trace := (List.range conf.traceDataLen).map fun i => left 0 (330 + i)
  src := padded conf.myName
  srcip := padded conf.myIp

/-- When an allocation has room for the header that it writes. -/
structure Allocates (conf : SendConf) (size trlo : Int) : Prop where
  trace : (conf.traceDataLen : Int) ≤ intMax
  data1 : (conf.d1Len : Int) ≤ intMax
  /-- The trace data of the context fits, also when the caller asked for less. -/
  room : ((330 + conf.traceDataLen + conf.d1Len : Nat) : Int) ≤ zcmsgLen conf size trlo

/-- A message that is allocated with room for its header says nothing yet. -/
theorem allocZcmsg_ok {conf : SendConf} {size trlo : Int} (left : Leftover)
    (allocates : Allocates conf size trlo) :
    ∃ draft, allocZcmsg conf left 0 none size .ok trlo = .ok draft ∧
      draft.msg.Laid conf.order conf.d1Len conf.traceDataLen ∧
      draft.msg.content conf.order = initialContent conf left := by
  obtain ⟨trace, data1, room⟩ := allocates
  obtain ⟨mlen, mlenIs⟩ := Int.eq_ofNat_of_zero_le (show 0 ≤ zcmsgLen conf size trlo by omega)
  rw [mlenIs] at room
  obtain ⟨inserted, insertedIs⟩ : ∃ inserted, inserted =
      insertMlen conf.order (toUint mlen) (left.malloc 0 mlen) := ⟨_, rfl⟩
  have insertedSize : inserted.size = mlen := by
    rw [insertedIs]
    simp [insertMlen, Leftover.malloc]
  obtain ⟨len0, len1, len2, len3⟩ := freshHeader_lens conf inserted trace data1
  have payloadAt : payloadAddr conf.order (freshHeader conf inserted) =
      330 + conf.traceDataLen + conf.d1Len := by
    rw [payloadAddr, data2Addr, data1Addr, traceAddr, len0, len1, len2, len3]
    rfl
  refine ⟨⟨{
      state := .ok
      mtype := unsetId
      len := 0
      payload := payloadAddr conf.order (freshHeader conf inserted)
      subId := unsetId
      tpBuf := freshHeader conf inserted
      allocLen := toInt mlen
      noAlloc := false
      addSrc := false
      huge := false
      rtsFd := -1 }, 1⟩, ?_, ?_⟩
  · unfold allocZcmsg
    dsimp only
    rw [mlenIs, if_neg]
    · rw [insertedIs]
      rfl
    · simp only [Leftover.malloc, Int.toNat_natCast, tpHdrLen, mhdrLen]
      omega
  have laid : Mbuf.Laid conf.order conf.d1Len {
      state := .ok
      mtype := unsetId
      len := 0
      payload := payloadAddr conf.order (freshHeader conf inserted)
      subId := unsetId
      tpBuf := freshHeader conf inserted
      allocLen := toInt mlen
      noAlloc := false
      addSrc := false
      huge := false
      rtsFd := -1 } conf.traceDataLen := by
    refine ⟨len0, len1, len2, len3, payloadAt, Int.le_refl 0, ?_, trace, rfl,
      (by show InInt unsetId; decide), (by show InInt unsetId; decide)⟩
    have size : (freshHeader conf inserted).size = inserted.size := rfl
    simp only [payloadAt, size, insertedSize]
    omega
  refine ⟨laid, ?_⟩
  obtain ⟨src, srcip⟩ := freshHeader_source conf inserted
  have xact : (freshHeader conf inserted).slice 62 32 = List.replicate 32 0 :=
    (freshHeader_apart conf inserted (by decide) (by decide)).trans
      (clearHeader_zero conf inserted 62 32 (by decide) (by decide) (by decide) (by decide)
        (by decide))
  have meid : (freshHeader conf inserted).slice 190 32 = List.replicate 32 0 :=
    (freshHeader_apart conf inserted (by decide) (by decide)).trans
      (clearHeader_zero conf inserted 190 32 (by decide) (by decide) (by decide) (by decide)
        (by decide))
  -- The trace data lies behind everything that was written.
  have traceBytes : (freshHeader conf inserted).slice 330 conf.traceDataLen =
      (List.range conf.traceDataLen).map fun i => left 0 (330 + i) := by
    rw [freshHeader_behind conf inserted (Nat.le_refl _), insertedIs, insertMlen,
      Block.overlay_slice_outside _ _ _ _ _ (Or.inr (by omega))]
    rfl
  rw [laid.content_eq]
  dsimp only
  rw [src, srcip, xact, meid, traceBytes]
  rfl

/-- When a step of an application has room for what it does. -/
def MsgOp.Fits (order : ByteOrder) (draft : Draft) : MsgOp → Prop
  | .mtype value => InInt value
  | .subId value => InInt value
  | .xact _ => True
  | .meid _ => True
  | .trace data => (data.length : Int) ≤ intMax ∧
      (data.length ≠ 0 → data.length ≠ rmrTrLen order draft.msg.tpBuf →
        Retraces order draft.msg data.length)
  | .payload bytes => draft.msg.payload + bytes.length ≤ draft.msg.tpBuf.size

/-- A step that has room for what it does makes of the message what was asked for. -/
theorem Draft.apply_ok {order : ByteOrder} {d1Len trLen : Nat} {draft : Draft} {op : MsgOp}
    (left : Leftover) (laid : draft.msg.Laid order d1Len trLen) (fits : op.Fits order draft) :
    ∃ next trLen', draft.apply order left op = .ok next ∧ next.msg.Laid order d1Len trLen' ∧
      next.msg.content order = (draft.msg.content order).apply op := by
  -- One case for each call; each has its own lemma for the part of the buffer that it changes.
  cases op with
  | mtype value =>
    refine ⟨_, trLen, rfl, ?_, rfl⟩
    exact ⟨laid.len0, laid.len1, laid.len2, laid.len3, laid.payload, laid.len, laid.room,
      laid.traceFits, laid.keepSrc, fits, laid.subId⟩
  | subId value =>
    refine ⟨_, trLen, rfl, ?_, rfl⟩
    exact ⟨laid.len0, laid.len1, laid.len2, laid.len3, laid.payload, laid.len, laid.room,
      laid.traceFits, laid.keepSrc, laid.mtype, fits⟩
  | xact src =>
    obtain ⟨after, content⟩ := laid.bytes2xact src
    exact ⟨_, trLen, rfl, after, content⟩
  | meid src =>
    obtain ⟨after, content⟩ := laid.bytes2meid src
    exact ⟨_, trLen, rfl, after, content⟩
  | trace data =>
    obtain ⟨sizeFits, retraces⟩ := fits
    rw [rmrTrLen, laid.len1] at retraces
    obtain ⟨next, trLen', applied, after, content, _⟩ :=
      rmrSetTrace_ok left laid data sizeFits retraces
    exact ⟨next, trLen', applied, after, content⟩
  | payload bytes =>
    obtain ⟨filled, copied, after, content⟩ := laid.fill fits
    refine ⟨{ draft with msg := { draft.msg with tpBuf := filled, len := bytes.length } }, trLen,
      ?_, after, content⟩
    exact bind_eq_ok.mpr ⟨filled, copied, rfl⟩

/-- Steps that all have room, each in the message that the ones before it left. -/
def Draft.AllFit (order : ByteOrder) (left : Leftover) (draft : Draft) : List MsgOp → Prop
  | [] => True
  | op :: ops => op.Fits order draft ∧
    match draft.apply order left op with
    | .ok next => next.AllFit order left ops
    | .error _ => True

instance (order : ByteOrder) (msg : Mbuf) (size : Nat) : Decidable (Retraces order msg size) :=
  decidable_of_iff ((msg.payload : Int) + msg.len ≤ msg.allocLen + tpHdrLen ∧
      msg.allocLen + size - rmrTrLen order msg.tpBuf + tpHdrLen ≤ intMax)
    ⟨fun both => ⟨both.1, both.2⟩, fun retraces => ⟨retraces.fits, retraces.counted⟩⟩

instance (order : ByteOrder) (draft : Draft) (op : MsgOp) : Decidable (op.Fits order draft) :=
  match op with
  | .mtype value => inferInstanceAs (Decidable (InInt value))
  | .subId value => inferInstanceAs (Decidable (InInt value))
  | .xact _ => inferInstanceAs (Decidable True)
  | .meid _ => inferInstanceAs (Decidable True)
  | .trace _ => inferInstanceAs (Decidable (_ ∧ _))
  | .payload _ => inferInstanceAs (Decidable (_ ≤ _))

/-- Whether all steps have room is found by taking them. -/
def Draft.decideAllFit (order : ByteOrder) (left : Leftover) (draft : Draft) :
    (ops : List MsgOp) → Decidable (draft.AllFit order left ops)
  | [] => inferInstanceAs (Decidable True)
  | op :: ops =>
    match taken : draft.apply order left op with
    | .ok next =>
      have := next.decideAllFit order left ops
      decidable_of_iff (op.Fits order draft ∧ next.AllFit order left ops)
        (by rw [Draft.AllFit, taken])
    | .error _ => decidable_of_iff (op.Fits order draft) (by simp [Draft.AllFit, taken])

instance (order : ByteOrder) (left : Leftover) (draft : Draft) (ops : List MsgOp) :
    Decidable (draft.AllFit order left ops) := draft.decideAllFit order left ops

/-- Steps that all have room make of the message what was asked for. -/
theorem Draft.applyAll_ok {order : ByteOrder} {d1Len trLen : Nat} {draft : Draft}
    {ops : List MsgOp} (left : Leftover) (laid : draft.msg.Laid order d1Len trLen)
    (fit : draft.AllFit order left ops) :
    ∃ final trLen', draft.applyAll order left ops = .ok final ∧
      final.msg.Laid order d1Len trLen' ∧
      final.msg.content order = ops.foldl Content.apply (draft.msg.content order) := by
  -- Induction on the steps: each one leaves a message that is laid out for the next.
  induction ops generalizing draft trLen with
  | nil => exact ⟨draft, trLen, rfl, laid, rfl⟩
  | cons op ops ih =>
    obtain ⟨fits, later⟩ := fit
    obtain ⟨next, nextTrLen, applied, nextLaid, content⟩ := Draft.apply_ok left laid fits
    rw [applied] at later
    obtain ⟨final, finalTrLen, ran, finalLaid, finalContent⟩ := ih nextLaid later
    refine ⟨final, finalTrLen, foldlM_cons_ok.mpr ⟨next, applied, ran⟩, finalLaid, ?_⟩
    rw [finalContent, content, List.foldl_cons]

end Rmr
