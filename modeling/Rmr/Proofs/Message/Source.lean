import Rmr.Proofs.Message.Pool
import Rmr.Proofs.Message.Marks

/-! What each function does with the source in the header of a message, and with the lengths in it.
-/

namespace Rmr

/-- A string as `zt_buf_fill` leaves it in a source field. -/
def ztString (src : List UInt8) : List UInt8 := src.take (rmrMaxSrc - 1) ++ [0]

/-- The source in a header is this process. -/
structure OwnSource (conf : SendConf) (tpBuf : Block) : Prop where
  src : tpBuf.slice HdrField.src.offset (ztString conf.myName).length = ztString conf.myName
  srcip : tpBuf.slice HdrField.srcip.offset (ztString conf.myIp).length = ztString conf.myIp

/-- The header is as another one in its lengths and in its source. -/
structure KeepsHeader (next tpBuf : Block) : Prop where
  src : next.slice 126 64 = tpBuf.slice 126 64
  lens : next.slice 246 16 = tpBuf.slice 246 16
  srcip : next.slice 266 64 = tpBuf.slice 266 64

section
variable {conf : SendConf} {tpBuf next last : Block}

/-- A string in a source field is no longer than the field. -/
theorem ztString_length_le (src : List UInt8) : (ztString src).length ≤ 64 := by
  have short := List.length_take_le (rmrMaxSrc - 1) src
  simp only [ztString, rmrMaxSrc, List.length_append, List.length_singleton] at short ⊢
  omega

/-- A field that was filled starts with the string. -/
theorem ztBufFill_string (dest : Block) (start : Nat) (src : List UInt8) :
    (ztBufFill dest start src rmrMaxSrc).slice start (ztString src).length = ztString src := by
  -- What is copied is the string up to its end, and the field holds that.
  have length : (ztString src).length = (src.take (rmrMaxSrc - 1)).length + 1 := by
    simp [ztString]
  rw [length, ztBufFill, Block.overlay_slice_inside, Block.ofList_slice _ _ _ (by simp)]
  rw [List.drop_zero, ← length]
  exact List.take_length

/-- Filling in the source makes it this process. -/
theorem fillSource_own (tpBuf : Block) : OwnSource conf (fillSource conf tpBuf) where
  -- The ip field lies behind the name field, so that filling in the second keeps the first.
  src := by
    have short := ztString_length_le conf.myName
    rw [fillSource, ztBufFill_outside _ _ _ _ (by decide)
      (by simp only [HdrField.offset, tpHdrLen, rmrMaxSrc]; omega)]
    exact ztBufFill_string _ _ _
  srcip := ztBufFill_string _ _ _

/-- `realloc_msg` copies the source fields. -/
theorem Retraced.src {order : ByteOrder} {old nm : Mbuf} {trLen : Int}
    (retraced : Retraced order old trLen nm) : nm.tpBuf.slice 126 64 = old.tpBuf.slice 126 64 := by
  rw [← Block.slice_drop_take nm.tpBuf 50 200 76 64 (by decide), retraced.before,
    Block.slice_drop_take _ _ _ _ _ (by decide)]

/-- Also the second one. -/
theorem Retraced.srcip {order : ByteOrder} {old nm : Mbuf} {trLen : Int}
    (retraced : Retraced order old trLen nm) : nm.tpBuf.slice 266 64 = old.tpBuf.slice 266 64 := by
  rw [← Block.slice_drop_take nm.tpBuf 254 76 12 64 (by decide), retraced.behind,
    Block.slice_drop_take _ _ _ _ _ (by decide)]

/-- The source is the same where the bytes of its fields are. -/
theorem OwnSource.keep (own : OwnSource conf tpBuf)
    (src : next.slice 126 64 = tpBuf.slice 126 64)
    (srcip : next.slice 266 64 = tpBuf.slice 266 64) : OwnSource conf next where
  -- Either string lies in its field, so that its bytes are among those that are the same.
  src := by
    have short := ztString_length_le conf.myName
    have part := congrArg (List.take (ztString conf.myName).length) src
    rw [Block.slice_take _ _ _ _ short, Block.slice_take _ _ _ _ short] at part
    exact part.trans own.src
  srcip := by
    have short := ztString_length_le conf.myIp
    have part := congrArg (List.take (ztString conf.myIp).length) srcip
    rw [Block.slice_take _ _ _ _ short, Block.slice_take _ _ _ _ short] at part
    exact part.trans own.srcip

/-- A header is as itself. -/
theorem KeepsHeader.refl (tpBuf : Block) : KeepsHeader tpBuf tpBuf := ⟨rfl, rfl, rfl⟩

/-- What is kept twice is kept. -/
theorem KeepsHeader.trans (second : KeepsHeader last next) (first : KeepsHeader next tpBuf) :
    KeepsHeader last tpBuf :=
  ⟨second.src.trans first.src, second.lens.trans first.lens, second.srcip.trans first.srcip⟩

/-- What is written in front of these fields, between them or behind them leaves them alone. -/
theorem KeepsHeader.overlay (start : Nat) (src : Block) (origin count : Nat)
    (apart : start + count ≤ 126 ∨ 190 ≤ start ∧ start + count ≤ 246 ∨
      262 ≤ start ∧ start + count ≤ 266 ∨ 330 ≤ start) :
    KeepsHeader (tpBuf.overlay start src origin count) tpBuf where
  src := Block.overlay_slice_outside _ _ _ _ _ (by omega)
  lens := Block.overlay_slice_outside _ _ _ _ _ (by omega)
  srcip := Block.overlay_slice_outside _ _ _ _ _ (by omega)

/-- So does a header word that is none of the lengths. -/
theorem KeepsHeader.hdrSet (order : ByteOrder) (field : HdrField) (value : Int)
    (apart : field.offset + 4 ≤ 126 ∨ field.offset = 262) :
    KeepsHeader (hdrSet order tpBuf field value) tpBuf where
  src := hdrSet_slice_outside _ _ _ _ (by omega)
  lens := hdrSet_slice_outside _ _ _ _ (by omega)
  srcip := hdrSet_slice_outside _ _ _ _ (by omega)

/-- A copy of all of the header proper has these fields. -/
theorem KeepsHeader.copied (fresh : Block) (count : Nat) (whole : 280 ≤ count) :
    KeepsHeader (fresh.overlay tpHdrLen tpBuf tpHdrLen count) tpBuf where
  src := Block.overlay_slice_part _ _ _ _ _ 76 64 (by omega)
  lens := Block.overlay_slice_part _ _ _ _ _ 196 16 (by omega)
  srcip := Block.overlay_slice_part _ _ _ _ _ 216 64 (by omega)

end

/-- What is known of every message: its length is an `int`, and its header leads to its payload, by
no more than an `int` behind the transport header. -/
structure Mbuf.Framed (order : ByteOrder) (msg : Mbuf) : Prop where
  inInt : InInt msg.allocLen
  headed : Headed order msg.tpBuf msg.payload
  near : (msg.payload : Int) ≤ intMax + tpHdrLen

/-- The header that `rmr_init` and `rmr_init_trace` ask for has a length that is an `int`. -/
structure SendConf.Sane (conf : SendConf) : Prop where
  ready : conf.Ready
  small : (conf.traceDataLen : Int) + 284 ≤ intMax

/-- The source of a message is to be put in, or it is this process. -/
def Mbuf.Sourced (conf : SendConf) (msg : Mbuf) : Prop :=
  msg.addSrc = true ∨ OwnSource conf msg.tpBuf

section
variable {order : ByteOrder} {conf : SendConf} {left : Leftover} {draft nm next : Draft}
  {msg other : Mbuf}

/-- A message with the same lengths is as good. -/
theorem Mbuf.Framed.keep (framed : msg.Framed order) (allocLen : other.allocLen = msg.allocLen)
    (payload : other.payload = msg.payload)
    (lens : other.tpBuf.slice 246 16 = msg.tpBuf.slice 246 16) : other.Framed order where
  inInt := allocLen ▸ framed.inInt
  headed := (framed.headed.congr lens).at_ payload
  near := payload ▸ framed.near

/-- A message that differs from another one in nothing that matters here. -/
structure Mbuf.Alike (other msg : Mbuf) : Prop where
  allocLen : other.allocLen = msg.allocLen
  payload : other.payload = msg.payload
  len : other.len = msg.len
  addSrc : other.addSrc = msg.addSrc
  keeps : KeepsHeader other.tpBuf msg.tpBuf

/-- Such a message is as good. -/
theorem Mbuf.Alike.framed (alike : other.Alike msg) (framed : msg.Framed order) :
    other.Framed order :=
  framed.keep alike.allocLen alike.payload alike.keeps.lens

/-- Such a message has the same source. -/
theorem Mbuf.Alike.sourced (alike : other.Alike msg) (sourced : msg.Sourced conf) :
    other.Sourced conf :=
  sourced.imp alike.addSrc.trans fun own => own.keep alike.keeps.src alike.keeps.srcip

/-- What is alike to a message that is alike to a third one is alike to that. -/
theorem Mbuf.Alike.trans {third : Mbuf} (second : third.Alike other) (first : other.Alike msg) :
    third.Alike msg where
  allocLen := second.allocLen.trans first.allocLen
  payload := second.payload.trans first.payload
  len := second.len.trans first.len
  addSrc := second.addSrc.trans first.addSrc
  keeps := second.keeps.trans first.keeps

/-- A message that is allocated has its own source. -/
theorem allocZcmsg_sourced (sane : conf.Sane) {allocs : Nat} {old : Option Mbuf}
    {size trlo : Int} {state : MsgState}
    (allocated : allocZcmsg conf left allocs old size state trlo = .ok next) :
    next.msg.Framed conf.order ∧ next.msg.Sourced conf := by
  -- The buffer is the fresh header laid over what was there, whichever branch was taken.
  obtain ⟨tpBuf, mlen, tpBufIs, payload, allocLen, -⟩ := allocZcmsg_cases allocated
  obtain ⟨headed, starts⟩ :=
    freshHeader_headed sane.ready (insertMlen conf.order (toUint mlen) tpBuf)
  rw [← tpBufIs] at headed starts
  have payload := payload.trans starts
  have small := sane.small
  refine ⟨⟨allocLen ▸ inInt_toInt mlen, headed.at_ payload, ?_⟩, .inr ?_⟩
  · rw [payload]
    simp only [intMax, tpHdrLen] at small ⊢
    omega
  · rw [tpBufIs]
    exact fillSource_own _

/-- What is put into the header for the send does not change the fields, but for the source if the
flag is on. -/
theorem prepare_keeps (off : msg.addSrc = false) :
    KeepsHeader (prepare conf msg).tpBuf msg.tpBuf := by
  -- With the flag off only the three words are written.
  unfold prepare
  dsimp only
  rw [off, if_neg Bool.false_ne_true]
  exact (KeepsHeader.hdrSet _ _ _ (by decide)).trans ((KeepsHeader.hdrSet _ _ _ (by decide)).trans
    (KeepsHeader.hdrSet _ _ _ (by decide)))

/-- The source is this process in what is handed to the transport. -/
theorem Mbuf.Sourced.prepare (sourced : msg.Sourced conf) :
    OwnSource conf (prepare conf msg).tpBuf := by
  -- With the flag the source is filled in again; without it no source byte is written.
  cases flag : msg.addSrc with
  | true =>
    unfold Rmr.prepare
    dsimp only
    rw [flag, if_pos rfl]
    exact fillSource_own _
  | false =>
    have keeps : KeepsHeader (Rmr.prepare conf msg).tpBuf msg.tpBuf := prepare_keeps flag
    have own := sourced.resolve_left (by rw [flag]; exact Bool.false_ne_true)
    exact own.keep keeps.src keeps.srcip

/-- Setting the flags of the header leaves a message alike. -/
theorem putFlags_keeps (tpBuf : Block) (flags : Nat) :
    KeepsHeader (tpBuf.put32 order HdrField.flags.offset flags) tpBuf where
  src := Block.put32_slice_outside _ _ _ _ (by decide)
  lens := Block.put32_slice_outside _ _ _ _ (by decide)
  srcip := Block.put32_slice_outside _ _ _ _ (by decide)

/-- Turning the call flag off leaves a message alike. -/
theorem unmarkCall_alike (order : ByteOrder) (msg : Mbuf) : (msg.unmarkCall order).Alike msg :=
  ⟨rfl, rfl, rfl, rfl, putFlags_keeps _ _⟩

/-- Blotting out the call id leaves a message alike. -/
theorem blotCallId_alike (framed : msg.Framed order) (made : msg.blotCallId order = .ok other) :
    other.Alike msg := by
  obtain ⟨filled, filledIs, made⟩ := bind_eq_ok.mp made
  cases made
  obtain ⟨-, rfl⟩ := Block.memcpy_inside filledIs
  -- Data 1 lies behind the header proper.
  exact ⟨rfl, rfl, rfl, rfl, KeepsHeader.overlay _ _ _ _
    (.inr (.inr (.inr (addrs_behind framed.headed.len0).2.1)))⟩

/-- Making a request of a message leaves it alike. -/
theorem request_alike {callId : UInt8} (framed : msg.Framed order)
    (made : msg.request order callId = .ok other) : other.Alike msg := by
  -- Neither the flags nor data 1 are in the source fields or in the lengths.
  obtain ⟨filled, filledIs, made⟩ := bind_eq_ok.mp made
  cases made
  obtain ⟨-, rfl⟩ := Block.memcpy_inside filledIs
  have marked : KeepsHeader (msg.markCall order).tpBuf msg.tpBuf := putFlags_keeps _ _
  have behind := (addrs_behind (framed.headed.congr marked.lens).len0).2.1
  exact ⟨rfl, rfl, rfl, rfl, (KeepsHeader.overlay _ _ _ _ (.inr (.inr (.inr behind)))).trans
    marked⟩

/-- `realloc_msg` copies the source with the rest of the header. -/
theorem reallocMsg_sourced {trLen : Int} (framed : draft.msg.Framed order)
    (made : reallocMsg order left draft trLen = .ok nm) :
    nm.msg.Framed order ∧ (draft.msg.Sourced conf → nm.msg.Sourced conf) := by
  -- All of the header but the trace length is copied, and the source lies in it.
  have retraced := reallocMsg_retraced framed.headed made
  have size := retraced.size
  have small := retraced.small
  have whole := retraced.whole
  simp only [intMax, tpHdrLen] at size small
  have within := retraced.within
  refine ⟨⟨⟨by simp only [intMin]; omega, by simp only [intMax]; omega⟩, retraced.headed,
    by simp only [intMax, tpHdrLen]; omega⟩, ?_⟩
  have addSrc : nm.msg.addSrc = draft.msg.addSrc := congrArg Marks.addSrc (reallocMsg_marks made)
  exact Or.imp addSrc.trans fun own => own.keep retraced.src retraced.srcip

/-- Setting trace data leaves the source as it is. -/
theorem rmrSetTrace_sourced {data : List UInt8} (framed : draft.msg.Framed order)
    (traced : rmrSetTrace order left draft data = .ok next) :
    next.msg.Framed order ∧ (draft.msg.Sourced conf → next.msg.Sourced conf) := by
  unfold rmrSetTrace at traced
  split at traced
  · cases traced
    exact ⟨framed, id⟩
  · obtain ⟨mid, midIs, traced⟩ := bind_eq_ok.mp traced
    obtain ⟨filled, filledIs, traced⟩ := bind_eq_ok.mp traced
    cases traced
    obtain ⟨-, rfl⟩ := Block.memcpy_inside filledIs
    have sized : mid.msg.Framed order ∧ (draft.msg.Sourced conf → mid.msg.Sourced conf) := by
      unfold Draft.sizeTrace at midIs
      split at midIs
      · cases midIs
        exact ⟨framed, id⟩
      · obtain ⟨nm, nmIs, made⟩ := bind_eq_ok.mp midIs
        cases made
        -- Only the buffer of the copy is taken.
        have retraced := reallocMsg_retraced framed.headed nmIs
        have small := retraced.small
        have within := retraced.within
        have near : (nm.msg.payload : Int) ≤ intMax + tpHdrLen := by
          simp only [intMax, tpHdrLen] at small ⊢
          omega
        exact ⟨⟨framed.inInt, retraced.headed, near⟩,
          Or.imp id fun own => own.keep retraced.src retraced.srcip⟩
    have keeps : KeepsHeader (mid.msg.tpBuf.overlay (traceAddr order mid.msg.tpBuf)
        (Block.ofList data) 0 data.length) mid.msg.tpBuf :=
      KeepsHeader.overlay _ _ _ _ (.inr (.inr (.inr (addrs_behind sized.1.headed.len0).1)))
    exact ⟨sized.1.keep rfl rfl keeps.lens,
      fun sourced => (sized.2 sourced).imp id fun own => own.keep keeps.src keeps.srcip⟩

/-- Nothing that an application does with a message changes its source. -/
theorem apply_sourced {op : MsgOp} (framed : draft.msg.Framed order)
    (applied : draft.apply order left op = .ok next) :
    next.msg.Framed order ∧ (draft.msg.Sourced conf → next.msg.Sourced conf) := by
  -- All but the trace data is written in place.
  have inPlace : ∀ {msg : Mbuf}, msg.allocLen = draft.msg.allocLen →
      msg.payload = draft.msg.payload → msg.addSrc = draft.msg.addSrc →
      KeepsHeader msg.tpBuf draft.msg.tpBuf →
      msg.Framed order ∧ (draft.msg.Sourced conf → msg.Sourced conf) := by
    intro msg allocLen payload addSrc keeps
    exact ⟨framed.keep allocLen payload keeps.lens,
      Or.imp addSrc.trans fun own => own.keep keeps.src keeps.srcip⟩
  cases op with
  | mtype value =>
    cases applied
    exact inPlace rfl rfl rfl (KeepsHeader.refl _)
  | subId value =>
    cases applied
    exact inPlace rfl rfl rfl (KeepsHeader.refl _)
  | xact src =>
    cases applied
    refine inPlace rfl rfl rfl (KeepsHeader.overlay _ _ _ _ (.inl ?_))
    have := Nat.min_le_right src.length rmrMaxXid
    simp only [HdrField.offset, tpHdrLen, rmrMaxXid] at this ⊢
    omega
  | meid src =>
    cases applied
    have short := Nat.min_le_right src.length rmrMaxMeid
    refine inPlace rfl rfl rfl ((KeepsHeader.overlay _ _ _ _ (.inr (.inl ?_))).trans
      (KeepsHeader.overlay _ _ _ _ (.inr (.inl ?_))))
    · split_ifs
      all_goals
        rename_i full
        simp only [HdrField.offset, tpHdrLen, rmrMaxMeid] at short full ⊢
        omega
    · simp only [HdrField.offset, tpHdrLen, rmrMaxMeid] at short ⊢
      omega
  | trace data => exact rmrSetTrace_sourced framed applied
  | payload bytes =>
    obtain ⟨filled, filledIs, made⟩ := bind_eq_ok.mp applied
    cases made
    obtain ⟨-, rfl⟩ := Block.memcpy_inside filledIs
    have behind := (addrs_behind framed.headed.len0).2.2.2
    rw [← framed.headed.starts] at behind
    exact inPlace rfl rfl rfl (KeepsHeader.overlay _ _ _ _ (.inr (.inr (.inr behind))))

/-- A clone is alike. -/
theorem cloneMsg_alike (framed : draft.msg.Framed order)
    (cloned : cloneMsg order left draft = .ok nm) : nm.msg.Alike draft.msg := by
  -- The copy starts at the header's first byte and is no shorter than the header.
  have addSrc : nm.msg.addSrc = draft.msg.addSrc := congrArg Marks.addSrc (cloneMsg_marks cloned)
  unfold cloneMsg at cloned
  obtain ⟨hdr, hdrIs, cloned⟩ := bind_eq_ok.mp cloned
  dsimp only at cloned
  split at cloned
  · cases cloned
  · obtain ⟨filled, filledIs, made⟩ := bind_eq_ok.mp cloned
    cases made
    generalize countIs : toUint ((rmrHdrLen order draft.msg.tpBuf : Int) +
      rmrTrLen order draft.msg.tpBuf + rmrD1Len order draft.msg.tpBuf +
      rmrD2Len order draft.msg.tpBuf) = count at hdrIs
    obtain ⟨-, rfl⟩ := Block.memcpy_inside hdrIs
    obtain ⟨-, rfl⟩ := Block.memcpy_inside filledIs
    have counted := cloneCount framed.headed framed.near
    rw [countIs] at counted
    have copied : KeepsHeader ((left.malloc draft.allocs (draft.msg.allocLen + tpHdrLen)).overlay
        tpHdrLen draft.msg.tpBuf tpHdrLen count) draft.msg.tpBuf :=
      KeepsHeader.copied _ _ counted
    have headed := framed.headed.congr copied.lens
    have behind := (addrs_behind headed.len0).2.2.2
    exact ⟨rfl, headed.starts.symm, rfl, addSrc,
      (KeepsHeader.overlay _ _ _ _ (.inr (.inr (.inr behind)))).trans copied⟩

/-- A buffer that `realloc_payload` makes has the source, if the whole header is copied; the flag is
not taken over by a clone. -/
theorem reallocPayload_sourced {payloadLen : Int} {copy clone : Bool}
    (framed : draft.msg.Framed order)
    (held : copy = true → (tpHdrLen + mhdrLen : Int) ≤ draft.msg.allocLen)
    (made : reallocPayload order left draft payloadLen copy clone = .ok (.made nm)) :
    nm.msg.Framed order ∧
      ((clone = true → draft.msg.addSrc = false) → draft.msg.Sourced conf →
        nm.msg.Sourced conf) := by
  have addSrc := congrArg Marks.addSrc (reallocPayload_marks made)
  have rebuilt := reallocPayload_made made
  -- Either way at least the header proper is copied.
  have counted : 280 ≤ reallocCount order draft.msg copy := by
    cases copy with
    | true =>
      have held := held rfl
      simp only [tpHdrLen, mhdrLen] at held
      have inInt := framed.inInt
      have rest := toUint_of_nonneg (n := draft.msg.allocLen - (50 : Nat))
        ⟨by simp only [intMin]; omega, by have := inInt.2; omega⟩ (by omega)
      rw [reallocCount, if_pos rfl, copyCount]
      omega
    | false =>
      have hdrLen := framed.headed.hdrLen
      have behind := (addrs_behind framed.headed.len0).2.2.2
      rw [← framed.headed.starts] at behind
      simp only [tpHdrLen] at hdrLen
      rw [reallocCount, if_neg Bool.false_ne_true]
      omega
  have copied : KeepsHeader nm.msg.tpBuf draft.msg.tpBuf := by
    rw [rebuilt.tpBuf]
    exact KeepsHeader.copied _ _ counted
  have headed := framed.headed.congr copied.lens
  have payload : nm.msg.payload = draft.msg.payload := rebuilt.payload.trans headed.starts.symm
  refine ⟨⟨rebuilt.inInt, headed.at_ payload, payload ▸ framed.near⟩, fun unflagged sourced => ?_⟩
  have own : OwnSource conf draft.msg.tpBuf → OwnSource conf nm.msg.tpBuf := fun own =>
    own.keep copied.src copied.srcip
  cases clone with
  | true => exact .inr (own (sourced.resolve_left (by rw [unflagged rfl]; decide)))
  | false => exact sourced.imp addSrc.trans own

end

end Rmr
