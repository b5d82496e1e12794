import Rmr.Message.Pool
import Rmr.Proofs.Message.Compose
import Rmr.Proofs.Receive.Vetting

/-! The room that a message buffer says it has, after each function that gives it another buffer. -/

namespace Rmr

/-- What a buffer says it has room for is there: its length, and the payload it can take. -/
structure Mbuf.Honest (order : ByteOrder) (msg : Mbuf) : Prop where
  allocLen : msg.allocLen ≤ msg.tpBuf.size
  payload : msg.payload + rmrPayloadSize order msg ≤ msg.tpBuf.size

/-- The lengths in a header lead to the payload, and add up to no more than a word can hold. -/
structure Headed (order : ByteOrder) (tpBuf : Block) (payload : Nat) : Prop where
  len0 : mhdrLen ≤ hdrGet order tpBuf .len0
  starts : payload = payloadAddr order tpBuf
  counted : payload < tpHdrLen + 4294967296

/-- What holds of every message buffer: its length, read as an unsigned word, was allocated. -/
structure Mbuf.Sized (order : ByteOrder) (msg : Mbuf) : Prop where
  inInt : InInt msg.allocLen
  held : toUint msg.allocLen ≤ msg.tpBuf.size
  floor : mhdrLen ≤ toUint msg.allocLen
  /-- A buffer whose length is not negative is not much larger than an `int` can tell. -/
  bounded : 0 ≤ msg.allocLen → (msg.tpBuf.size : Int) ≤ intMax + tpHdrLen
  headed : Headed order msg.tpBuf msg.payload
  near : msg.payload ≤ toUint msg.allocLen + 2147483648

instance decidableHonest (order : ByteOrder) (msg : Mbuf) : Decidable (msg.Honest order) :=
  decidable_of_iff (msg.allocLen ≤ msg.tpBuf.size ∧
    msg.payload + rmrPayloadSize order msg ≤ msg.tpBuf.size)
    ⟨fun ⟨allocLen, payload⟩ => ⟨allocLen, payload⟩,
      fun honest => ⟨honest.allocLen, honest.payload⟩⟩

section
variable {order : ByteOrder} {tpBuf next : Block} {payload : Nat} {msg : Mbuf}

/-- The lengths are the same where their bytes are. -/
theorem lens_congr (order : ByteOrder)
    (same : next.slice 246 16 = tpBuf.slice 246 16) :
    hdrGet order next .len0 = hdrGet order tpBuf .len0 ∧
      hdrGet order next .len1 = hdrGet order tpBuf .len1 ∧
      hdrGet order next .len2 = hdrGet order tpBuf .len2 ∧
      hdrGet order next .len3 = hdrGet order tpBuf .len3 := by
  -- The four words are consecutive in the header, from byte 246 on.
  have word : ∀ skip, skip + 4 ≤ 16 → next.slice (246 + skip) 4 = tpBuf.slice (246 + skip) 4 := by
    intro skip within
    rw [← Block.slice_drop_take _ _ _ _ _ within, ← Block.slice_drop_take _ _ _ _ _ within, same]
  exact ⟨hdrGet_congr order .len0 (word 0 (by decide)),
    hdrGet_congr order .len1 (word 4 (by decide)),
    hdrGet_congr order .len2 (word 8 (by decide)), hdrGet_congr order .len3 (word 12 (by decide))⟩

/-- A header is as good as another one with the same lengths. -/
theorem Headed.congr (headed : Headed order tpBuf payload)
    (same : next.slice 246 16 = tpBuf.slice 246 16) : Headed order next payload := by
  obtain ⟨len0, len1, len2, len3⟩ := lens_congr order same
  refine ⟨len0 ▸ headed.len0, ?_, headed.counted⟩
  rw [payloadAddr, data2Addr, data1Addr, traceAddr, len0, len1, len2, len3]
  exact headed.starts

/-- A header leads to the same payload, however that is given. -/
theorem Headed.at_ (headed : Headed order tpBuf payload) {other : Nat} (same : other = payload) :
    Headed order tpBuf other := same ▸ headed

/-- The header parts end where the payload starts. -/
theorem Headed.hdrLen (headed : Headed order tpBuf payload) :
    payload = tpHdrLen + rmrHdrLen order tpBuf := by
  -- The words do not add up to `2^32`, so that their unsigned sum is the payload's start.
  have small := headed.counted
  have at_ := headed.starts
  rw [payloadAddr, data2Addr, data1Addr, traceAddr] at at_
  rw [at_] at small
  have word : rmrHdrLen order tpBuf = hdrGet order tpBuf .len0 + hdrGet order tpBuf .len1 +
      hdrGet order tpBuf .len2 + hdrGet order tpBuf .len3 := by
    rw [rmrHdrLen, ← Int.natCast_add, ← Int.natCast_add, ← Int.natCast_add]
    exact toUint_natCast (by omega)
  rw [word, at_]
  omega

/-- Trace data, data 1, data 2 and payload lie behind the header proper. -/
theorem addrs_behind (len0 : mhdrLen ≤ hdrGet order tpBuf .len0) :
    330 ≤ traceAddr order tpBuf ∧ 330 ≤ data1Addr order tpBuf ∧ 330 ≤ data2Addr order tpBuf ∧
      330 ≤ payloadAddr order tpBuf := by
  simp only [payloadAddr, data2Addr, data1Addr, traceAddr, tpHdrLen, mhdrLen] at len0 ⊢
  omega

/-- Bytes behind the header proper do not change the lengths. -/
theorem overlay_behind (start : Nat) (src : Block) (origin count : Nat) (behind : 330 ≤ start) :
    (tpBuf.overlay start src origin count).slice 246 16 = tpBuf.slice 246 16 :=
  Block.overlay_slice_outside _ _ _ _ _ (Or.inl (by omega))

/-- A buffer whose length was allocated is honest. -/
theorem Mbuf.Sized.honest (sized : msg.Sized order) : msg.Honest order := by
  have held := sized.held
  have near := sized.near
  constructor
  · rcases Int.lt_or_le msg.allocLen 0 with negative | nonneg
    · omega
    · have same := toUint_of_nonneg sized.inInt nonneg
      omega
  · -- The size is that of what lies behind the payload's start, or not positive.
    have size : rmrPayloadSize order msg = toInt ((toUint msg.allocLen : Int) - msg.payload) := by
      rw [rmrPayloadSize, toInt_of_toUint, toInt_toUint_sub, sized.headed.hdrLen]
      congr 1
      omega
    have below : toInt ((toUint msg.allocLen : Int) - msg.payload) ≤
        (toUint msg.allocLen : Int) - msg.payload := toInt_le (by simp only [intMin]; omega)
    rw [size]
    omega

/-- A message with the same room and the same lengths is as good. -/
theorem Mbuf.Sized.keep {other : Mbuf} (sized : msg.Sized order)
    (allocLen : other.allocLen = msg.allocLen) (payload : other.payload = msg.payload)
    (size : other.tpBuf.size = msg.tpBuf.size)
    (lens : other.tpBuf.slice 246 16 = msg.tpBuf.slice 246 16) : other.Sized order where
  inInt := allocLen ▸ sized.inInt
  held := by rw [allocLen, size]; exact sized.held
  floor := by rw [allocLen]; exact sized.floor
  bounded := by rw [allocLen, size]; exact sized.bounded
  headed := by rw [payload]; exact sized.headed.congr lens
  near := by rw [allocLen, payload]; exact sized.near

/-- A message whose length is all that was allocated, or up to the transport header less. -/
theorem Mbuf.Sized.of_room (inInt : InInt msg.allocLen) (floor : (mhdrLen : Int) ≤ msg.allocLen)
    (held : msg.allocLen ≤ msg.tpBuf.size)
    (bounded : (msg.tpBuf.size : Int) ≤ intMax + tpHdrLen)
    (headed : Headed order msg.tpBuf msg.payload)
    (near : (msg.payload : Int) ≤ msg.allocLen + 2147483648) : msg.Sized order := by
  simp only [intMax, tpHdrLen, mhdrLen] at floor bounded
  have same := toUint_of_nonneg inInt (by omega)
  exact {
    inInt
    held := by omega
    floor := by simp only [mhdrLen]; omega
    bounded := fun _ => bounded
    headed
    near := by omega }

end

/-- What `rmr_init` and `rmr_init_trace` leave in a context. -/
structure SendConf.Ready (conf : SendConf) : Prop where
  trace : (conf.traceDataLen : Int) ≤ intMax
  data1 : conf.d1Len = 4

section
variable {conf : SendConf} {left : Leftover}

/-- A fresh header tells of its own lengths. -/
theorem freshHeader_headed (ready : conf.Ready) (tpBuf : Block) :
    Headed conf.order (freshHeader conf tpBuf) (334 + conf.traceDataLen) ∧
      payloadAddr conf.order (freshHeader conf tpBuf) = 334 + conf.traceDataLen := by
  -- The lengths that `alloc_zcmsg` writes are the header's, the trace's, and 4 bytes of data 1.
  obtain ⟨trace, data1⟩ := ready
  obtain ⟨len0, len1, len2, len3⟩ :=
    freshHeader_lens conf tpBuf trace (by rw [data1]; decide)
  have starts : payloadAddr conf.order (freshHeader conf tpBuf) = 334 + conf.traceDataLen := by
    rw [payloadAddr, data2Addr, data1Addr, traceAddr, len0, len1, len2, len3, data1]
    simp only [tpHdrLen, mhdrLen]
    omega
  simp only [intMax] at trace
  exact ⟨⟨by rw [len0], starts.symm, by simp only [tpHdrLen]; omega⟩, starts⟩

/-- No less than the headers is allocated. -/
theorem zcmsgLen_low (ready : conf.Ready) (size trlo : Int) : 334 ≤ zcmsgLen conf size trlo := by
  have data1 := ready.data1
  simp only [zcmsgLen, mhdrLen, tpHdrLen]
  split <;> split <;> omega

/-- A message as it is when it was allocated just now. -/
def freshMsg (conf : SendConf) (tpBuf : Block) (mlen : Int) (state : MsgState) : Mbuf where
  state := state
  mtype := unsetId
  len := 0
  payload := payloadAddr conf.order
    (freshHeader conf (insertMlen conf.order (toUint mlen) tpBuf))
  subId := unsetId
  tpBuf := freshHeader conf (insertMlen conf.order (toUint mlen) tpBuf)
  allocLen := toInt mlen
  noAlloc := false
  addSrc := false
  huge := false
  rtsFd := -1

/-- What `alloc_zcmsg` leaves: a fresh message in a buffer of the size asked for, or in that of the
message passed in. -/
theorem allocZcmsg_made {allocs : Nat} {old : Option Mbuf} {size trlo : Int} {state : MsgState}
    {draft : Draft} (allocated : allocZcmsg conf left allocs old size state trlo = .ok draft) :
    ∃ tpBuf mlen, draft.msg = freshMsg conf tpBuf mlen state ∧
      (mlen = zcmsgLen conf size trlo ∧ tpBuf.size = mlen.toNat ∨
        ∃ msg, old = some msg ∧ (0 ≤ msg.allocLen → zcmsgLen conf size trlo ≤ msg.allocLen) ∧
          tpBuf = msg.tpBuf ∧ mlen = msg.allocLen) := by
  -- The branches of `alloc_zcmsg`: no message passed in, one too small, and one that will do.
  unfold allocZcmsg at allocated
  cases old with
  | none =>
    dsimp only at allocated
    split at allocated
    · cases allocated
    · cases allocated
      exact ⟨_, _, rfl, .inl ⟨rfl, rfl⟩⟩
  | some msg =>
    dsimp only at allocated
    by_cases small : 0 ≤ msg.allocLen ∧ msg.allocLen < zcmsgLen conf size trlo
    · rw [if_pos small] at allocated
      dsimp only at allocated
      split at allocated
      · cases allocated
      · cases allocated
        exact ⟨_, _, rfl, .inl ⟨rfl, rfl⟩⟩
    · rw [if_neg small] at allocated
      dsimp only at allocated
      split at allocated
      · cases allocated
      · cases allocated
        refine ⟨_, _, rfl, .inr ⟨msg, rfl, fun nonneg => ?_, rfl, rfl⟩⟩
        by_contra more
        exact small ⟨nonneg, by omega⟩

/-- The buffer of it, and what it says of that. -/
theorem allocZcmsg_cases {allocs : Nat} {old : Option Mbuf} {size trlo : Int} {state : MsgState}
    {draft : Draft} (allocated : allocZcmsg conf left allocs old size state trlo = .ok draft) :
    ∃ tpBuf mlen, draft.msg.tpBuf = freshHeader conf (insertMlen conf.order (toUint mlen) tpBuf) ∧
      draft.msg.payload = payloadAddr conf.order draft.msg.tpBuf ∧
      draft.msg.allocLen = toInt mlen ∧
      (mlen = zcmsgLen conf size trlo ∧ tpBuf.size = mlen.toNat ∨
        ∃ msg, old = some msg ∧ (0 ≤ msg.allocLen → zcmsgLen conf size trlo ≤ msg.allocLen) ∧
          tpBuf = msg.tpBuf ∧ mlen = msg.allocLen) := by
  obtain ⟨tpBuf, mlen, is, from_⟩ := allocZcmsg_made allocated
  rw [is]
  exact ⟨tpBuf, mlen, rfl, rfl, rfl, from_⟩

/-- A message that is allocated, or whose buffer is used again, is as large as it says. -/
theorem allocZcmsg_sized (ready : conf.Ready) {allocs : Nat} {old : Option Mbuf}
    {size trlo : Int} {state : MsgState} {draft : Draft}
    (sized : ∀ msg ∈ old, msg.Sized conf.order) (small : zcmsgLen conf size trlo < 4294967296)
    (allocated : allocZcmsg conf left allocs old size state trlo = .ok draft) :
    draft.msg.Sized conf.order := by
  have low := zcmsgLen_low ready size trlo
  have trace := ready.trace
  simp only [intMax] at trace
  obtain ⟨tpBuf, mlen, tpBufIs, payload, allocLen, from_⟩ := allocZcmsg_cases allocated
  obtain ⟨headed, starts⟩ := freshHeader_headed ready (insertMlen conf.order (toUint mlen) tpBuf)
  rw [← tpBufIs] at headed starts
  have starts : draft.msg.payload = 334 + conf.traceDataLen := payload.trans starts
  have sizeIs : draft.msg.tpBuf.size = tpBuf.size := by rw [tpBufIs]; rfl
  rcases from_ with ⟨mlenIs, fresh⟩ | ⟨msg, is, enough, tpBufSame, mlenIs⟩
  · -- The size asked for is the residue of the length.
    have whole : (toUint draft.msg.allocLen : Int) = mlen := by
      rw [allocLen, toUint_toInt]
      obtain ⟨count, countIs⟩ := Int.eq_ofNat_of_zero_le (show 0 ≤ mlen by omega)
      rw [countIs, toUint_natCast (by omega)]
    refine {
      inInt := allocLen ▸ inInt_toInt mlen
      held := by omega
      floor := by simp only [mhdrLen]; omega
      bounded := fun nonneg => ?_
      headed := starts ▸ headed
      near := by omega }
    have same := toUint_of_nonneg (allocLen ▸ inInt_toInt mlen) nonneg
    have high := (inInt_toInt mlen).2
    rw [← allocLen] at high
    simp only [tpHdrLen]
    omega
  · have old := sized msg is
    have allocLen : draft.msg.allocLen = msg.allocLen := by
      rw [allocLen, mlenIs, toInt_of_inInt old.inInt]
    refine {
      inInt := allocLen ▸ old.inInt
      held := by rw [allocLen, sizeIs, tpBufSame]; exact old.held
      floor := by rw [allocLen]; exact old.floor
      bounded := by rw [allocLen, sizeIs, tpBufSame]; exact old.bounded
      headed := starts ▸ headed
      near := ?_ }
    rw [allocLen]
    rcases Int.lt_or_le msg.allocLen 0 with negative | nonneg
    · have large := toUint_of_neg old.inInt negative
      omega
    · have same := toUint_of_nonneg old.inInt nonneg
      have enough := enough nonneg
      omega

end

section
variable {order : ByteOrder} {left : Leftover} {draft nm : Draft}

/-- A copy of data 1 or data 2 lies where it was to be put. -/
theorem copyData_slice {hdr old out : Block} {start origin len : Nat}
    (copied : copyData hdr start old origin len = .ok out) (behind : 330 ≤ start) :
    out.size = hdr.size ∧
      ∀ {other part : Nat}, other + part ≤ 330 → out.slice other part = hdr.slice other part := by
  obtain rfl := copyData_made copied
  exact ⟨rfl, fun before => Block.overlay_slice_outside _ _ _ _ _ (Or.inl (by omega))⟩

/-- What `realloc_msg` leaves: a buffer with fifty bytes more than its length, a header that differs
at most in the length of the trace data, and a payload that starts inside of the buffer. -/
structure Retraced (order : ByteOrder) (old : Mbuf) (trLen : Int) (nm : Mbuf) : Prop where
  before : nm.tpBuf.slice 50 200 = old.tpBuf.slice 50 200
  behind : nm.tpBuf.slice 254 76 = old.tpBuf.slice 254 76
  allocLen : nm.allocLen = old.allocLen + (trLen - toInt (rmrTrLen order old.tpBuf))
  size : (nm.tpBuf.size : Int) = nm.allocLen + tpHdrLen
  small : (nm.tpBuf.size : Int) ≤ intMax
  whole : 330 ≤ nm.tpBuf.size
  headed : Headed order nm.tpBuf nm.payload
  within : nm.payload ≤ nm.tpBuf.size

/-- `realloc_msg` goes by its length. -/
theorem reallocMsg_retraced {trLen : Int}
    (started : Headed order draft.msg.tpBuf draft.msg.payload)
    (made : reallocMsg order left draft trLen = .ok nm) :
    Retraced order draft.msg trLen nm.msg := by
  obtain ⟨one, two, filled, small, freshSize, oneIs, twoIs, filledIs, rfl⟩ := reallocMsg_steps made
  obtain ⟨tpb, tpbIs⟩ : ∃ tpb, tpb = draft.msg.allocLen +
    (trLen - toInt (rmrTrLen order draft.msg.tpBuf)) + tpHdrLen := ⟨_, rfl⟩
  obtain ⟨⟨count, -, held, -, -⟩, rfl⟩ := Block.memcpy_inside filledIs
  obtain ⟨lens, lensIs⟩ : ∃ lens, lens = reallocHdr order left draft trLen := ⟨_, rfl⟩
  have lensSize : lens.size = tpb.toNat := by
    rw [lensIs, tpbIs]
    rfl
  rw [← lensIs] at oneIs freshSize
  rw [lensSize] at freshSize
  rw [← tpbIs] at small
  rw [reallocHdr] at lensIs
  -- The header proper is as long as it says in the copy, too.
  have len0 : mhdrLen ≤ hdrGet order lens .len0 := by
    have same : hdrGet order lens .len0 = hdrGet order draft.msg.tpBuf .len0 := by
      rw [lensIs, hdrGet_hdrSet_ne _ _ _ (by decide)]
      exact hdrGet_congr order .len0 (Block.overlay_slice_part _ _ _ _ _ 196 4 (by decide))
    rw [same]
    exact started.len0
  obtain ⟨oneSize, oneKeeps⟩ := copyData_slice oneIs (addrs_behind len0).2.1
  have oneLen0 : mhdrLen ≤ hdrGet order one .len0 := by
    rw [(lens_congr order (oneKeeps (by decide))).1]
    exact len0
  obtain ⟨twoSize, twoKeeps⟩ := copyData_slice twoIs (addrs_behind oneLen0).2.2.1
  have twoLen0 : mhdrLen ≤ hdrGet order two .len0 := by
    rw [(lens_congr order (twoKeeps (by decide))).1]
    exact oneLen0
  have size : two.size = tpb.toNat := twoSize.trans (oneSize.trans lensSize)
  rw [size] at held
  have within : payloadAddr order two ≤ tpb.toNat := by
    have held : (payloadAddr order two : Int) + draft.msg.len ≤ tpb.toNat := held
    omega
  have high := small.2
  simp only [intMax] at high
  have headed : Headed order two (payloadAddr order two) :=
    ⟨twoLen0, rfl, by simp only [tpHdrLen]; omega⟩
  have behind := (addrs_behind twoLen0).2.2.2
  -- Nothing but the length of the trace data was written over what was copied of the header.
  have copiedHdr : ∀ skip part : Nat, skip + part ≤ 280 → (skip + part ≤ 200 ∨ 204 ≤ skip) →
      (two.overlay (payloadAddr order two) draft.msg.tpBuf draft.msg.payload
        draft.msg.len.toNat).slice (50 + skip) part = draft.msg.tpBuf.slice (50 + skip) part := by
    intro skip part within apart
    rw [Block.overlay_slice_outside _ _ _ _ _ (Or.inl (by omega)), twoKeeps (by omega),
      oneKeeps (by omega), lensIs, hdrSet_slice_outside _ _ _ _ (by
        simp only [HdrField.offset, tpHdrLen]
        omega)]
    exact Block.overlay_slice_part _ _ _ _ _ skip part (by simp only [mhdrLen]; omega)
  exact {
    before := copiedHdr 0 200 (by decide) (Or.inl (by decide))
    behind := copiedHdr 204 76 (by decide) (Or.inr (by decide))
    allocLen := rfl
    size := by
      change ((two.size : Nat) : Int) = draft.msg.allocLen +
        (trLen - toInt (rmrTrLen order draft.msg.tpBuf)) + tpHdrLen
      rw [size, ← tpbIs]
      omega
    small := by
      change ((two.size : Nat) : Int) ≤ intMax
      rw [size]
      simp only [intMax]
      omega
    whole := by
      change 330 ≤ two.size
      rw [size]
      exact freshSize
    headed := headed.congr (overlay_behind _ _ _ _ behind)
    within := by
      change payloadAddr order two ≤ two.size
      rw [size]
      exact within }

/-- `rmr_realloc_msg` leaves a message that is as large as it says. -/
theorem Retraced.sized {old msg : Mbuf} {trLen : Int} (retraced : Retraced order old trLen msg) :
    msg.Sized order := by
  -- The size of the new buffer and what it says of itself come from the same sum.
  have size := retraced.size
  have small := retraced.small
  have whole := retraced.whole
  simp only [intMax, tpHdrLen] at size small
  have within := retraced.within
  refine Mbuf.Sized.of_room ⟨?_, ?_⟩ ?_ ?_ ?_ retraced.headed ?_
  · simp only [intMin]
    omega
  · simp only [intMax]
    omega
  · simp only [mhdrLen]
    omega
  · omega
  · simp only [intMax, tpHdrLen]
    omega
  · omega

/-- The condition that a change of the trace data is not one for the worse: no buffer is allocated,
or trace data is not cut by more than the transport header, in a message that is smaller than 2 GiB.
-/
def Retains (order : ByteOrder) (msg : Mbuf) (size : Nat) : Prop :=
  size = 0 ∨ rmrTrLen order msg.tpBuf = size ∨
    0 ≤ msg.allocLen ∧ toInt (rmrTrLen order msg.tpBuf) ≤ size + tpHdrLen

/-- A message that is given the buffer is as large as it says if trace data was not cut by more than
the buffer has room for. -/
theorem Retraced.takeBuffer {old nm : Mbuf} {size : Nat} (retraced : Retraced order old size nm)
    (sized : old.Sized order) (nonneg : 0 ≤ old.allocLen)
    (cut : toInt (rmrTrLen order old.tpBuf) ≤ size + tpHdrLen) :
    Mbuf.Sized order { old with tpBuf := nm.tpBuf, payload := nm.payload } := by
  -- The message keeps its own length, while the buffer is cut by what the trace got shorter.
  have room := retraced.size
  rw [retraced.allocLen] at room
  have small := retraced.small
  have floor := sized.floor
  have same := toUint_of_nonneg sized.inInt nonneg
  generalize toInt (rmrTrLen order old.tpBuf) = trOldLen at cut room
  have within := retraced.within
  refine Mbuf.Sized.of_room sized.inInt ?_ ?_ ?_ retraced.headed ?_
  · change (mhdrLen : Int) ≤ old.allocLen
    omega
  · change old.allocLen ≤ (nm.tpBuf.size : Int)
    omega
  · change (nm.tpBuf.size : Int) ≤ intMax + tpHdrLen
    simp only [tpHdrLen]
    omega
  · change (nm.payload : Int) ≤ old.allocLen + 2147483648
    simp only [intMax, mhdrLen] at small floor
    omega

/-- Setting trace data keeps a message as large as it says, if it is not cut by too much. -/
theorem rmrSetTrace_sized {data : List UInt8} {next : Draft} (sized : draft.msg.Sized order)
    (retains : Retains order draft.msg data.length)
    (traced : rmrSetTrace order left draft data = .ok next) : next.msg.Sized order := by
  -- Trace data of the same length is put in place; for another length there is a new buffer first.
  unfold rmrSetTrace at traced
  split at traced
  · cases traced
    exact sized
  · rename_i some_
    obtain ⟨mid, midIs, traced⟩ := bind_eq_ok.mp traced
    obtain ⟨filled, filledIs, traced⟩ := bind_eq_ok.mp traced
    cases traced
    obtain ⟨-, rfl⟩ := Block.memcpy_inside filledIs
    have midSized : mid.msg.Sized order := by
      unfold Draft.sizeTrace at midIs
      split at midIs
      · cases midIs
        exact sized
      · rename_i differs
        obtain ⟨nm, nmIs, made⟩ := bind_eq_ok.mp midIs
        cases made
        obtain ⟨nonneg, cut⟩ := (retains.resolve_left some_).resolve_left differs
        exact (reallocMsg_retraced sized.headed nmIs).takeBuffer sized nonneg cut
    exact midSized.keep rfl rfl rfl
      (overlay_behind _ _ _ _ (addrs_behind midSized.headed.len0).1)

/-- Whatever an application does with a message keeps it as large as it says, unless it cuts the
trace data by too much. -/
theorem apply_sized {op : MsgOp} {next : Draft} (sized : draft.msg.Sized order)
    (retains : ∀ data, op = .trace data → Retains order draft.msg data.length)
    (applied : draft.apply order left op = .ok next) : next.msg.Sized order := by
  -- One case for each call: those that write the buffer keep its lengths, and only a trace moves
  -- it.
  cases op with
  | mtype value =>
    cases applied
    exact sized.keep rfl rfl rfl rfl
  | subId value =>
    cases applied
    exact sized.keep rfl rfl rfl rfl
  | xact src =>
    cases applied
    refine sized.keep rfl rfl rfl (Block.overlay_slice_outside _ _ _ _ _ (Or.inr ?_))
    have := Nat.min_le_right src.length rmrMaxXid
    simp only [HdrField.offset, tpHdrLen, rmrMaxXid] at this ⊢
    omega
  | meid src =>
    cases applied
    have short := Nat.min_le_right src.length rmrMaxMeid
    refine sized.keep rfl rfl rfl ((Block.overlay_slice_outside _ _ _ _ _ (Or.inr ?_)).trans
      (Block.overlay_slice_outside _ _ _ _ _ (Or.inr ?_)))
    · split
      all_goals
        simp only [HdrField.offset, tpHdrLen, rmrMaxMeid] at short ⊢
        omega
    · simp only [HdrField.offset, tpHdrLen, rmrMaxMeid] at short ⊢
      omega
  | trace data => exact rmrSetTrace_sized sized (retains data rfl) applied
  | payload bytes =>
    obtain ⟨filled, filledIs, made⟩ := bind_eq_ok.mp applied
    cases made
    obtain ⟨-, rfl⟩ := Block.memcpy_inside filledIs
    refine sized.keep rfl rfl rfl (overlay_behind _ _ _ _ ?_)
    have behind := (addrs_behind sized.headed.len0).2.2.2
    rw [← sized.headed.starts] at behind
    exact behind

/-- What `clone_msg` copies of a header is all that the header leads to, and more. -/
theorem cloneCount_head {msg : Mbuf} (headed : Headed order msg.tpBuf msg.payload)
    (short : (msg.payload : Int) ≤ intMax + tpHdrLen) :
    msg.payload ≤ tpHdrLen + toUint ((rmrHdrLen order msg.tpBuf : Int) +
      rmrTrLen order msg.tpBuf + rmrD1Len order msg.tpBuf + rmrD2Len order msg.tpBuf) := by
  -- The header's length counts the other three already, so that what is copied is too much.
  have hdrLen := headed.hdrLen
  have starts := headed.starts
  have len0 := headed.len0
  rw [payloadAddr, data2Addr, data1Addr, traceAddr] at starts
  rw [← Int.natCast_add, ← Int.natCast_add, ← Int.natCast_add, rmrTrLen, rmrD1Len, rmrD2Len]
  generalize hdrGet order msg.tpBuf .len0 = len0 at *
  generalize hdrGet order msg.tpBuf .len1 = len1 at *
  generalize hdrGet order msg.tpBuf .len2 = len2 at *
  generalize hdrGet order msg.tpBuf .len3 = len3 at *
  generalize rmrHdrLen order msg.tpBuf = hdrLen at *
  simp only [intMax, tpHdrLen, mhdrLen] at *
  rw [toUint_natCast (by omega)]
  omega

/-- It is at least the header proper. -/
theorem cloneCount {msg : Mbuf} (headed : Headed order msg.tpBuf msg.payload)
    (short : (msg.payload : Int) ≤ intMax + tpHdrLen) :
    280 ≤ toUint ((rmrHdrLen order msg.tpBuf : Int) + rmrTrLen order msg.tpBuf +
      rmrD1Len order msg.tpBuf + rmrD2Len order msg.tpBuf) := by
  -- The payload starts behind the transport header and the header proper.
  have counted := cloneCount_head headed short
  have behind := (addrs_behind headed.len0).2.2.2
  rw [← headed.starts] at behind
  simp only [tpHdrLen] at counted
  omega

/-- A copy of a message is as large as it says, and its header has the same lengths. -/
theorem cloneMsg_sized (sized : draft.msg.Sized order)
    (cloned : cloneMsg order left draft = .ok nm) :
    nm.msg.Sized order ∧ nm.msg.tpBuf.slice 246 16 = draft.msg.tpBuf.slice 246 16 := by
  unfold cloneMsg at cloned
  obtain ⟨hdr, hdrIs, cloned⟩ := bind_eq_ok.mp cloned
  dsimp only at cloned
  split at cloned
  · cases cloned
  · rename_i whole
    obtain ⟨filled, filledIs, made⟩ := bind_eq_ok.mp cloned
    cases made
    generalize countIs : toUint ((rmrHdrLen order draft.msg.tpBuf : Int) +
      rmrTrLen order draft.msg.tpBuf + rmrD1Len order draft.msg.tpBuf +
      rmrD2Len order draft.msg.tpBuf) = count at hdrIs
    obtain ⟨⟨-, -, room, -, -⟩, rfl⟩ := Block.memcpy_inside hdrIs
    obtain ⟨⟨used, -, -, -, held⟩, rfl⟩ := Block.memcpy_inside filledIs
    -- There is no room for anything where the length is negative.
    have nonneg : 0 ≤ draft.msg.allocLen := by
      have room : (50 : Int) + count ≤ ((draft.msg.allocLen + 50).toNat : Int) := room
      omega
    have bounded := sized.bounded nonneg
    have short : (draft.msg.payload : Int) ≤ intMax + tpHdrLen := by omega
    have counted := cloneCount sized.headed short
    have lens : (Block.overlay (left.malloc draft.allocs (draft.msg.allocLen + tpHdrLen)) tpHdrLen
        draft.msg.tpBuf tpHdrLen count).slice 246 16 = draft.msg.tpBuf.slice 246 16 :=
      Block.overlay_slice_part _ _ _ _ _ 196 16 (by omega)
    have headed := sized.headed.congr lens
    have behind := (addrs_behind headed.len0).2.2.2
    refine ⟨?_, (overlay_behind _ _ _ _ behind).trans lens⟩
    have fresh : ((draft.msg.allocLen + tpHdrLen).toNat : Int) = draft.msg.allocLen + tpHdrLen := by
      simp only [tpHdrLen]
      omega
    have high := sized.inInt.2
    have whole := toUint_of_nonneg sized.inInt nonneg
    exact {
      inInt := sized.inInt
      held := by
        change toUint draft.msg.allocLen ≤ (draft.msg.allocLen + tpHdrLen).toNat
        omega
      floor := sized.floor
      bounded := fun _ => by
        change ((draft.msg.allocLen + tpHdrLen).toNat : Int) ≤ intMax + tpHdrLen
        omega
      headed := (headed.congr (overlay_behind _ _ _ _ behind)).at_ headed.starts.symm
      near := headed.starts ▸ sized.near }

/-- What the header has and what `rmr_payload_size` says are all but the transport header. -/
theorem copyCount (order : ByteOrder) (msg : Mbuf) :
    toUint (rmrPayloadSize order msg + rmrHdrLen order msg.tpBuf) =
      toUint (msg.allocLen - (50 : Nat)) := by
  rw [rmrPayloadSize, toInt_of_toUint, toUint_toInt_add]
  congr 1
  simp only [tpHdrLen]
  omega

/-- They are as many bytes as the message says it has. -/
theorem Mbuf.Sized.copyCount {msg : Mbuf} (sized : msg.Sized order) :
    toUint (rmrPayloadSize order msg + rmrHdrLen order msg.tpBuf) + 50 = toUint msg.allocLen := by
  -- The transport header is 50 bytes, and there are more than these.
  have floor := sized.floor
  simp only [mhdrLen] at floor
  have less : toUint (msg.allocLen - (50 : Nat)) = toUint msg.allocLen - 50 := toUint_sub (by omega)
  rw [Rmr.copyCount, less]
  omega

/-- The length that `ref_tpbuf` puts into a message is the one that it is given. -/
theorem Mbuf.refTpbuf_allocLen {msg mbuf : Mbuf} {alen : Int}
    (made : msg.refTpbuf order alen = .ok mbuf) : mbuf.allocLen = alen := by
  -- Both branches of `ref_tpbuf` set the length before they look at the space that is left.
  obtain ⟨space, -, found⟩ := bind_eq_ok.mp made
  dsimp only at found
  split at found
  · cases found
    rfl
  · cases found
    rfl

/-- How many bytes behind the transport header `realloc_payload` copies. -/
def reallocCount (order : ByteOrder) (msg : Mbuf) (copy : Bool) : Nat :=
  if copy then toUint (rmrPayloadSize order msg + rmrHdrLen order msg.tpBuf)
  else rmrHdrLen order msg.tpBuf

/-- A message in a buffer that `realloc_payload` made: what was copied fits into the length that it
has. -/
structure Rebuilt (order : ByteOrder) (left : Leftover) (draft : Draft) (payloadLen : Int)
    (copy : Bool) (msg : Mbuf) : Prop where
  inInt : InInt msg.allocLen
  nonneg : 0 ≤ msg.allocLen
  allocLen : msg.allocLen =
    toInt (toUint ((rmrHdrLen order draft.msg.tpBuf : Int) + tpHdrLen)) +
      max payloadLen (rmrPayloadSize order draft.msg)
  asked : 0 < payloadLen
  room : (tpHdrLen : Int) + reallocCount order draft.msg copy ≤ msg.allocLen
  tpBuf : msg.tpBuf =
    (hdrSet order (left.malloc draft.allocs msg.allocLen) .len0 mhdrLen).overlay tpHdrLen
      draft.msg.tpBuf tpHdrLen (reallocCount order draft.msg copy)
  payload : msg.payload = payloadAddr order msg.tpBuf

/-- What `realloc_payload` makes. -/
theorem reallocPayload_made {payloadLen : Int} {copy clone : Bool}
    (made : reallocPayload order left draft payloadLen copy clone = .ok (.made nm)) :
    Rebuilt order left draft payloadLen copy nm.msg := by
  unfold reallocPayload at made
  dsimp only at made
  split at made
  · cases made
  split at made
  · cases made
  rename_i positive larger
  obtain ⟨mlen, mlenIs, made⟩ := bind_eq_ok.mp made
  obtain ⟨inside, mlenSum⟩ := addInt_eq_ok mlenIs
  split at made
  · cases made
  split at made
  · cases made
  rename_i nonneg whole
  obtain ⟨filled, filledIs, made⟩ := bind_eq_ok.mp made
  obtain ⟨ref, refIs, made⟩ := bind_eq_ok.mp made
  cases made
  obtain ⟨refBuf, refPayload, -⟩ := Mbuf.refTpbuf_found refIs
  have refAlloc := Mbuf.refTpbuf_allocLen refIs
  have target : (reallocTarget draft.msg filled clone).tpBuf = filled := by
    cases clone <;> rfl
  rw [target] at refBuf refPayload
  change Block.memcpy _ _ _ _ (reallocCount order draft.msg copy : Int) = _ at filledIs
  obtain ⟨⟨-, -, room, -, -⟩, filledBuf⟩ := Block.memcpy_inside filledIs
  have room : (tpHdrLen : Int) + reallocCount order draft.msg copy ≤ mlen := by
    have room : (tpHdrLen : Int) + reallocCount order draft.msg copy ≤ (mlen.toNat : Int) := room
    omega
  -- Whether the payload was copied makes no difference to the buffer.
  have holds : ∀ msg : Mbuf, msg.tpBuf = ref.tpBuf → msg.payload = ref.payload →
      msg.allocLen = ref.allocLen → Rebuilt order left draft payloadLen copy msg := by
    intro msg buf payload allocLen
    have allocLen := allocLen.trans refAlloc
    have buf := buf.trans refBuf
    exact {
      inInt := by rw [allocLen, mlenSum]; exact inside
      nonneg := by omega
      allocLen := by rw [allocLen, mlenSum]
      asked := by omega
      room := by rw [allocLen]; exact room
      tpBuf := by rw [buf, filledBuf, allocLen]; rfl
      payload := by rw [payload, refPayload, buf] }
  clear made mlenIs
  cases copy <;> exact holds _ rfl rfl rfl

/-- A buffer that `realloc_payload` makes is as large as it says. -/
theorem reallocPayload_sized {payloadLen : Int} {copy clone : Bool} (sized : draft.msg.Sized order)
    (made : reallocPayload order left draft payloadLen copy clone = .ok (.made nm)) :
    nm.msg.Sized order := by
  have rebuilt := reallocPayload_made made
  have nonneg := rebuilt.nonneg
  have room := rebuilt.room
  have high := rebuilt.inInt.2
  have header := sized.headed.len0
  have floor := sized.floor
  have near := sized.near
  have hdrLen := sized.headed.hdrLen
  have copied := sized.copyCount
  have behind := (addrs_behind header).2.2.2
  rw [← sized.headed.starts] at behind
  -- The whole header is copied, and what is copied fits.
  have large : 230 ≤ reallocCount order draft.msg copy ∧ mhdrLen ≤ nm.msg.allocLen ∧
      (draft.msg.payload : Int) ≤ nm.msg.allocLen + 2147483648 := by
    rw [reallocCount] at room ⊢
    simp only [mhdrLen, tpHdrLen] at floor hdrLen room ⊢
    cases copy with
    | true =>
      rw [if_pos rfl] at room ⊢
      omega
    | false =>
      rw [if_neg Bool.false_ne_true] at room ⊢
      omega
  obtain ⟨most, floor, near⟩ := large
  have lens : nm.msg.tpBuf.slice 246 16 = draft.msg.tpBuf.slice 246 16 := by
    rw [rebuilt.tpBuf]
    exact Block.overlay_slice_part _ _ _ _ _ 196 16 (by omega)
  have headed := sized.headed.congr lens
  have payload : nm.msg.payload = draft.msg.payload := rebuilt.payload.trans headed.starts.symm
  have size : (nm.msg.tpBuf.size : Int) = nm.msg.allocLen := by
    rw [rebuilt.tpBuf]
    change ((nm.msg.allocLen.toNat : Nat) : Int) = _
    omega
  refine Mbuf.Sized.of_room rebuilt.inInt floor (by omega) ?_ (headed.at_ payload) ?_
  · rw [size]
    simp only [tpHdrLen]
    omega
  · rw [payload]
    exact near

end

end Rmr
