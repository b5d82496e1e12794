import Rmr.Proofs.Message.Kin

/-! What a clone of a message says, and when there is room for it. -/

namespace Rmr

/-- A clone of a message: header, trace data, data 1 and payload are the same. -/
structure Mbuf.Cloned (order : ByteOrder) (msg nm : Mbuf) : Prop where
  header : nm.tpBuf.slice tpHdrLen mhdrLen = msg.tpBuf.slice tpHdrLen mhdrLen
  trace : nm.traceBytes order = msg.traceBytes order
  data1 : nm.data1Bytes order = msg.data1Bytes order
  payload : nm.payloadBytes = msg.payloadBytes
  mtype : nm.mtype = msg.mtype
  subId : nm.subId = msg.subId
  len : nm.len = msg.len
  room : rmrPayloadSize order nm = rmrPayloadSize order msg

section
variable {order : ByteOrder} {left : Leftover} {draft nm : Draft} {msg other : Mbuf}

/-- Data 1 of a message that says the same is the same. -/
theorem Mbuf.Kin.data1Bytes (kin : other.Kin msg) (framed : msg.Framed order) :
    other.data1Bytes order = msg.data1Bytes order := by
  -- Data 1 lies between header and payload, in the part of the body that is the same.
  obtain ⟨d1Len, data1⟩ := data1_congr order kin.lens
  have behind := (addrs_behind framed.headed.len0).2.1
  have starts := framed.headed.starts
  rw [payloadAddr, data2Addr] at starts
  rw [Mbuf.data1Bytes, Mbuf.data1Bytes, data1, d1Len]
  apply Block.slice_congr
  intro i within
  rw [rmrD1Len] at within
  exact kin.body _ (by omega) (.inl (by omega))

/-- What `clone_msg` makes is a clone. -/
theorem cloneMsg_cloned (framed : draft.msg.Framed order)
    (made : cloneMsg order left draft = .ok nm) : draft.msg.Cloned order nm.msg := by
  have kin := cloneMsg_kin framed made
  have twin := cloneMsg_twin framed made
  have behind := framed.behind
  exact {
    header := by
      -- All of the header proper lies in front of the payload.
      apply Block.slice_congr
      intro i within
      simp only [mhdrLen, tpHdrLen] at within ⊢
      exact twin.bytes _ (by simp only [tpHdrLen]; omega) (.inl (by omega))
    trace := kin.traceBytes framed
    data1 := kin.data1Bytes framed
    payload := kin.payloadBytes behind
    mtype := kin.mtype
    subId := kin.subId
    len := kin.len
    room := kin.payloadSize order }

/-- A message is cloned, within the bounds of both buffers, exactly if they have room for what is
copied: for a header in which trace data, data 1 and data 2 are counted twice, and for the payload.
-/
theorem cloneMsg_cloned_iff (framed : draft.msg.Framed order) :
    (∃ nm, cloneMsg order left draft = .ok nm ∧ draft.msg.Cloned order nm.msg) ↔
      draft.msg.Clonable order := by
  -- A clone that was made is faithful, so that it is enough to say when one is made.
  have clones : (∃ nm, cloneMsg order left draft = .ok nm) ↔ draft.msg.Clonable order :=
    cloneMsg_iff framed
  rw [← clones]
  constructor
  · intro clones
    obtain ⟨nm, made, -⟩ := clones
    exact ⟨nm, made⟩
  · intro clones
    obtain ⟨nm, made⟩ := clones
    exact ⟨nm, made, cloneMsg_cloned framed made⟩

end

/-- A message with twenty bytes of payload is cloned. -/
theorem cloneMsg_cloned_twenty :
    Yields (fun draft => ∃ nm, cloneMsg .little (fun _ _ => 0) draft = .ok nm ∧
        draft.msg.Cloned .little nm.msg)
      (compose SendConf.plain (fun _ _ => 0) (.alloc 20) [.payload [1, 2]]) := by
  -- The room is decided for the message composed; the theorem then gives the clone.
  have room : Yields (fun draft => tpHdrLen + draft.msg.cloneCount .little ≤ draft.msg.tpBuf.size ∧
        (draft.msg.cloneCount .little : Int) ≤ draft.msg.allocLen ∧ 0 ≤ draft.msg.len ∧
        (draft.msg.payload : Int) + draft.msg.len ≤ draft.msg.tpBuf.size ∧
        (draft.msg.payload : Int) + draft.msg.len ≤ draft.msg.allocLen + tpHdrLen)
      (compose SendConf.plain (fun _ _ => 0) (.alloc 20) [.payload [1, 2]]) := by
    decide +kernel
  obtain ⟨draft, composed, hdrHeld, hdrRoom, len, payloadHeld, payloadRoom⟩ := room.exists
  exact Yields.intro composed ((cloneMsg_cloned_iff (compose_framed plain_sane composed)).mpr
    ⟨hdrHeld, hdrRoom, len, payloadHeld, payloadRoom⟩)

/-- A message with less payload than data 1 is not: three bytes behind its buffer are read. -/
theorem cloneMsg_outside :
    Yields (fun draft => draft.msg.len ≤ rmrPayloadSize .little draft.msg ∧
        draft.msg.tpBuf.size = 335 ∧ tpHdrLen + draft.msg.cloneCount .little = 338 ∧
        ¬ ∃ nm, cloneMsg .little (fun _ _ => 0) draft = .ok nm ∧ draft.msg.Cloned .little nm.msg)
      (rmrAllocMsg SendConf.plain (fun _ _ => 0) 1) := by
  -- The count is evaluated: it is 338, while the buffer ends at 335.
  have fails : Yields (fun draft => draft.msg.len ≤ rmrPayloadSize .little draft.msg ∧
        draft.msg.tpBuf.size = 335 ∧ tpHdrLen + draft.msg.cloneCount .little = 338 ∧
        (cloneMsg .little (fun _ _ => 0) draft).toOption.isNone = true)
      (rmrAllocMsg SendConf.plain (fun _ _ => 0) 1) := by
    decide +kernel
  obtain ⟨draft, allocated, len, size, count, none_⟩ := fails.exists
  refine Yields.intro allocated ⟨len, size, count, fun clones => ?_⟩
  obtain ⟨nm, made, -⟩ := clones
  rw [made] at none_
  cases none_

end Rmr
