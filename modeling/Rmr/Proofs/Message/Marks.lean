import Rmr.Message.Api
import Rmr.Proofs.Message.Capacity
import Rmr.Proofs.Receive.Vetting

/-! What each function does with the fields of a message that no header has: the flags that decide
how it is sent, and the descriptor that it can be returned on. -/

namespace Rmr

/-- The fields of a message that no header has. -/
structure Marks where
  noAlloc : Bool
  addSrc : Bool
  rtsFd : Int

/-- Those of a message. -/
def Mbuf.marks (msg : Mbuf) : Marks := ⟨msg.noAlloc, msg.addSrc, msg.rtsFd⟩

section
variable {order : ByteOrder} {conf : SendConf} {left : Leftover} {draft nm next : Draft}

/-- `ref_tpbuf` takes nothing but what the header has. -/
theorem Mbuf.refTpbuf_marks {msg mbuf : Mbuf} {alen : Int}
    (made : msg.refTpbuf order alen = .ok mbuf) : mbuf.marks = msg.marks := by
  obtain ⟨space, -, found⟩ := bind_eq_ok.mp made
  dsimp only at found
  split at found <;> cases found <;> rfl

/-- A message to send has no flags, and was not received. -/
theorem allocZcmsg_marks {allocs : Nat} {old : Option Mbuf} {size trlo : Int} {state : MsgState}
    (allocated : allocZcmsg conf left allocs old size state trlo = .ok next) :
    next.msg.marks = ⟨false, false, -1⟩ := by
  obtain ⟨tpBuf, mlen, is, -⟩ := allocZcmsg_made allocated
  rw [is]
  rfl

/-- A clone has the flags of the message, but the descriptor of memory that was cleared. -/
theorem cloneMsg_marks (cloned : cloneMsg order left draft = .ok nm) :
    nm.msg.marks = ⟨draft.msg.noAlloc, draft.msg.addSrc, 0⟩ := by
  -- The header of the message is copied into a new buffer, with the flags as they are.
  obtain ⟨hdr, -, cloned⟩ := bind_eq_ok.mp cloned
  dsimp only at cloned
  split at cloned
  · cases cloned
  · obtain ⟨filled, -, made⟩ := bind_eq_ok.mp cloned
    cases made
    rfl

/-- So has a copy with room for other trace data. -/
theorem reallocMsg_marks {trLen : Int} (made : reallocMsg order left draft trLen = .ok nm) :
    nm.msg.marks = ⟨draft.msg.noAlloc, draft.msg.addSrc, 0⟩ := by
  obtain ⟨-, -, -, -, -, -, -, -, rfl⟩ := reallocMsg_steps made
  rfl

/-- Setting trace data takes only the buffer of such a copy. -/
theorem rmrSetTrace_marks {data : List UInt8}
    (traced : rmrSetTrace order left draft data = .ok next) : next.msg.marks = draft.msg.marks := by
  -- Both branches of the trace's resize change the buffer, and no flag.
  unfold rmrSetTrace at traced
  split at traced
  · cases traced
    rfl
  · obtain ⟨sized, sizedIs, traced⟩ := bind_eq_ok.mp traced
    obtain ⟨filled, -, traced⟩ := bind_eq_ok.mp traced
    cases traced
    unfold Draft.sizeTrace at sizedIs
    split at sizedIs
    · cases sizedIs
      rfl
    · obtain ⟨nm, -, made⟩ := bind_eq_ok.mp sizedIs
      cases made
      rfl

/-- So does nothing else that an application does with a message. -/
theorem apply_marks {op : MsgOp} (applied : draft.apply order left op = .ok next) :
    next.msg.marks = draft.msg.marks := by
  -- One case for each call: all write the buffer or the fields of the message, and no flag.
  cases op with
  | mtype value =>
    cases applied
    rfl
  | subId value =>
    cases applied
    rfl
  | xact src =>
    cases applied
    rfl
  | meid src =>
    cases applied
    rfl
  | trace data => exact rmrSetTrace_marks applied
  | payload bytes =>
    obtain ⟨filled, -, made⟩ := bind_eq_ok.mp applied
    cases made
    rfl

/-- A message that `realloc_payload` clones has no flags any more, but its descriptor. -/
theorem reallocPayload_marks {payloadLen : Int} {copy clone : Bool}
    (made : reallocPayload order left draft payloadLen copy clone = .ok (.made nm)) :
    nm.msg.marks = if clone then ⟨false, false, draft.msg.rtsFd⟩ else draft.msg.marks := by
  unfold reallocPayload at made
  dsimp only at made
  split at made
  · cases made
  split at made
  · cases made
  obtain ⟨mlen, -, made⟩ := bind_eq_ok.mp made
  split at made
  · cases made
  split at made
  · cases made
  obtain ⟨filled, -, made⟩ := bind_eq_ok.mp made
  obtain ⟨ref, refIs, made⟩ := bind_eq_ok.mp made
  cases made
  have marks := Mbuf.refTpbuf_marks refIs
  -- Whether the payload was copied makes no difference to the flags.
  have same : ∀ msg : Mbuf, msg.marks = ref.marks →
      msg.marks = if clone then ⟨false, false, draft.msg.rtsFd⟩ else draft.msg.marks := by
    intro msg is
    rw [is, marks]
    cases clone <;> rfl
  cases copy <;> exact same _ rfl

/-- The message that `send_msg` leaves when the send did not go well. -/
def unsentMsg (conf : SendConf) (msg : Mbuf) (bytes : List UInt8) (state : MsgState) : Mbuf :=
  let msg := prepare conf msg
  { msg with tpBuf := insertMlen conf.order bytes.length msg.tpBuf, state := state }

/-- What `send_msg` comes to: nothing, if there is to be no next message; a message to send next; or
the message that was not sent. -/
theorem trySend_cases {result : SendResult} {sent : Option Draft}
    (tried : trySend conf left draft result = .ok sent) :
    ∃ bytes, sendMsg conf draft.msg = .ok bytes ∧
      (result = .ok ∧ draft.msg.noAlloc = true ∧ sent = none ∨
        result = .ok ∧ draft.msg.noAlloc = false ∧
          (∃ next, sent = some next ∧
            allocZcmsg conf left draft.allocs
              (some (unsentMsg conf draft.msg bytes draft.msg.state))
              0 .ok (toInt (rmrTrLen conf.order
                (unsentMsg conf draft.msg bytes draft.msg.state).tpBuf)) = .ok next) ∨
        result ≠ .ok ∧ ∃ state, state ≠ .ok ∧
          sent = some ⟨unsentMsg conf draft.msg bytes state, draft.allocs⟩) := by
  -- A send that went well is told apart by the flag, all others give the unsent message back.
  obtain ⟨bytes, bytesIs, tried⟩ := bind_eq_ok.mp tried
  refine ⟨bytes, bytesIs, ?_⟩
  cases result with
  | ok =>
    dsimp only at tried
    split at tried
    · rename_i flagged
      cases tried
      exact .inl ⟨rfl, flagged, rfl⟩
    · rename_i unflagged
      obtain ⟨next, nextIs, made⟩ := bind_eq_ok.mp tried
      cases made
      exact .inr (.inl ⟨rfl, Bool.eq_false_iff.mpr unflagged, next, rfl, nextIs⟩)
  | blocked =>
    cases tried
    exact .inr (.inr ⟨nofun, .retry, nofun, rfl⟩)
  | failed =>
    cases tried
    exact .inr (.inr ⟨nofun, .sendFailed, nofun, rfl⟩)

/-- What `rmr_rts_msg` does where there is an endpoint: it holds the source, sends, and puts the
source into what that leaves. -/
theorem rmrRtsMsg_steps {result : SendResult} {back : Option Draft}
    (tried : rmrRtsMsg conf left draft (some result) = .ok back) :
    ∃ holdSrc holdIp sent,
      (draft.msg.unmarkCall conf.order).tpBuf.strdup HdrField.src.offset = .ok holdSrc ∧
      (draft.msg.unmarkCall conf.order).tpBuf.strdup HdrField.srcip.offset = .ok holdIp ∧
      trySend conf left ⟨draft.msg.rtsMsg conf, draft.allocs⟩ result = .ok sent ∧
      back = sent.map fun draft => draft.restoreSource holdSrc holdIp := by
  obtain ⟨holdSrc, holdSrcIs, tried⟩ := bind_eq_ok.mp tried
  obtain ⟨holdIp, holdIpIs, tried⟩ := bind_eq_ok.mp tried
  obtain ⟨sent, sentIs, made⟩ := bind_eq_ok.mp tried
  cases made
  exact ⟨holdSrc, holdIp, sent, holdSrcIs, holdIpIs, sentIs, rfl⟩

end

end Rmr
