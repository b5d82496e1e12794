import Rmr.Proofs.Message.Twin
import Rmr.Proofs.Message.NoAlloc

/-! What comes back from sending a message: a new message after a success, and otherwise one that
says the same as the message did. -/

namespace Rmr

/-- A message that says the same as another one: the same lengths, trace data, data and payload. -/
structure Mbuf.Kin (other msg : Mbuf) : Prop where
  mtype : other.mtype = msg.mtype
  subId : other.subId = msg.subId
  len : other.len = msg.len
  allocLen : other.allocLen = msg.allocLen
  payload : other.payload = msg.payload
  lens : other.tpBuf.slice 246 16 = msg.tpBuf.slice 246 16
  /-- All that is used behind the header proper. -/
  body : ∀ i, 330 ≤ i → i < msg.payload ∨ (i : Int) < msg.payload + msg.len →
    other.tpBuf.byte i = msg.tpBuf.byte i

section
variable {order : ByteOrder} {conf : SendConf} {left : Leftover} {draft nm : Draft}
  {msg other third : Mbuf}

/-- A message says the same as itself. -/
theorem Mbuf.Kin.refl (msg : Mbuf) : msg.Kin msg := ⟨rfl, rfl, rfl, rfl, rfl, rfl, fun _ _ _ => rfl⟩

/-- The state, the flags and the descriptor say nothing of the contents. -/
theorem Mbuf.Kin.keep {next : Mbuf} (kin : other.Kin msg) (mtype : next.mtype = other.mtype)
    (subId : next.subId = other.subId) (len : next.len = other.len)
    (allocLen : next.allocLen = other.allocLen) (payload : next.payload = other.payload)
    (tpBuf : next.tpBuf = other.tpBuf) : next.Kin msg where
  mtype := mtype.trans kin.mtype
  subId := subId.trans kin.subId
  len := len.trans kin.len
  allocLen := allocLen.trans kin.allocLen
  payload := payload.trans kin.payload
  lens := tpBuf ▸ kin.lens
  body := tpBuf ▸ kin.body

/-- What says the same as a message that says the same as a third one says the same as that. -/
theorem Mbuf.Kin.trans (second : third.Kin other) (first : other.Kin msg) : third.Kin msg where
  -- The body of the third is that of the second as far as the first one's goes.
  mtype := second.mtype.trans first.mtype
  subId := second.subId.trans first.subId
  len := second.len.trans first.len
  allocLen := second.allocLen.trans first.allocLen
  payload := second.payload.trans first.payload
  lens := second.lens.trans first.lens
  body := by
    intro i behind within
    have within' : i < other.payload ∨ (i : Int) < other.payload + other.len := by
      rw [first.payload, first.len]
      exact within
    exact (second.body i behind within').trans (first.body i behind within)

/-- Its header leads to its payload if that of the message does. -/
theorem Mbuf.Kin.framed (kin : other.Kin msg) (framed : msg.Framed order) : other.Framed order :=
  framed.keep kin.allocLen kin.payload kin.lens

/-- The payload in use is the same. -/
theorem Mbuf.Kin.payloadBytes (kin : other.Kin msg) (behind : 330 ≤ msg.payload) :
    other.payloadBytes = msg.payloadBytes := by
  -- Each byte of it lies behind the header proper.
  rw [Mbuf.payloadBytes, Mbuf.payloadBytes, kin.payload, kin.len]
  apply Block.slice_congr
  intro i within
  exact kin.body (msg.payload + i) (by omega) (.inr (by omega))

/-- There is as much trace data. -/
theorem Mbuf.Kin.trLen (kin : other.Kin msg) (order : ByteOrder) :
    rmrTrLen order other.tpBuf = rmrTrLen order msg.tpBuf :=
  (lens_congr order kin.lens).2.1

/-- The trace data is the same. -/
theorem Mbuf.Kin.traceBytes (kin : other.Kin msg) (framed : msg.Framed order) :
    other.traceBytes order = msg.traceBytes order := by
  -- The trace lies between header and payload, in the part of the body that is the same.
  obtain ⟨len0, len1, -, -⟩ := lens_congr order kin.lens
  have at_ : traceAddr order other.tpBuf = traceAddr order msg.tpBuf := by
    rw [traceAddr, traceAddr, len0]
  have behind := (addrs_behind framed.headed.len0).1
  have starts := framed.headed.starts
  rw [payloadAddr, data2Addr, data1Addr] at starts
  rw [Mbuf.traceBytes, Mbuf.traceBytes, at_, kin.trLen order]
  apply Block.slice_congr
  intro i within
  rw [rmrTrLen] at within
  exact kin.body _ (by omega) (.inl (by omega))

/-- There is as much room for the payload. -/
theorem Mbuf.Kin.payloadSize (kin : other.Kin msg) (order : ByteOrder) :
    rmrPayloadSize order other = rmrPayloadSize order msg := by
  rw [rmrPayloadSize, rmrPayloadSize, kin.allocLen, rmrHdrLen_congr order kin.lens]

/-- The room for the payload is all behind its start. -/
theorem rmrPayloadSize_behind (framed : msg.Framed order) :
    rmrPayloadSize order msg = toInt (msg.allocLen - msg.payload) := by
  rw [rmrPayloadSize, toInt_of_toUint, framed.headed.hdrLen]
  congr 1
  omega

/-- A difference read as an `int` is the same from what is read as one. -/
theorem toInt_toInt_sub (n less : Int) : toInt (toInt n - less) = toInt (n - less) := by
  rw [sub_eq_add_neg, toInt_toInt_add, ← sub_eq_add_neg]

/-- Turning the call flag off changes nothing of this. -/
theorem unmarkCall_kin (order : ByteOrder) (msg : Mbuf) : (msg.unmarkCall order).Kin msg where
  mtype := rfl
  subId := rfl
  len := rfl
  allocLen := rfl
  payload := rfl
  lens := Block.put32_slice_outside _ _ _ _ (by decide)
  body := by
    -- The flags are part of the header proper.
    intro i behind _
    have apart : HdrField.flags.offset + 4 ≤ i := by
      simp only [HdrField.offset, tpHdrLen]
      omega
    have same : (msg.unmarkCall order).tpBuf.slice i 1 = msg.tpBuf.slice i 1 :=
      Block.put32_slice_outside _ _ _ _ (.inr apart)
    exact Block.byte_of_slice (i := 0) same Nat.one_pos

/-- Bytes behind the header proper are as they were when the message is put into shape for the send.
-/
theorem prepare_byte (conf : SendConf) (msg : Mbuf) (len : Nat) {i : Nat} (behind : 330 ≤ i) :
    (insertMlen conf.order len (prepare conf msg).tpBuf).byte i = msg.tpBuf.byte i := by
  -- The transport header, and what is put into the header, lie in front of byte 330.
  have front : (insertMlen conf.order len (prepare conf msg).tpBuf).slice i 1 =
      (prepare conf msg).tpBuf.slice i 1 :=
    Block.overlay_slice_outside _ _ _ _ _ (.inr (by omega))
  have apart : (prepare conf msg).tpBuf.slice i 1 = msg.tpBuf.slice i 1 :=
    prepare_apart (.inr (by omega)) (.inr (by omega)) (.inr (by omega)) (.inr (by omega))
      (.inr (by omega))
  exact Block.byte_of_slice (i := 0) (front.trans apart) Nat.one_pos

/-- A message that was not sent says the same as before. -/
theorem unsentMsg_kin (conf : SendConf) (msg : Mbuf) (bytes : List UInt8) (state : MsgState) :
    (unsentMsg conf msg bytes state).Kin msg where
  -- Only words that the send sets were written, none of which is in the lengths or the body.
  mtype := rfl
  subId := rfl
  len := rfl
  allocLen := rfl
  payload := rfl
  lens := (Block.overlay_slice_outside _ _ _ _ _ (Or.inr (by decide))).trans
    (prepare_lens_slice msg)
  body := fun _ behind _ => prepare_byte conf msg bytes.length behind

/-- A clone says the same as the message. -/
theorem cloneMsg_kin (framed : draft.msg.Framed order)
    (cloned : cloneMsg order left draft = .ok nm) : nm.msg.Kin draft.msg := by
  have clonable := (cloneMsg_iff framed).mp ⟨nm, cloned⟩
  have lens := (cloneMsg_twin framed cloned).lens framed
  have counted : draft.msg.payload ≤ tpHdrLen + draft.msg.cloneCount order :=
    cloneCount_head framed.headed framed.near
  have nonneg := clonable.len
  rw [cloneMsg_made framed clonable] at cloned
  obtain rfl := Except.ok.inj cloned
  refine ⟨rfl, rfl, rfl, rfl, rfl, lens, ?_⟩
  intro i behind within
  have fifty : tpHdrLen = 50 := rfl
  simp only [Draft.cloneBuf, Block.overlay]
  -- The headers are copied as far as the payload, and then the payload.
  split
  · congr 1
    omega
  · rw [if_pos (by omega)]
    congr 1
    omega

/-- What comes back from `send_msg`: a message that replaces one that was sent, or one that says the
same as before. -/
theorem trySend_back {result : SendResult} {next : Draft}
    (tried : trySend conf left draft result = .ok (some next)) :
    result = .ok ∧ (∃ bytes, sendMsg conf draft.msg = .ok bytes ∧
        allocZcmsg conf left draft.allocs (some (unsentMsg conf draft.msg bytes draft.msg.state)) 0
          .ok (toInt (rmrTrLen conf.order
            (unsentMsg conf draft.msg bytes draft.msg.state).tpBuf)) = .ok next) ∨
      result ≠ .ok ∧ next.msg.state ≠ .ok ∧ next.msg.Kin draft.msg := by
  -- The three outcomes of `send_msg`; nothing comes back if the buffer is not to be replaced.
  obtain ⟨bytes, bytesIs,
    ⟨-, -, none_⟩ | ⟨went, -, back, backIs, made⟩ | ⟨failed, state, bad, backIs⟩⟩ :=
    trySend_cases tried
  · cases none_
  · obtain rfl := Option.some.inj backIs
    exact .inl ⟨went, bytes, bytesIs, made⟩
  · obtain rfl := Option.some.inj backIs
    exact .inr ⟨failed, bad, unsentMsg_kin conf draft.msg bytes state⟩

end

section
variable {conf : SendConf} {left : Leftover} {draft : Draft}

/-- A message replaces one that says the same as a message that was sent. -/
def Replaces (conf : SendConf) (left : Leftover) (msg : Mbuf) (next : Draft) : Prop :=
  ∃ (sent : Mbuf) (allocs : Nat), sent.Kin msg ∧ 0 ≤ sent.allocLen ∧
    allocZcmsg conf left allocs
      (some sent) 0 .ok (toInt (rmrTrLen conf.order sent.tpBuf)) = .ok next

/-- A message that went out has a length that is not negative. -/
theorem sendMsg_nonneg {msg : Mbuf} {bytes : List UInt8} (sent : sendMsg conf msg = .ok bytes) :
    0 ≤ msg.allocLen := (sendMsg_iff.mp ⟨bytes, sent⟩).allocLen

/-- What comes back from `send_msg` replaces the message after a success, and else says the same. -/
theorem trySend_replaces {result : SendResult} {next : Draft}
    (tried : trySend conf left draft result = .ok (some next)) :
    result = .ok ∧ Replaces conf left draft.msg next ∨
      result ≠ .ok ∧ next.msg.state ≠ .ok ∧ next.msg.Kin draft.msg := by
  -- After a success the next message is allocated from the one that was just sent.
  cases trySend_back tried with
  | inl went =>
    obtain ⟨ok, bytes, bytesIs, made⟩ := went
    have kin := unsentMsg_kin conf draft.msg bytes draft.msg.state
    have nonneg : 0 ≤ (unsentMsg conf draft.msg bytes draft.msg.state).allocLen := by
      rw [kin.allocLen]
      exact sendMsg_nonneg bytesIs
    exact .inl ⟨ok, _, _, kin, nonneg, made⟩
  | inr failed => exact .inr failed

/-- It replaces what says the same, too. -/
theorem Replaces.kin {msg other : Mbuf} {next : Draft} (replaces : Replaces conf left other next)
    (kin : other.Kin msg) : Replaces conf left msg next := by
  obtain ⟨sent, allocs, same, nonneg, made⟩ := replaces
  exact ⟨sent, allocs, same.trans kin, nonneg, made⟩

/-- What comes back from sends to one group after the other: a message that replaces the one that
was sent to the last of them, or one that says the same as the message. -/
theorem fanOut_back {groups : List (Option SendResult)} {okSends : Bool} {next : Draft}
    {went : Bool}
    (framed : draft.msg.Framed conf.order)
    (tried : fanOut conf left draft okSends groups = .ok (some next, went)) :
    groups.getLast? = some (some .ok) ∧ Replaces conf left draft.msg next ∨
      groups.getLast? ≠ some (some .ok) ∧ next.msg.Kin draft.msg := by
  fun_induction fanOut conf left draft okSends groups with
  | case1 draft okSends =>
    cases tried
    exact .inr ⟨by simp, Mbuf.Kin.refl _⟩
  | case2 draft okSends groups ih =>
    have back := ih (framed.keep rfl rfl rfl) tried
    have same : ∀ {other : Mbuf} {state : MsgState},
        other.Kin { draft.msg with state := state } → other.Kin draft.msg :=
      fun kin => kin.trans ((Mbuf.Kin.refl _).keep rfl rfl rfl rfl rfl rfl)
    cases groups with
    | nil =>
      -- There is no group with an endpoint behind this one.
      cases tried
      exact .inr ⟨by simp, (Mbuf.Kin.refl _).keep rfl rfl rfl rfl rfl rfl⟩
    | cons group groups =>
      rw [List.getLast?_cons_cons]
      cases back with
      | inl last =>
        exact .inl ⟨last.1, last.2.kin ((Mbuf.Kin.refl _).keep rfl rfl rfl rfl rfl rfl)⟩
      | inr other => exact .inr ⟨other.1, same other.2⟩
  | case3 draft okSends result =>
    obtain ⟨last, lastIs, made⟩ := bind_eq_ok.mp tried
    cases made
    cases trySend_replaces lastIs with
    | inl ok => exact .inl ⟨by simp [ok.1], ok.2⟩
    | inr failed => exact .inr ⟨by simpa using failed.1, failed.2.2⟩
  | case4 draft okSends result groups more unsent done =>
    obtain ⟨clone, cloneIs, tried⟩ := bind_eq_ok.mp tried
    obtain ⟨first, -, tried⟩ := bind_eq_ok.mp tried
    have kin := cloneMsg_kin framed cloneIs
    have lastIs : (some result :: groups).getLast? = groups.getLast? := by
      cases groups with
      | nil => exact absurd rfl more
      | cons group groups => rfl
    rw [lastIs]
    cases first with
    | some msg =>
      exact (unsent clone (kin.framed framed) tried).imp (And.imp_right fun back => back.kin kin)
        (And.imp_right fun back => back.trans kin)
    | none =>
      have kin' : ({ clone.msg with state := .ok } : Mbuf).Kin draft.msg :=
        kin.keep rfl rfl rfl rfl rfl rfl
      exact (done clone (kin'.framed framed) tried).imp (And.imp_right fun back => back.kin kin')
        (And.imp_right fun back => back.trans kin')

/-- The same of `mtosend_msg`. -/
theorem mtosendMsg_back {groups : List (Option SendResult)} {next : Draft}
    (framed : draft.msg.Framed conf.order)
    (tried : mtosendMsg conf left draft groups = .ok (some next)) :
    groups.getLast? = some (some .ok) ∧
        (∃ back : Draft, Replaces conf left draft.msg back ∧ ∃ state, next =
          { back with msg := { back.msg with noAlloc := false, state := state } }) ∨
      groups.getLast? ≠ some (some .ok) ∧ next.msg.Kin draft.msg := by
  -- Without groups nothing is sent; else what comes back is that of the last send.
  unfold mtosendMsg at tried
  split at tried
  · rename_i unrouted
    cases tried
    exact .inr ⟨by simp [unrouted], (Mbuf.Kin.refl _).keep rfl rfl rfl rfl rfl rfl⟩
  · obtain ⟨⟨last, okSends⟩, lastIs, made⟩ := bind_eq_ok.mp tried
    obtain ⟨back, backIs, nextIs⟩ := Option.map_eq_some_iff.mp (Except.ok.inj made)
    dsimp only at backIs nextIs
    subst backIs nextIs
    cases fanOut_back framed lastIs with
    | inl replaced => exact .inl ⟨replaced.1, back, replaced.2, _, rfl⟩
    | inr same => exact .inr ⟨same.1, same.2.keep rfl rfl rfl rfl rfl rfl⟩

end

/-- The header of a message that is composed leads to its payload. -/
theorem compose_framed {conf : SendConf} {left : Leftover} {source : Source} {ops : List MsgOp}
    {draft : Draft} (sane : conf.Sane) (composed : compose conf left source ops = .ok draft) :
    draft.msg.Framed conf.order := by
  -- By induction on what is done to the message: it starts framed, and each operation keeps that.
  rw [compose_eq] at composed
  obtain ⟨first, allocated, applied⟩ := bind_eq_ok.mp composed
  exact foldlM_invariant (fun draft => draft.msg.Framed conf.order)
    (fun framed applied => (@apply_sourced _ conf _ _ _ _ framed applied).1)
    (allocZcmsg_sourced sane allocated).1 applied

/-- A context without trace data asks for no more than there is. -/
theorem plain_sane : SendConf.plain.Sane := ⟨⟨by decide, rfl⟩, by decide⟩

end Rmr
