import Rmr.Proofs.Message.NoAlloc
import Rmr.Proofs.Message.Source

/-! The source in the frames that an application sends is its own, unless it sends the answer of a
call or a clone of a message that it received. -/

namespace Rmr

/-- A frame has both source fields, and they say that it comes from this process. -/
structure Stamped (conf : SendConf) (frame : List UInt8) : Prop where
  whole : tpHdrLen + mhdrLen ≤ frame.length
  src : (frame.drop HdrField.src.offset).take (ztString conf.myName).length =
    ztString conf.myName
  srcip : (frame.drop HdrField.srcip.offset).take (ztString conf.myIp).length =
    ztString conf.myIp

section
variable {order : ByteOrder} {conf : SendConf} {left : Leftover} {draft : Draft}
  {msg other : Mbuf}

/-- `tot_len` of `send_msg`. -/
def Mbuf.totLen (order : ByteOrder) (msg : Mbuf) : Int :=
  if msg.allocLen < toInt (toUint (msg.len + rmrHdrLen order msg.tpBuf + tpHdrLen))
    then msg.allocLen
  else toInt (toUint (msg.len + rmrHdrLen order msg.tpBuf + tpHdrLen))

/-- The headers are as long where the lengths are the same. -/
theorem rmrHdrLen_congr (order : ByteOrder) {tpBuf last : Block}
    (lens : last.slice 246 16 = tpBuf.slice 246 16) : rmrHdrLen order last =
      rmrHdrLen order tpBuf := by
  obtain ⟨len0, len1, len2, len3⟩ := lens_congr order lens
  rw [rmrHdrLen, rmrHdrLen, len0, len1, len2, len3]

/-- A message with the same lengths is as long. -/
theorem totLen_congr (order : ByteOrder) (allocLen : other.allocLen = msg.allocLen)
    (len : other.len = msg.len) (lens : other.tpBuf.slice 246 16 = msg.tpBuf.slice 246 16) :
    other.totLen order = msg.totLen order := by
  rw [Mbuf.totLen, Mbuf.totLen, allocLen, len, rmrHdrLen_congr order lens]

/-- What `send_msg` hands to the transport. -/
theorem sendMsg_frame {bytes : List UInt8} (sent : sendMsg conf msg = .ok bytes) :
    0 ≤ msg.totLen conf.order ∧ msg.totLen conf.order ≤ (prepare conf msg).tpBuf.size ∧
      bytes = (insertMlen conf.order (toUint (msg.totLen conf.order))
        (prepare conf msg).tpBuf).slice 0 (msg.totLen conf.order).toNat := by
  -- The words that are set are no lengths, so that the total is that of the message before.
  have same : (prepare conf msg).totLen conf.order = msg.totLen conf.order :=
    totLen_congr _ rfl rfl (prepare_lens_slice msg)
  change (if (prepare conf msg).totLen conf.order < 0 ∨
      ((prepare conf msg).tpBuf.size : Int) < (prepare conf msg).totLen conf.order then _
    else Except.ok ((insertMlen conf.order (toUint ((prepare conf msg).totLen conf.order))
      (prepare conf msg).tpBuf).slice 0 ((prepare conf msg).totLen conf.order).toNat)) = _ at sent
  rw [same] at sent
  split at sent
  · cases sent
  · cases sent
    exact ⟨by omega, by omega, rfl⟩

/-- A message is as long as its headers at least, by what it says and by what was allocated as far
as it knows. -/
def Mbuf.Whole (order : ByteOrder) (msg : Mbuf) : Prop :=
    (tpHdrLen + mhdrLen : Int) ≤ msg.totLen order

/-- A message that is alike is as long. -/
theorem Mbuf.Alike.whole (alike : other.Alike msg) (whole : msg.Whole order) :
    other.Whole order := by
  rw [Mbuf.Whole, totLen_congr order alike.allocLen alike.len alike.keeps.lens]
  exact whole

/-- What `send_msg` hands to the transport has the source of this process, for a whole message that
is sourced. -/
theorem sendMsg_stamped {bytes : List UInt8} (sourced : msg.Sourced conf)
    (whole : msg.Whole conf.order) (sent : sendMsg conf msg = .ok bytes) : Stamped conf bytes := by
  have own := sourced.prepare
  obtain ⟨-, -, rfl⟩ := sendMsg_frame sent
  have large : 330 ≤ (msg.totLen conf.order).toNat := by
    simp only [Mbuf.Whole, tpHdrLen, mhdrLen] at whole
    omega
  have srcShort := ztString_length_le conf.myName
  have srcipShort := ztString_length_le conf.myIp
  -- The message length is put in front of all headers.
  refine ⟨?_, ?_, ?_⟩
  · rw [Block.slice_length]
    exact large
  · rw [Block.slice_drop_take _ _ _ _ _ (by simp only [HdrField.offset, tpHdrLen]; omega),
      Nat.zero_add]
    exact (Block.overlay_slice_outside _ _ _ _ _ (Or.inr (by decide))).trans own.src
  · rw [Block.slice_drop_take _ _ _ _ _ (by simp only [HdrField.offset, tpHdrLen]; omega),
      Nat.zero_add]
    exact (Block.overlay_slice_outside _ _ _ _ _ (Or.inr (by decide))).trans own.srcip

/-- A frame that is sent is stamped. -/
theorem trySendFrames_stamped {result : SendResult} {frames : List (List UInt8)}
    (goes : result = .ok → draft.msg.Sourced conf ∧ draft.msg.Whole conf.order)
    (sent : trySendFrames conf draft result = .ok frames) :
      ∀ frame ∈ frames, Stamped conf frame := by
  -- Only a send that went well puts a frame on the wire.
  obtain ⟨bytes, bytesIs, made⟩ := bind_eq_ok.mp sent
  cases made
  intro frame is
  cases result with
  | ok =>
    obtain ⟨sourced, whole⟩ := goes rfl
    rw [List.mem_singleton.mp is]
    exact sendMsg_stamped sourced whole bytesIs
  | blocked => cases is
  | failed => cases is

/-- The message that was not sent is as good as it was. -/
theorem unsentMsg_sourced (framed : msg.Framed conf.order) (bytes : List UInt8)
    (state : MsgState) :
    (unsentMsg conf msg bytes state).Framed conf.order ∧
      (msg.Sourced conf → (unsentMsg conf msg bytes state).Sourced conf) := by
  have lens : (unsentMsg conf msg bytes state).tpBuf.slice 246 16 = msg.tpBuf.slice 246 16 :=
    (Block.overlay_slice_outside _ _ _ _ _ (Or.inr (by decide))).trans (prepare_lens_slice msg)
  refine ⟨framed.keep rfl rfl lens, fun sourced => .inr ?_⟩
  exact sourced.prepare.keep (Block.overlay_slice_outside _ _ _ _ _ (Or.inr (by decide)))
    (Block.overlay_slice_outside _ _ _ _ _ (Or.inr (by decide)))

/-- What comes back from a send is as good as what was sent, or a new message. -/
theorem trySend_sourced {result : SendResult} {sent : Option Draft} (sane : conf.Sane)
    (framed : draft.msg.Framed conf.order) (tried : trySend conf left draft result = .ok sent) :
    ∀ next ∈ sent, next.msg.Framed conf.order ∧
      (draft.msg.Sourced conf ∨ result = .ok → next.msg.Sourced conf) := by
  -- The three outcomes of `send_msg`: nothing, a message to send next, or the one that was not
  -- sent.
  obtain ⟨bytes, -, ⟨-, -, rfl⟩ | ⟨-, -, next, rfl, nextIs⟩ | ⟨failed, state, -, rfl⟩⟩ :=
    trySend_cases tried
  · rintro _ ⟨⟩
  · rintro _ ⟨⟩
    obtain ⟨framed, sourced⟩ := allocZcmsg_sourced sane nextIs
    exact ⟨framed, fun _ => sourced⟩
  · rintro _ ⟨⟩
    obtain ⟨framed, sourced⟩ := unsentMsg_sourced framed bytes state
    exact ⟨framed, fun before => sourced (before.resolve_right failed)⟩

/-- The same for sends to one group after the other, where the last one tells. -/
theorem fanOut_sourced {groups : List (Option SendResult)} {okSends : Bool}
    {tries : Option Draft × Bool} (sane : conf.Sane) (framed : draft.msg.Framed conf.order)
    (tried : fanOut conf left draft okSends groups = .ok tries) :
    ∀ next ∈ tries.1, next.msg.Framed conf.order ∧
      (draft.msg.Sourced conf ∨ groups.getLast? = some (some .ok) → next.msg.Sourced conf) := by
  fun_induction fanOut conf left draft okSends groups with
  | case1 draft okSends =>
    cases tried
    rintro _ ⟨⟩
    exact ⟨framed, fun before => before.resolve_right fun is => by cases is⟩
  | case2 draft okSends groups ih =>
    intro next is
    obtain ⟨nextFramed, sourced⟩ := ih (framed.keep rfl rfl rfl) tried next is
    refine ⟨nextFramed, fun before => sourced (before.imp id fun last => ?_)⟩
    cases groups with
    | nil => cases last
    | cons group groups => exact last
  | case3 draft okSends result =>
    obtain ⟨last, lastIs, made⟩ := bind_eq_ok.mp tried
    cases made
    intro next is
    obtain ⟨nextFramed, sourced⟩ := trySend_sourced sane framed lastIs next is
    exact ⟨nextFramed, fun before => sourced (before.imp id fun last =>
      Option.some.inj (Option.some.inj last))⟩
  | case4 draft okSends result groups more unsent done =>
    obtain ⟨clone, cloneIs, tried⟩ := bind_eq_ok.mp tried
    obtain ⟨first, -, tried⟩ := bind_eq_ok.mp tried
    have alike := cloneMsg_alike framed cloneIs
    -- There are more groups, so the last one is the last one of these.
    have lastIs : (some result :: groups).getLast? = groups.getLast? := by
      cases groups with
      | nil => exact absurd rfl more
      | cons group groups => rfl
    intro next is
    rw [lastIs]
    cases first with
    | some msg =>
      obtain ⟨nextFramed, sourced⟩ := unsent clone (alike.framed framed) tried next is
      exact ⟨nextFramed, fun before => sourced (before.imp alike.sourced id)⟩
    | none =>
      obtain ⟨nextFramed, sourced⟩ :=
        done clone ((alike.framed framed).keep rfl rfl rfl) tried next is
      exact ⟨nextFramed, fun before => sourced (before.imp alike.sourced id)⟩

/-- All frames of a fan-out are stamped. -/
theorem fanOutFrames_stamped {groups : List (Option SendResult)} {frames : List (List UInt8)}
    (framed : draft.msg.Framed conf.order)
    (goes : some .ok ∈ groups → draft.msg.Sourced conf ∧ draft.msg.Whole conf.order)
    (sent : fanOutFrames conf left draft groups = .ok frames) :
    ∀ frame ∈ frames, Stamped conf frame := by
  -- By induction on the groups: all but the last are sent a clone, which is alike.
  fun_induction fanOutFrames conf left draft groups generalizing frames with
  | case1 draft =>
    cases sent
    rintro _ ⟨⟩
  | case2 draft groups ih =>
    exact ih (framed.keep rfl rfl rfl) (fun is => by exact goes (List.mem_cons_of_mem _ is)) sent
  | case3 draft result =>
    exact trySendFrames_stamped (fun ok => goes (by rw [ok]; exact List.mem_singleton_self _)) sent
  | case4 draft result groups more ih =>
    obtain ⟨clone, cloneIs, sent⟩ := bind_eq_ok.mp sent
    obtain ⟨now, nowIs, sent⟩ := bind_eq_ok.mp sent
    obtain ⟨later, laterIs, made⟩ := bind_eq_ok.mp sent
    cases made
    have alike := cloneMsg_alike framed cloneIs
    intro frame is
    rcases List.mem_append.mp is with first | rest
    · exact trySendFrames_stamped (fun ok => goes (by rw [ok]; exact List.mem_cons_self)) nowIs
        frame first
    · refine ih clone (alike.framed framed) (fun is => ?_) laterIs frame rest
      obtain ⟨sourced, whole⟩ := goes (List.mem_cons_of_mem _ is)
      exact ⟨alike.sourced sourced, alike.whole whole⟩

/-- What comes back from `mtosend_msg`. -/
theorem mtosendMsg_sourced {groups : List (Option SendResult)} {sent : Option Draft}
    (sane : conf.Sane) (framed : draft.msg.Framed conf.order)
    (tried : mtosendMsg conf left draft groups = .ok sent) :
    ∀ next ∈ sent, next.msg.Framed conf.order ∧
      (draft.msg.Sourced conf ∨ groups.getLast? = some (some .ok) → next.msg.Sourced conf) := by
  -- Without groups the message is returned as it was; else it is what the last send left.
  unfold mtosendMsg at tried
  split at tried
  · rename_i unrouted
    cases tried
    rintro _ ⟨⟩
    refine ⟨framed.keep rfl rfl rfl, fun before => before.resolve_right ?_⟩
    rw [unrouted]
    intro is
    cases is
  · obtain ⟨⟨last, okSends⟩, lastIs, made⟩ := bind_eq_ok.mp tried
    cases made
    intro next is
    obtain ⟨final, finalIs, rfl⟩ := Option.mem_map.mp is
    obtain ⟨finalFramed, sourced⟩ := fanOut_sourced sane framed lastIs final finalIs
    exact ⟨finalFramed.keep rfl rfl rfl, sourced⟩

/-- What `rmr_send_msg` sends is alike to the message. -/
theorem sendable_alike {sendable : Mbuf} (framed : msg.Framed order)
    (made : (msg.unmarkCall order).blotCallId order = .ok sendable) : sendable.Alike msg :=
  (blotCallId_alike ((unmarkCall_alike order msg).framed framed) made).trans
    (unmarkCall_alike order msg)

/-- What comes back from `rmr_send_msg`. -/
theorem rmrSendMsg_sourced {groups : List (Option SendResult)} {sent : Option Draft}
    (sane : conf.Sane) (framed : draft.msg.Framed conf.order)
    (tried : rmrSendMsg conf left draft groups = .ok sent) :
    ∀ next ∈ sent, next.msg.Framed conf.order ∧
      (draft.msg.Sourced conf ∨ groups.getLast? = some (some .ok) → next.msg.Sourced conf) := by
  -- The call flag is cleared first, which leaves the message alike.
  obtain ⟨msg, msgIs, tried⟩ := bind_eq_ok.mp tried
  have alike := sendable_alike framed msgIs
  intro next is
  obtain ⟨nextFramed, sourced⟩ :=
    mtosendMsg_sourced sane (by exact alike.framed framed) tried next is
  exact ⟨nextFramed, fun before => sourced (before.imp alike.sourced id)⟩

/-- All frames that `rmr_send_msg` sends are stamped. -/
theorem rmrSendFrames_stamped {groups : List (Option SendResult)} {frames : List (List UInt8)}
    (framed : draft.msg.Framed conf.order)
    (goes : some .ok ∈ groups → draft.msg.Sourced conf ∧ draft.msg.Whole conf.order)
    (sent : rmrSendFrames conf left draft groups = .ok frames) :
    ∀ frame ∈ frames, Stamped conf frame := by
  -- The message that goes to the groups is alike to the one at hand, so that it is sourced and
  -- whole, too.
  obtain ⟨msg, msgIs, sent⟩ := bind_eq_ok.mp sent
  have alike := sendable_alike framed msgIs
  refine fanOutFrames_stamped (by exact alike.framed framed) (fun is => ?_) sent
  obtain ⟨sourced, whole⟩ := goes is
  exact ⟨alike.sourced sourced, alike.whole whole⟩

/-- Filling a source field leaves the lengths alone. -/
theorem ztBufFill_lens (tpBuf : Block) (start : Nat) (src : List UInt8)
    (apart : start + 64 ≤ 246 ∨ 262 ≤ start) :
    (ztBufFill tpBuf start src rmrMaxSrc).slice 246 16 = tpBuf.slice 246 16 :=
  ztBufFill_outside _ _ _ _ (by decide) (by simp only [rmrMaxSrc]; omega)

/-- The message that `rmr_rts_msg` sends is as good as the one it is given. -/
theorem rtsMsg_sourced (conf : SendConf) (framed : msg.Framed conf.order) :
    (msg.rtsMsg conf).Framed conf.order ∧
      (msg.rtsMsg conf).totLen conf.order = msg.totLen conf.order ∧
      (msg.Sourced conf → (msg.rtsMsg conf).Sourced conf) := by
  have alike := unmarkCall_alike conf.order msg
  have lens : (msg.rtsMsg conf).tpBuf.slice 246 16 = msg.tpBuf.slice 246 16 :=
    (ztBufFill_lens _ _ _ (Or.inl (by decide))).trans alike.keeps.lens
  refine ⟨framed.keep rfl rfl lens, totLen_congr _ rfl rfl lens, Or.imp id fun own => ?_⟩
  -- The name is put in, and the address is there.
  have unmarked := own.keep alike.keeps.src alike.keeps.srcip
  have srcShort := ztString_length_le conf.myIp
  exact ⟨ztBufFill_string _ _ _, (ztBufFill_outside _ _ _ _ (by decide)
    (by simp only [HdrField.offset, tpHdrLen, rmrMaxSrc]; omega)).trans unmarked.srcip⟩

/-- What comes back from `rmr_rts_msg` is to be given the source if there was an endpoint. -/
theorem rmrRtsMsg_sourced {result : Option SendResult} {sent : Option Draft} (sane : conf.Sane)
    (framed : draft.msg.Framed conf.order)
    (tried : rmrRtsMsg conf left draft result = .ok sent) :
    ∀ next ∈ sent, next.msg.Framed conf.order ∧
      (draft.msg.Sourced conf ∨ result ≠ none → next.msg.Sourced conf) := by
  -- What was held of the source is put back over what the send left.
  cases result with
  | none =>
    cases tried
    rintro _ ⟨⟩
    have alike := unmarkCall_alike conf.order draft.msg
    exact ⟨(alike.framed framed).keep rfl rfl rfl,
      fun before => alike.sourced (before.resolve_right fun some_ => some_ rfl)⟩
  | some result =>
    obtain ⟨holdSrc, holdIp, last, -, -, lastIs, rfl⟩ := rmrRtsMsg_steps tried
    intro next is
    obtain ⟨final, finalIs, rfl⟩ := Option.mem_map.mp is
    have rts := (rtsMsg_sourced conf framed).1
    obtain ⟨finalFramed, -⟩ := trySend_sourced sane (by exact rts) lastIs final finalIs
    have lens : (final.restoreSource holdSrc holdIp).msg.tpBuf.slice 246 16 =
        final.msg.tpBuf.slice 246 16 :=
      (ztBufFill_lens _ _ _ (Or.inr (by decide))).trans
        (ztBufFill_lens _ _ _ (Or.inl (by decide)))
    exact ⟨finalFramed.keep rfl rfl lens, fun _ => .inl rfl⟩

/-- The frame that `rmr_rts_msg` sends is stamped. -/
theorem rmrRtsFrames_stamped {result : Option SendResult} {frames : List (List UInt8)}
    (framed : draft.msg.Framed conf.order)
    (goes : result = some .ok → draft.msg.Sourced conf ∧ draft.msg.Whole conf.order)
    (sent : rmrRtsFrames conf draft result = .ok frames) :
    ∀ frame ∈ frames, Stamped conf frame := by
  -- The destination is written to the header, which changes neither the source nor the length.
  cases result with
  | none =>
    cases sent
    rintro _ ⟨⟩
  | some result =>
    obtain ⟨-, totLen, rts⟩ := rtsMsg_sourced conf framed
    refine trySendFrames_stamped (fun ok => ?_) sent
    obtain ⟨sourced, whole⟩ := goes (congrArg some ok)
    refine ⟨rts sourced, ?_⟩
    show _ ≤ (draft.msg.rtsMsg conf).totLen conf.order
    rw [totLen]
    exact whole

/-- What comes back from `rmr_wh_send_msg`. -/
theorem rmrWhSendMsg_sourced {wormhole : Wormhole} {sent : Option Draft} (sane : conf.Sane)
    (framed : draft.msg.Framed conf.order)
    (tried : rmrWhSendMsg conf left draft wormhole = .ok sent) :
    ∀ next ∈ sent, next.msg.Framed conf.order ∧
      (draft.msg.Sourced conf ∨ wormhole = .open_ .ok → next.msg.Sourced conf) := by
  -- The cases are those of the wormhole; only an open one sends.
  cases wormhole with
  | noneOpen =>
    cases tried
    rintro _ ⟨⟩
    exact ⟨framed.keep rfl rfl rfl, fun before => before.resolve_right fun is => by cases is⟩
  | invalid =>
    cases tried
    rintro _ ⟨⟩
    exact ⟨framed.keep rfl rfl rfl, fun before => before.resolve_right fun is => by cases is⟩
  | open_ result =>
    obtain ⟨msg, msgIs, tried⟩ := bind_eq_ok.mp tried
    have alike := blotCallId_alike (by exact framed.keep rfl rfl rfl) msgIs
    intro next is
    obtain ⟨nextFramed, sourced⟩ := trySend_sourced sane
      (by exact alike.framed (framed.keep rfl rfl rfl)) tried next is
    exact ⟨nextFramed, fun before => sourced (before.imp (by exact alike.sourced)
      fun open_ => Wormhole.open_.inj open_)⟩

/-- The frame that `rmr_wh_send_msg` sends is stamped. -/
theorem rmrWhSendFrames_stamped {wormhole : Wormhole} {frames : List (List UInt8)}
    (framed : draft.msg.Framed conf.order)
    (goes : wormhole = .open_ .ok → draft.msg.Sourced conf ∧ draft.msg.Whole conf.order)
    (sent : rmrWhSendFrames conf draft wormhole = .ok frames) :
    ∀ frame ∈ frames, Stamped conf frame := by
  -- The cases are those of the wormhole; only an open one sends.
  cases wormhole with
  | noneOpen =>
    cases sent
    rintro _ ⟨⟩
  | invalid =>
    cases sent
    rintro _ ⟨⟩
  | open_ result =>
    obtain ⟨msg, msgIs, sent⟩ := bind_eq_ok.mp sent
    have alike := blotCallId_alike (by exact framed.keep rfl rfl rfl) msgIs
    refine trySendFrames_stamped (fun ok => ?_) sent
    obtain ⟨sourced, whole⟩ := goes (congrArg Wormhole.open_ ok)
    exact ⟨alike.sourced (by exact sourced), alike.whole (by exact whole)⟩

/-- What comes back of a request is as good as the message was. -/
theorem mtCall_sourced {callId : UInt8} {send : Draft → Except Fault (Option Draft)}
    {sent : Option Draft} (framed : draft.msg.Framed conf.order)
    (sends : ∀ {draft sent}, draft.msg.Framed conf.order → send draft = .ok sent →
      ∀ next ∈ sent, next.msg.Framed conf.order ∧
        (draft.msg.Sourced conf → next.msg.Sourced conf))
    (called : mtCall conf.order draft callId send = .ok sent) :
    ∀ next ∈ sent, next.msg.Framed conf.order ∧
      (draft.msg.Sourced conf → next.msg.Sourced conf) := by
  -- The request is alike, and what comes back of it is filtered, not changed.
  obtain ⟨request, back, requestIs, -, backIs, rfl⟩ := mtCall_cases called
  have alike := request_alike framed requestIs
  intro next is
  obtain ⟨nextFramed, sourced⟩ :=
    sends (by exact alike.framed framed) backIs next (Option.mem_filter_iff.mp is).1
  exact ⟨nextFramed, fun before => sourced (alike.sourced before)⟩

/-- What comes back from a call is as good as the message was. -/
theorem Calling.call_sourced {calling : Calling} {sent : Option Draft} (sane : conf.Sane)
    (framed : draft.msg.Framed conf.order) (called : calling.call_ conf left draft = .ok sent) :
    ∀ next ∈ sent, next.msg.Framed conf.order ∧
      (draft.msg.Sourced conf → next.msg.Sourced conf) := by
  have routed : ∀ (groups : List (Option SendResult)) {draft sent},
      draft.msg.Framed conf.order → mtosendMsg conf left draft groups = .ok sent →
      ∀ next ∈ sent, next.msg.Framed conf.order ∧
        (draft.msg.Sourced conf → next.msg.Sourced conf) := by
    intro groups draft sent framed tried next is
    obtain ⟨nextFramed, sourced⟩ := mtosendMsg_sourced sane framed tried next is
    exact ⟨nextFramed, fun before => sourced (.inl before)⟩
  -- A call that is refused sets nothing but the state.
  have refused : ∀ state : MsgState, ∀ next ∈ some ({ draft with
      msg := { draft.msg with state := state } } : Draft),
      next.msg.Framed conf.order ∧ (draft.msg.Sourced conf → next.msg.Sourced conf) := by
    rintro state _ ⟨⟩
    exact ⟨framed.keep rfl rfl rfl, id⟩
  cases calling with
  | call groups => exact mtCall_sourced framed (routed groups) called
  | mtCall callId groups =>
    rw [Calling.call_, rmrMtCall] at called
    split at called
    · cases called
      exact refused _
    · exact mtCall_sourced framed (routed groups) called
  | whCall callId wormhole =>
    cases wormhole with
    | noneOpen =>
      cases called
      exact refused _
    | invalid =>
      cases called
      exact refused _
    | open_ result =>
      rw [Calling.call_, rmrWhCall] at called
      split at called
      · cases called
      · have back := mtCall_sourced (by exact framed.keep rfl rfl rfl) (by
          intro draft sent framed tried next is
          obtain ⟨nextFramed, sourced⟩ := trySend_sourced sane framed tried next is
          exact ⟨nextFramed, fun before => sourced (.inl before)⟩) called
        exact back

end

/-- A message that was received has a header that leads to its payload. -/
theorem buf2mbuf_framed {rcvConf : RcvConf} {rawMsg : Block} {fd : Int} {delivery : Delivery}
    {mbuf : Mbuf} (frames : FramesHeader rcvConf.order rawMsg)
    (handed : buf2mbuf rcvConf rawMsg rawMsg.size fd = .ok delivery)
    (is : delivery.mbuf? = some mbuf) : mbuf.Framed rcvConf.order := by
  -- The header of the frame leads to its payload, within what an `int` can count.
  have sized := buf2mbuf_sized frames handed is
  obtain ⟨small, -, starts⟩ := frames
  obtain ⟨-, made⟩ := buf2mbuf_made handed is
  obtain ⟨-, payload, -⟩ := Mbuf.refTpbuf_found made
  refine ⟨sized.inInt, sized.headed, ?_⟩
  rw [payload]
  change (payloadAddr rcvConf.order rawMsg : Int) ≤ _
  simp only [intMax, tpHdrLen] at small ⊢
  omega

namespace Api

variable {conf : SendConf} {rcvConf : RcvConf} {left : Leftover} {api next : Api}
  {event : PoolEvent} {pool : Pool}

/-- A message may be sent if it is whole, and not foreign. -/
def MaySend (conf : SendConf) (api : Api) (id : Nat) : Prop :=
  ∀ msg ∈ api.pool.msgs id, api.foreign id = false ∧ msg.Whole conf.order

/-- What is asked of a call of the library: a message that is sent with success may be sent; a
message whose payload is copied has a whole header by what was allocated as far as it knows; and a
frame that is not dropped is one with a header, and with a payload that starts in it. -/
def Stamps (conf : SendConf) (rcvConf : RcvConf) (api : Api) : ApiEvent → Prop
  | .pool (.send id groups) => some .ok ∈ groups → api.MaySend conf id
  | .pool (.rts id result) => result = some .ok → api.MaySend conf id
  | .pool (.whSend id wormhole) => wormhole = .open_ .ok → api.MaySend conf id
  | .pool (.reallocPayload id _ copy _) => copy = true →
    ∀ msg ∈ api.pool.msgs id, (tpHdrLen + mhdrLen : Int) ≤ msg.allocLen
  | .pool (.receive rawMsg _) =>
    lengthsFit rcvConf.order rawMsg rawMsg.size → FramesHeader rcvConf.order rawMsg
  | _ => True

/-- What of this keeps every message with a header that leads to its payload. -/
def Keeps (rcvConf : RcvConf) (api : Api) : ApiEvent → Prop
  | .pool (.reallocPayload id _ copy _) => copy = true →
    ∀ msg ∈ api.pool.msgs id, (tpHdrLen + mhdrLen : Int) ≤ msg.allocLen
  | .pool (.receive rawMsg _) =>
    lengthsFit rcvConf.order rawMsg rawMsg.size → FramesHeader rcvConf.order rawMsg
  | _ => True

/-- It is asked for together with the rest. -/
theorem Stamps.keeps {event : ApiEvent} (asked : api.Stamps conf rcvConf event) :
    api.Keeps rcvConf event := by
  -- Only a reallocation and a frame received ask for something of the header.
  cases event with
  | pool event =>
    cases event with
    | reallocPayload id payloadLen copy clone => exact asked
    | receive rawMsg fd => exact asked
    | alloc size => trivial
    | tralloc size data => trivial
    | apply id op => trivial
    | realloc id trLen => trivial
    | send id groups => trivial
    | rts id result => trivial
    | whSend id wormhole => trivial
    | free id => trivial
  | call id calling => trivial
  | timeout id polled => trivial

/-- All messages have headers that lead to their payload, and those that are not foreign a source
that is to be put in or this process. -/
structure Traced (conf : SendConf) (pool : Pool) (foreign : Nat → Bool) : Prop where
  framed : pool.All fun msg => msg.Framed conf.order
  sourced : ∀ id msg, pool.msgs id = some msg → foreign id = false → msg.Sourced conf

/-- When a message is new after a send. -/
theorem makesOwn_send {id other : Nat} {groups : List (Option SendResult)} :
    makesOwn (.send id groups) = some other ↔ other = id ∧ groups.getLast? = some (some .ok) := by
  -- The last group decides: its outcome is what the message that comes back is from.
  rw [makesOwn]
  split
  · rename_i last
    simp [last, eq_comm]
  · rename_i last
    simp [last]

/-- When a message is to be given the source after it was returned to its sender. -/
theorem makesOwn_rts {id other : Nat} {result : Option SendResult} :
    makesOwn (.rts id result) = some other ↔ other = id ∧ result ≠ none := by
  cases result <;> simp [makesOwn, eq_comm]

/-- When a message is new after a send through a wormhole. -/
theorem makesOwn_whSend {id other : Nat} {wormhole : Wormhole} :
    makesOwn (.whSend id wormhole) = some other ↔ other = id ∧ wormhole = .open_ .ok := by
  -- The message is replaced only where a connection is open and takes it.
  cases wormhole with
  | noneOpen => simp [makesOwn]
  | invalid => simp [makesOwn]
  | open_ result => cases result <;> simp [makesOwn, eq_comm]

/-- One more message. -/
theorem Traced.add (traced : Traced conf api.pool api.foreign) {draft : Draft}
    (framed : draft.msg.Framed conf.order) (keeps : makesOwn event = none)
    (sourced : api.bearsForeign rcvConf event = false → draft.msg.Sourced conf) :
    Traced conf (api.pool.add draft) (api.foreignAfter rcvConf event (api.pool.add draft)) where
  -- The new message has the next number, and every other one is where it was.
  framed := traced.framed.add framed
  sourced := by
    intro id msg is own
    rw [Pool.add_msgs] at is
    have grown : api.pool.count < (api.pool.add draft).count := Nat.lt_succ_self _
    rw [foreignAfter, keeps] at own
    split at is
    · rename_i new_
      cases is
      rw [if_pos ⟨new_, grown⟩] at own
      exact sourced own
    · rename_i old
      rw [if_neg fun both => old both.1] at own
      exact traced.sourced id msg is (by simpa using own)

/-- What comes back. -/
theorem Traced.put (traced : Traced conf api.pool api.foreign) (id : Nat) (draft : Option Draft)
    (keeps : ∀ other, makesOwn event = some other → other = id)
    (comes : ∀ next ∈ draft, next.msg.Framed conf.order ∧
      (api.foreign id = false ∨ makesOwn event = some id → next.msg.Sourced conf)) :
    Traced conf (api.pool.put id draft)
      (api.foreignAfter rcvConf event (api.pool.put id draft)) where
  -- What came back has the number of the message; no other number is written.
  framed := traced.framed.put id fun next is => (comes next is).1
  sourced := by
    intro other msg is own
    have same : (api.pool.put id draft).count = api.pool.count := by cases draft <;> rfl
    rw [foreignAfter, if_neg (by rw [same]; omega)] at own
    rw [Pool.put_msgs] at is
    split at is
    · rename_i back
      obtain ⟨next, nextIs, rfl⟩ := Option.map_eq_some_iff.mp is
      refine (comes next nextIs).2 ?_
      simp only [Bool.and_eq_false_iff, decide_eq_false_iff_not, not_not, ne_eq] at own
      exact back ▸ own
    · rename_i elsewhere
      refine traced.sourced other msg is ?_
      simp only [Bool.and_eq_false_iff, decide_eq_false_iff_not, not_not, ne_eq] at own
      exact own.resolve_right fun made => elsewhere (keeps other made)

/-- A call that changes no message. -/
theorem Traced.same (traced : Traced conf api.pool api.foreign)
    (keeps : ∀ other, makesOwn event = some other → api.pool.msgs other = none) :
    Traced conf api.pool (api.foreignAfter rcvConf event api.pool) where
  -- A call that is said to renew a message finds none under that number here.
  framed := traced.framed
  sourced := by
    intro id msg is own
    rw [foreignAfter, if_neg (by omega)] at own
    refine traced.sourced id msg is ?_
    simp only [Bool.and_eq_false_iff, decide_eq_false_iff_not, not_not, ne_eq] at own
    refine own.resolve_right fun made => ?_
    rw [keeps id made] at is
    cases is

/-- A call with the message under a number, if there is one. -/
theorem Traced.withMsg (traced : Traced conf api.pool api.foreign) {id : Nat}
    {call : Draft → Except Fault Pool} (keeps : ∀ other, makesOwn event = some other → other = id)
    (goes : ∀ msg, api.pool.msgs id = some msg → call ⟨msg, api.pool.allocs⟩ = .ok pool →
      Traced conf pool (api.foreignAfter rcvConf event pool))
    (called : api.pool.withMsg id call = .ok pool) :
    Traced conf pool (api.foreignAfter rcvConf event pool) := by
  -- The call is made only if the message is there.
  unfold Pool.withMsg at called
  split at called
  · rename_i gone
    cases called
    exact traced.same fun other made => keeps other made ▸ gone
  · rename_i msg is
    exact goes msg is called

/-- All messages stay such after a call with a message buffer. -/
theorem Traced.step (sane : conf.Sane) (same : rcvConf.order = conf.order)
    (traced : Traced conf api.pool api.foreign) (asked : api.Keeps rcvConf (.pool event))
    (stepped : api.pool.step conf rcvConf left event = .ok pool) :
    Traced conf pool (api.foreignAfter rcvConf event pool) := by
  cases event with
  | alloc size =>
    obtain ⟨draft, draftIs, made⟩ := bind_eq_ok.mp stepped
    cases made
    obtain ⟨framed, sourced⟩ := allocZcmsg_sourced sane draftIs
    exact traced.add framed rfl fun _ => sourced
  | tralloc size data =>
    obtain ⟨draft, draftIs, made⟩ := bind_eq_ok.mp stepped
    obtain ⟨tr, trIs, made⟩ := bind_eq_ok.mp made
    cases made
    obtain ⟨framed, sourced⟩ := allocZcmsg_sourced sane draftIs
    obtain ⟨trFramed, trSourced⟩ := rmrSetTrace_sourced framed trIs
    exact traced.add trFramed rfl fun _ => trSourced sourced
  | apply id op =>
    rw [Pool.step] at stepped
    refine traced.withMsg (fun _ made => by cases made) (fun msg is called => ?_) stepped
    obtain ⟨draft, draftIs, made⟩ := bind_eq_ok.mp called
    cases made
    refine traced.put id _ (fun _ made => by cases made) ?_
    rintro _ ⟨⟩
    obtain ⟨framed, sourced⟩ := apply_sourced (traced.framed id msg is) draftIs
    exact ⟨framed, fun own =>
      sourced (traced.sourced id msg is (own.resolve_right fun made => by cases made))⟩
  | realloc id trLen =>
    rw [Pool.step] at stepped
    refine traced.withMsg (fun _ made => by cases made) (fun msg is called => ?_) stepped
    obtain ⟨draft, draftIs, made⟩ := bind_eq_ok.mp called
    cases made
    obtain ⟨framed, sourced⟩ := reallocMsg_sourced (traced.framed id msg is) draftIs
    exact traced.add framed rfl fun own => sourced (traced.sourced id msg is own)
  | reallocPayload id payloadLen copy clone =>
    rw [Pool.step] at stepped
    refine traced.withMsg (fun _ made => by cases made) (fun msg is called => ?_) stepped
    obtain ⟨outcome, outcomeIs, made⟩ := bind_eq_ok.mp called
    cases made
    cases outcome with
    | refused => exact traced.same fun _ made => by cases made
    | same => exact traced.same fun _ made => by cases made
    | failed =>
      cases clone with
      | true => exact traced.same fun _ made => by cases made
      | false =>
        exact traced.put id none (fun _ made => by cases made) fun _ comes => by cases comes
    | made draft =>
      obtain ⟨framed, sourced⟩ := reallocPayload_sourced (traced.framed id msg is)
        (fun copied => asked copied msg is) outcomeIs
      cases clone with
      | true =>
        refine traced.add framed rfl fun own => ?_
        rw [bearsForeign, is, Bool.or_eq_false_iff] at own
        exact sourced (fun _ => own.2) (traced.sourced id msg is own.1)
      | false =>
        refine traced.put id (some draft) (fun _ made => by cases made) ?_
        rintro _ ⟨⟩
        exact ⟨framed, fun own =>
          sourced (fun copied => by cases copied)
            (traced.sourced id msg is (own.resolve_right fun made => by cases made))⟩
  | send id groups =>
    have keeps : ∀ other, makesOwn (.send id groups) = some other → other = id :=
      fun other made => (makesOwn_send.mp made).1
    rw [Pool.step] at stepped
    refine traced.withMsg keeps (fun msg is called => ?_) stepped
    obtain ⟨sent, sentIs, made⟩ := bind_eq_ok.mp called
    cases made
    refine traced.put id _ keeps fun next comes => ?_
    obtain ⟨framed, sourced⟩ :=
      rmrSendMsg_sourced sane (by exact traced.framed id msg is) sentIs next comes
    exact ⟨framed, fun own => sourced (own.imp (by exact traced.sourced id msg is)
      fun made => (makesOwn_send.mp made).2)⟩
  | rts id result =>
    have keeps : ∀ other, makesOwn (.rts id result) = some other → other = id :=
      fun other made => (makesOwn_rts.mp made).1
    rw [Pool.step] at stepped
    refine traced.withMsg keeps (fun msg is called => ?_) stepped
    obtain ⟨sent, sentIs, made⟩ := bind_eq_ok.mp called
    cases made
    refine traced.put id _ keeps fun next comes => ?_
    obtain ⟨framed, sourced⟩ :=
      rmrRtsMsg_sourced sane (by exact traced.framed id msg is) sentIs next comes
    exact ⟨framed, fun own => sourced (own.imp (by exact traced.sourced id msg is)
      fun made => (makesOwn_rts.mp made).2)⟩
  | whSend id wormhole =>
    have keeps : ∀ other, makesOwn (.whSend id wormhole) = some other → other = id :=
      fun other made => (makesOwn_whSend.mp made).1
    rw [Pool.step] at stepped
    refine traced.withMsg keeps (fun msg is called => ?_) stepped
    obtain ⟨sent, sentIs, made⟩ := bind_eq_ok.mp called
    cases made
    refine traced.put id _ keeps fun next comes => ?_
    obtain ⟨framed, sourced⟩ :=
      rmrWhSendMsg_sourced sane (by exact traced.framed id msg is) sentIs next comes
    exact ⟨framed, fun own => sourced (own.imp (by exact traced.sourced id msg is)
      fun made => (makesOwn_whSend.mp made).2)⟩
  | receive rawMsg fd =>
    obtain ⟨delivery, handed, made⟩ := bind_eq_ok.mp stepped
    cases made
    have framed : ∀ mbuf, delivery.mbuf? = some mbuf → mbuf.Framed conf.order := by
      intro mbuf is
      have fit := (buf2mbuf_made handed is).1
      exact same ▸ buf2mbuf_framed (asked fit) handed is
    cases delivery with
    | dropped => exact traced.same fun _ made => by cases made
    | normal mbuf => exact traced.add ((framed mbuf rfl).keep rfl rfl rfl) rfl fun _ => .inl rfl
    | chute callId mbuf =>
      refine traced.add (framed mbuf rfl) rfl fun own => ?_
      -- What goes to a chute is the answer of a call.
      rw [bearsForeign, answers, handed] at own
      cases own
  | free id =>
    cases stepped
    refine traced.put id _ (fun _ made => by cases made) ?_
    rintro _ ⟨⟩

/-- What is sent is the message under the number, if there is one. -/
theorem framesOf_stamped {id : Nat} {send : Draft → Except Fault (List (List UInt8))}
    {frames : List (List UInt8)} (sent : pool.framesOf id send = .ok frames)
    (stamped : ∀ msg, pool.msgs id = some msg → send ⟨msg, pool.allocs⟩ = .ok frames →
      ∀ frame ∈ frames, Stamped conf frame) : ∀ frame ∈ frames, Stamped conf frame := by
  -- Without the message nothing is sent.
  unfold Pool.framesOf at sent
  split at sent
  · cases sent
    rintro _ ⟨⟩
  · rename_i msg is
    exact stamped msg is sent

/-- All frames that are sent are stamped. -/
theorem Traced.frames (traced : Traced conf api.pool api.foreign)
    (asked : api.Stamps conf rcvConf (.pool event)) {frames : List (List UInt8)}
    (sent : api.pool.frames conf left event = .ok frames) :
    ∀ frame ∈ frames, Stamped conf frame := by
  -- A message that may be sent is sourced, as it is not foreign.
  have goes : ∀ {id msg}, api.pool.msgs id = some msg → api.MaySend conf id →
      msg.Sourced conf ∧ msg.Whole conf.order := by
    intro id msg is may
    obtain ⟨own, whole⟩ := may msg is
    exact ⟨traced.sourced id msg is own, whole⟩
  have nothing : Except.ok (ε := Fault) ([] : List (List UInt8)) = .ok frames →
      ∀ frame ∈ frames, Stamped conf frame := by
    intro none_
    cases none_
    rintro _ ⟨⟩
  cases event with
  | send id groups =>
    rw [Pool.frames] at sent
    refine framesOf_stamped sent fun msg is sent => ?_
    exact rmrSendFrames_stamped (by exact traced.framed id msg is)
      (fun ok => goes is (asked ok)) sent
  | rts id result =>
    rw [Pool.frames] at sent
    refine framesOf_stamped sent fun msg is sent => ?_
    exact rmrRtsFrames_stamped (by exact traced.framed id msg is)
      (fun ok => goes is (asked ok)) sent
  | whSend id wormhole =>
    rw [Pool.frames] at sent
    refine framesOf_stamped sent fun msg is sent => ?_
    exact rmrWhSendFrames_stamped (by exact traced.framed id msg is)
      (fun ok => goes is (asked ok)) sent
  | alloc size => exact nothing sent
  | tralloc size data => exact nothing sent
  | apply id op => exact nothing sent
  | realloc id trLen => exact nothing sent
  | reallocPayload id payloadLen copy clone => exact nothing sent
  | receive rawMsg fd => exact nothing sent
  | free id => exact nothing sent

/-- What is not changed but for the message under one number. -/
theorem Traced.call (traced : Traced conf api.pool api.foreign) (id : Nat) (foreign : Nat → Bool)
    (draft : Option Draft) (elsewhere : ∀ other, other ≠ id → foreign other = api.foreign other)
    (comes : ∀ next ∈ draft, next.msg.Framed conf.order ∧
      (foreign id = false → next.msg.Sourced conf)) :
    Traced conf (api.pool.put id draft) foreign where
  -- What came back has the number of the message; no other number is written.
  framed := traced.framed.put id fun next is => (comes next is).1
  sourced := by
    intro other msg is own
    rw [Pool.put_msgs] at is
    split at is
    · rename_i back
      obtain ⟨next, nextIs, rfl⟩ := Option.map_eq_some_iff.mp is
      exact (comes next nextIs).2 (back ▸ own)
    · rename_i other_
      exact traced.sourced other msg is (elsewhere other other_ ▸ own)

/-- All messages stay such whatever an application does. -/
theorem step_traced {event : ApiEvent} (sane : conf.Sane) (same : rcvConf.order = conf.order)
    (traced : Traced conf api.pool api.foreign) (asked : api.Keeps rcvConf event)
    (stepped : api.step conf rcvConf left event = .ok next) :
    Traced conf next.pool next.foreign := by
  cases event with
  | pool event =>
    obtain ⟨frames, -, stepped⟩ := bind_eq_ok.mp stepped
    obtain ⟨pool, poolIs, made⟩ := bind_eq_ok.mp stepped
    cases made
    exact traced.step sane same asked poolIs
  | call id calling =>
    obtain ⟨pool, poolIs, made⟩ := bind_eq_ok.mp stepped
    cases made
    unfold Pool.withMsg at poolIs
    split at poolIs
    · cases poolIs
      exact traced
    · rename_i msg is
      obtain ⟨back, backIs, made⟩ := bind_eq_ok.mp poolIs
      cases made
      refine traced.call id api.foreign _ (fun _ _ => rfl) fun next comes => ?_
      obtain ⟨framed, sourced⟩ :=
        Calling.call_sourced sane (by exact traced.framed id msg is) backIs next comes
      exact ⟨framed, fun own => sourced (traced.sourced id msg is own)⟩
  | timeout id polled =>
    cases stepped
    dsimp only
    unfold Pool.timeOut
    split
    · rename_i gone
      refine ⟨traced.framed, fun other msg is own => ?_⟩
      refine traced.sourced other msg is ?_
      split at own
      · by_cases here : other = id
        · rw [here, gone] at is
          cases is
        · rw [Function.update_of_ne here] at own
          exact own
      · exact own
    · rename_i msg is
      refine traced.call id _ _ (fun other elsewhere => ?_) ?_
      · split
        · exact Function.update_of_ne elsewhere _ _
        · rfl
      · rintro _ ⟨⟩
        refine ⟨(traced.framed id msg is).keep rfl rfl rfl, fun own => ?_⟩
        -- Either the flag is put on, or the message is as good as it was.
        cases polled with
        | true => exact .inl (Bool.or_true _)
        | false =>
          have sourced := traced.sourced id msg is own
          exact sourced.imp (fun flagged => by rw [flagged]; rfl) fun own => own

/-- All frames that are sent stay stamped. -/
theorem step_stamped {event : ApiEvent} (traced : Traced conf api.pool api.foreign)
    (stamped : ∀ frame ∈ api.wire, Stamped conf frame) (asked : api.Stamps conf rcvConf event)
    (stepped : api.step conf rcvConf left event = .ok next) :
    ∀ frame ∈ next.wire, Stamped conf frame := by
  -- Frames are only added to the wire, so that it is enough to look at those of the call.
  cases event with
  | pool event =>
    obtain ⟨frames, framesIs, stepped⟩ := bind_eq_ok.mp stepped
    obtain ⟨pool, -, made⟩ := bind_eq_ok.mp stepped
    cases made
    intro frame is
    rcases List.mem_append.mp is with before | now
    · exact stamped frame before
    · exact traced.frames asked framesIs frame now
  | call id calling =>
    obtain ⟨pool, -, made⟩ := bind_eq_ok.mp stepped
    cases made
    exact stamped
  | timeout id polled =>
    cases stepped
    exact stamped

/-- Before the first call all is well. -/
theorem init_traced (conf : SendConf) : Traced conf init.pool init.foreign :=
  ⟨fun _ _ is => (by cases is), fun _ _ is => (by cases is)⟩

/-- In every run of calls that are asked for with care, every frame that is sent has both source
fields, and they say that it comes from this process. -/
theorem run_stamped (conf : SendConf) (rcvConf : RcvConf) (left : Leftover)
    (events : List ApiEvent) (sane : conf.Sane) (same : rcvConf.order = conf.order)
    (asked : Along (step conf rcvConf left) (Stamps conf rcvConf) init events) {api : Api}
    (ran : run conf rcvConf left events = .ok api) {frame : List UInt8}
    (sent : frame ∈ api.wire) : Stamped conf frame := by
  -- The invariant is that all messages are traced and all frames on the wire are stamped.
  have empty : ∀ frame ∈ init.wire, Stamped conf frame := by
    rintro _ ⟨⟩
  have keeps : ∀ {api : Api} {event : ApiEvent} {next : Api},
      (Traced conf api.pool api.foreign ∧ ∀ frame ∈ api.wire, Stamped conf frame) →
      api.Stamps conf rcvConf event → api.step conf rcvConf left event = .ok next →
      Traced conf next.pool next.foreign ∧ ∀ frame ∈ next.wire, Stamped conf frame := by
    rintro api event next ⟨traced, stamped⟩ asked stepped
    exact ⟨step_traced sane same traced asked.keeps stepped,
      step_stamped traced stamped asked stepped⟩
  have holds := asked.keeps keeps ⟨init_traced conf, empty⟩ ran
  exact holds.2 frame sent

instance decidableStamped (conf : SendConf) (frame : List UInt8) :
    Decidable (Stamped conf frame) :=
  decidable_of_iff (tpHdrLen + mhdrLen ≤ frame.length ∧
      (frame.drop HdrField.src.offset).take (ztString conf.myName).length = ztString conf.myName ∧
      (frame.drop HdrField.srcip.offset).take (ztString conf.myIp).length = ztString conf.myIp)
    ⟨fun all => ⟨all.1, all.2.1, all.2.2⟩,
      fun stamped => ⟨stamped.whole, stamped.src, stamped.srcip⟩⟩

instance decidableMaySend (conf : SendConf) (api : Api) (id : Nat) :
    Decidable (api.MaySend conf id) :=
  inferInstanceAs (Decidable (∀ msg ∈ api.pool.msgs id,
    api.foreign id = false ∧ (tpHdrLen + mhdrLen : Int) ≤ msg.totLen conf.order))

instance decidableStamps (conf : SendConf) (rcvConf : RcvConf) (api : Api) :
    (event : ApiEvent) → Decidable (Stamps conf rcvConf api event)
  | .pool (.send _ _) => inferInstanceAs (Decidable (_ → _))
  | .pool (.rts _ _) => inferInstanceAs (Decidable (_ → _))
  | .pool (.whSend _ _) => inferInstanceAs (Decidable (_ → _))
  | .pool (.reallocPayload id _ copy _) =>
    inferInstanceAs (Decidable (copy = true → ∀ msg ∈ api.pool.msgs id,
      (tpHdrLen + mhdrLen : Int) ≤ msg.allocLen))
  | .pool (.receive _ _) => inferInstanceAs (Decidable (_ → _))
  | .pool (.alloc _) => .isTrue trivial
  | .pool (.tralloc _ _) => .isTrue trivial
  | .pool (.apply _ _) => .isTrue trivial
  | .pool (.realloc _ _) => .isTrue trivial
  | .pool (.free _) => .isTrue trivial
  | .call _ _ => .isTrue trivial
  | .timeout _ _ => .isTrue trivial

/-- A process with a name and an address. -/
def SendConf.named : SendConf := { SendConf.plain with myName := [109, 101], myIp := [49] }

/-- A frame of somebody with the name 'x', who sends it with a call id if that is not zero. -/
def frameOfX (callId : UInt8) : Block :=
  Block.ofList (List.replicate 126 0 ++ [120] ++ List.replicate 119 0 ++ bytes32 .big mhdrLen ++
    List.replicate 4 0 ++ bytes32 .big 4 ++ List.replicate 72 0 ++ [callId] ++ List.replicate 20 0)

/-- A message that was received is returned to its sender, copied, sent on and sent to several; a
clone of one that was allocated is sent through a wormhole, and so is a message that nobody
answered. -/
def busySender : List ApiEvent :=
  [.pool (.receive (frameOfX 0) 5), .pool (.rts 0 (some .blocked)), .pool (.realloc 0 3),
    .pool (.rts 1 (some .ok)), .pool (.reallocPayload 0 100 true false),
    .pool (.send 0 [some .ok, none, some .failed, some .ok]), .pool (.alloc 100),
    .pool (.reallocPayload 2 50 true true), .pool (.whSend 3 (.open_ .ok)),
    .call 2 (.call [some .blocked]), .timeout 2 true, .pool (.send 2 [some .ok])]

/-- A busy sender sends five frames that are stamped. -/
theorem run_stamped_busy :
    Along (step SendConf.named RcvConf.default fun _ _ => 0)
        (Stamps SendConf.named RcvConf.default) init busySender ∧
      Yields (fun api => ∃ frame ∈ api.wire, Stamped SendConf.named frame)
        (run SendConf.named RcvConf.default (fun _ _ => 0) busySender) := by
  -- The care is decided along the run; the theorem then tells of a frame on the wire.
  have asked : Along (step SendConf.named RcvConf.default fun _ _ => 0)
      (Stamps SendConf.named RcvConf.default) init busySender := by
    decide +kernel
  have sent : Yields (fun api => api.wire.length = 5)
      (run SendConf.named RcvConf.default (fun _ _ => 0) busySender) := by
    decide +kernel
  obtain ⟨api, ran, five⟩ := sent.exists
  obtain ⟨frame, is⟩ := List.exists_mem_of_length_pos (by omega : 0 < api.wire.length)
  exact ⟨asked, Yields.intro ran ⟨frame, is, run_stamped SendConf.named RcvConf.default
    (fun _ _ => 0) busySender ⟨⟨by decide, rfl⟩, by decide⟩ rfl asked ran is⟩⟩

/-- The answer of a call that is sent on says that it comes from who answered; and a clone of a
message that was received says so of its sender. -/
theorem answer_and_clone_unstamped :
    Yields (fun api => ∃ frame ∈ api.wire, (frame.drop HdrField.src.offset).take 2 = [120, 0] ∧
        ¬ Stamped SendConf.named frame)
      (run SendConf.named RcvConf.default (fun _ _ => 0)
        [.pool (.receive (frameOfX 1) 5), .pool (.send 0 [some .ok])]) ∧
    Yields (fun api => ∃ frame ∈ api.wire, (frame.drop HdrField.src.offset).take 2 = [120, 0] ∧
        ¬ Stamped SendConf.named frame)
      (run SendConf.named RcvConf.default (fun _ _ => 0)
        [.pool (.receive (frameOfX 0) 5), .pool (.reallocPayload 0 100 true true),
          .pool (.send 1 [some .ok])]) := by
  decide +kernel

end Api

end Rmr
