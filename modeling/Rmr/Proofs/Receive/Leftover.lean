import Rmr.Receive.Deliver
import Rmr.Proofs.Receive.Refine

/-! Which messages an application receives, and whether what was left over in memory shows in them.
-/

namespace Rmr

/-- Two messages in which an application sees the same. -/
structure Mbuf.Same (order : ByteOrder) (one other : Mbuf) : Prop where
  mtype : one.mtype = other.mtype
  subId : one.subId = other.subId
  len : one.len = other.len
  payload : one.payloadBytes = other.payloadBytes
  trace : one.traceBytes order = other.traceBytes order
  data1 : one.data1Bytes order = other.data1Bytes order

/-- Two raw messages that go the same way, as messages in which an application sees the same. -/
inductive Delivery.Same (order : ByteOrder) : Delivery → Delivery → Prop where
  | dropped : Same order .dropped .dropped
  | normal {one other : Mbuf} (same : one.Same order other) :
      Same order (.normal one) (.normal other)
  | chute (callId : UInt8) {one other : Mbuf} (same : one.Same order other) :
      Same order (.chute callId one) (.chute callId other)

/-- The same became of two frames. -/
inductive Outcome.Same (order : ByteOrder) : Outcome → Outcome → Prop where
  | dropped : Same order .dropped .dropped
  | full : Same order .full .full
  | queued {one other : Mbuf} (same : one.Same order other) :
      Same order (.queued one) (.queued other)
  | chute (callId : UInt8) {one other : Mbuf} (same : one.Same order other) :
      Same order (.chute callId one) (.chute callId other)

/-- A part of a message was received, if there is any of it. -/
def Call.Holds (call : Call) (start count : Nat) : Prop :=
  count = 0 ∨ ((start + count : Nat) : Int) ≤ call.received

/-- Enough of a frame was received: the lengths in its header and, unless they drop it, the rest
of the header that is looked at and the parts that the lengths tell of. -/
def Call.Solid (order : ByteOrder) (call : Call) : Prop :=
  ((HdrField.len3.offset + 4 : Nat) : Int) ≤ call.received ∧
    (lengthsFit order call.rawMsg call.msgSize →
      ((HdrField.subId.offset + 4 : Nat) : Int) ≤ call.received ∧
      call.Holds (traceAddr order call.rawMsg) (rmrTrLen order call.rawMsg) ∧
      call.Holds (data1Addr order call.rawMsg) (rmrD1Len order call.rawMsg) ∧
      call.Holds (payloadAddr order call.rawMsg) (hdrGet order call.rawMsg .plen))

/-- A part of two calls for one frame is the same as long as it was received. -/
theorem Call.Shows.slice_eq {conf : RcvConf} {one other : Call} {frame : Int × List UInt8}
    (oneShows : one.Shows conf frame) (otherShows : other.Shows conf frame) {start count : Nat}
    (within : start + count ≤ frame.2.length) :
    one.rawMsg.slice start count = other.rawMsg.slice start count := by
  -- Both calls have the bytes of the frame at their front.
  have first := Block.slice_drop_take one.rawMsg 0 frame.2.length start count within
  have second := Block.slice_drop_take other.rawMsg 0 frame.2.length start count within
  rw [oneShows.bytes, Nat.zero_add] at first
  rw [otherShows.bytes, Nat.zero_add] at second
  rw [← first, ← second]

/-- A part of two calls for one frame is the same if it was received in one. -/
theorem Call.Shows.holds_eq {conf : RcvConf} {one other : Call} {frame : Int × List UInt8}
    (oneShows : one.Shows conf frame) (otherShows : other.Shows conf frame) {start count : Nat}
    (holds : one.Holds start count) {part : Nat} (within : part ≤ count) :
    one.rawMsg.slice start part = other.rawMsg.slice start part := by
  -- A part without bytes is the same in any two calls.
  rcases holds with none_ | received
  · obtain rfl : part = 0 := by omega
    simp
  · rw [oneShows.received] at received
    exact oneShows.slice_eq otherShows (by omega)

/-- Header words of two calls for one frame are the same as long as they were received. -/
theorem Call.Shows.hdrGet_eq {conf : RcvConf} {one other : Call} {frame : Int × List UInt8}
    (oneShows : one.Shows conf frame) (otherShows : other.Shows conf frame) (field : HdrField)
    (within : field.offset + 4 ≤ frame.2.length) :
    hdrGet conf.order one.rawMsg field = hdrGet conf.order other.rawMsg field :=
  hdrGet_congr conf.order field (oneShows.slice_eq otherShows within)

/-- The lengths in a header say where each part of a message is. -/
structure SameLayout (order : ByteOrder) (one other : Block) : Prop where
  size : one.size = other.size
  mtype : hdrGet order one .mtype = hdrGet order other .mtype
  plen : hdrGet order one .plen = hdrGet order other .plen
  len0 : hdrGet order one .len0 = hdrGet order other .len0
  len1 : hdrGet order one .len1 = hdrGet order other .len1
  len2 : hdrGet order one .len2 = hdrGet order other .len2
  len3 : hdrGet order one .len3 = hdrGet order other .len3
  flags : one.get32 order HdrField.flags.offset = other.get32 order HdrField.flags.offset

/-- Two calls for one frame whose lengths were received have the same layout. -/
theorem Call.Shows.layout {conf : RcvConf} {one other : Call} {frame : Int × List UInt8}
    (oneShows : one.Shows conf frame) (otherShows : other.Shows conf frame)
    (lengths : HdrField.len3.offset + 4 ≤ frame.2.length) :
    SameLayout conf.order one.rawMsg other.rawMsg := by
  -- The header fields are within the bytes received, and the sizes are those of the frame.
  have words : ∀ field : HdrField, field.offset ≤ HdrField.len3.offset →
      hdrGet conf.order one.rawMsg field = hdrGet conf.order other.rawMsg field :=
    fun field before => oneShows.hdrGet_eq otherShows field (by omega)
  refine ⟨?_, words _ (by decide), words _ (by decide), words _ (by decide), words _ (by decide),
    words _ (by decide), words _ (by decide), ?_⟩
  · have first := oneShows.size
    have second := otherShows.size
    rw [oneShows.msgSize] at first
    rw [otherShows.msgSize] at second
    omega
  · have before : HdrField.flags.offset ≤ HdrField.len3.offset := by decide
    rw [Block.get32, Block.get32, oneShows.slice_eq otherShows (by omega)]

section
variable {order : ByteOrder} {one other : Block}

/-- Where the trace data starts is a matter of the layout. -/
theorem SameLayout.traceAddr (same : SameLayout order one other) :
    traceAddr order one = traceAddr order other := by
  rw [Rmr.traceAddr, Rmr.traceAddr, same.len0]

/-- Where data 1 starts is a matter of the layout. -/
theorem SameLayout.data1Addr (same : SameLayout order one other) :
    data1Addr order one = data1Addr order other := by
  rw [Rmr.data1Addr, Rmr.data1Addr, same.traceAddr, same.len1]

/-- Where the payload starts is a matter of the layout. -/
theorem SameLayout.payloadAddr (same : SameLayout order one other) :
    payloadAddr order one = payloadAddr order other := by
  rw [Rmr.payloadAddr, Rmr.payloadAddr, data2Addr, data2Addr, same.data1Addr, same.len2, same.len3]

/-- The length of all headers is a matter of the layout. -/
theorem SameLayout.rmrHdrLen (same : SameLayout order one other) :
    rmrHdrLen order one = rmrHdrLen order other := by
  rw [Rmr.rmrHdrLen, Rmr.rmrHdrLen, same.len0, same.len1, same.len2, same.len3]

/-- Whether the lengths fit is a matter of the layout. -/
theorem SameLayout.lengthsFit (same : SameLayout order one other) (msgSize : Int) :
    lengthsFit order one msgSize ↔ lengthsFit order other msgSize := by
  rw [Rmr.lengthsFit, Rmr.lengthsFit, same.rmrHdrLen, same.plen]

end

/-- A word read as an `int` is never more than the word. -/
theorem toInt_natCast_le (word : Nat) (small : word < 4294967296) : toInt word ≤ word := by
  -- A word that is an `int` is itself, and any other one is above all `int`s.
  by_cases low : (word : Int) ≤ intMax
  · rw [toInt_natCast low]
  · have high := (inInt_toInt word).2
    simp only [intMax] at low high
    omega

/-- Two messages that were given the same fields, whether they are found truncated or not. -/
theorem Mbuf.both_found {order : ByteOrder} {one other : Mbuf} {plen mtype subId alen : Int}
    {onePayload otherPayload : Nat} (spaces : Except Fault Int)
    (payload : ∀ len : Int, len ≤ plen →
      one.tpBuf.slice onePayload len.toNat = other.tpBuf.slice otherPayload len.toNat)
    (trace : one.traceBytes order = other.traceBytes order)
    (data1 : one.data1Bytes order = other.data1Bytes order) :
    Both (fun first second : Mbuf => first.Same order second)
      (do
        let space ← spaces
        let msg := { one with
          len := plen
          allocLen := alen
          payload := onePayload
          mtype := mtype
          subId := subId }
        if space < plen then return { msg with state := .trunc, len := space }
        else return { msg with state := .ok })
      (do
        let space ← spaces
        let msg := { other with
          len := plen
          allocLen := alen
          payload := otherPayload
          mtype := mtype
          subId := subId }
        if space < plen then return { msg with state := .trunc, len := space }
        else return { msg with state := .ok }) := by
  -- The space decides for both alike if the length is cut.
  cases spaces with
  | error fault => exact .fault fault fault
  | ok space =>
    simp only [Bind.bind, Except.bind]
    by_cases truncated : space < plen
    · rw [if_pos truncated, if_pos truncated]
      exact .ok ⟨rfl, rfl, rfl, payload space (by omega), trace, data1⟩
    · rw [if_neg truncated, if_neg truncated]
      exact .ok ⟨rfl, rfl, rfl, payload plen (Int.le_refl _), trace, data1⟩

/-- The fields of two messages of one layout are the same, and an application sees the same of
them when the parts it looks at are the same. -/
theorem Mbuf.refTpbuf_same {order : ByteOrder} {one other : Mbuf}
    (layout : SameLayout order one.tpBuf other.tpBuf)
    (subId : hdrGet order one.tpBuf .subId = hdrGet order other.tpBuf .subId)
    (trace : one.tpBuf.slice (traceAddr order one.tpBuf) (rmrTrLen order one.tpBuf) =
      other.tpBuf.slice (traceAddr order one.tpBuf) (rmrTrLen order one.tpBuf))
    (data1 : one.tpBuf.slice (data1Addr order one.tpBuf) (rmrD1Len order one.tpBuf) =
      other.tpBuf.slice (data1Addr order one.tpBuf) (rmrD1Len order one.tpBuf))
    (payload : ∀ part ≤ hdrGet order one.tpBuf .plen,
      one.tpBuf.slice (payloadAddr order one.tpBuf) part =
        other.tpBuf.slice (payloadAddr order one.tpBuf) part) (alen : Int) :
    Both (fun first second : Mbuf => first.Same order second) (one.refTpbuf order alen)
      (other.refTpbuf order alen) := by
  have upper := toInt_natCast_le _ (hdrGet_lt order one.tpBuf .plen)
  have traceSame : one.traceBytes order = other.traceBytes order := by
    rw [Mbuf.traceBytes, Mbuf.traceBytes, trace, layout.traceAddr, rmrTrLen, rmrTrLen, layout.len1]
  have data1Same : one.data1Bytes order = other.data1Bytes order := by
    rw [Mbuf.data1Bytes, Mbuf.data1Bytes, data1, layout.data1Addr, rmrD1Len, rmrD1Len, layout.len2]
  -- Whatever length is settled on, it is no more than the header tells of.
  have payloadSame : ∀ len : Int, len ≤ toInt (hdrGet order one.tpBuf .plen) →
      one.tpBuf.slice (payloadAddr order one.tpBuf) len.toNat =
        other.tpBuf.slice (payloadAddr order other.tpBuf) len.toNat := by
    intro len short
    rw [← layout.payloadAddr]
    exact payload _ (by omega)
  unfold Mbuf.refTpbuf
  rw [← layout.rmrHdrLen, ← layout.plen, ← layout.mtype, ← subId]
  exact Mbuf.both_found _ payloadSame traceSame data1Same

/-- Two calls for one frame, of which enough was received, go the same way. -/
theorem buf2mbuf_same {conf : RcvConf} {one other : Call} {frame : Int × List UInt8}
    (oneShows : one.Shows conf frame) (otherShows : other.Shows conf frame)
    (solid : one.Solid conf.order) :
    Both (Delivery.Same conf.order) (buf2mbuf conf one.rawMsg one.msgSize one.fd)
      (buf2mbuf conf other.rawMsg other.msgSize other.fd) := by
  obtain ⟨lengths, told⟩ := solid
  rw [oneShows.received] at lengths
  have layout := oneShows.layout otherShows (by omega)
  have sizes : one.msgSize = other.msgSize := oneShows.msgSize.trans otherShows.msgSize.symm
  have fds : one.fd = other.fd := oneShows.fd.trans otherShows.fd.symm
  unfold buf2mbuf
  rw [← sizes, ← fds]
  by_cases fit : lengthsFit conf.order one.rawMsg one.msgSize
  · -- All that the header tells of was received.
    have fitOther := (layout.lengthsFit one.msgSize).mp fit
    obtain ⟨header, trace, data1, payload⟩ := told fit
    rw [oneShows.received] at header
    have subId := oneShows.hdrGet_eq otherShows .subId (by omega)
    rw [if_neg (not_not.mpr fit), if_neg (not_not.mpr fitOther)]
    refine Both.bind (@Mbuf.refTpbuf_same conf.order
      { Mbuf.alloc one.rawMsg .unset with rtsFd := one.fd, huge := conf.usual < one.msgSize }
      { Mbuf.alloc other.rawMsg .unset with rtsFd := one.fd, huge := conf.usual < one.msgSize }
      layout subId (oneShows.holds_eq otherShows trace (Nat.le_refl _))
      (oneShows.holds_eq otherShows data1 (Nat.le_refl _))
      (fun part within => oneShows.holds_eq otherShows payload within) one.msgSize) ?_
    intro first second _ same
    rw [← layout.flags]
    by_cases called : one.rawMsg.get32 conf.order HdrField.flags.offset &&& hflCallMsg ≠ 0
    · rw [if_pos called, if_pos called]
      exact .ok (.normal same)
    rw [if_neg called, if_neg called]
    have d1Len : rmrD1Len conf.order other.rawMsg = rmrD1Len conf.order one.rawMsg :=
      layout.len2.symm
    rw [d1Len, ← layout.data1Addr, ← layout.size]
    by_cases noData : rmrD1Len conf.order one.rawMsg = 0
    · rw [if_pos noData, if_pos noData]
      exact .ok (.normal same)
    rw [if_neg noData, if_neg noData]
    by_cases outside : one.rawMsg.size ≤ data1Addr conf.order one.rawMsg
    · rw [if_pos outside, if_pos outside]
      exact .fault _ _
    -- The call id is a byte of data 1, and was received with it.
    have callId : one.rawMsg.byte (data1Addr conf.order one.rawMsg) =
        other.rawMsg.byte (data1Addr conf.order one.rawMsg) := by
      have first := oneShows.holds_eq otherShows data1 (Nat.one_le_iff_ne_zero.mpr noData)
      exact Block.byte_of_slice first Nat.zero_lt_one
    rw [if_neg outside, if_neg outside, ← callId]
    by_cases unset : one.rawMsg.byte (data1Addr conf.order one.rawMsg) = 0
    · rw [if_pos unset, if_pos unset]
      exact .ok (.normal same)
    · rw [if_neg unset, if_neg unset]
      exact .ok (.chute _ same)
  · have unfit : ¬ lengthsFit conf.order other.rawMsg one.msgSize :=
      fun fits => fit ((layout.lengthsFit one.msgSize).mpr fits)
    rw [if_pos fit, if_pos unfit]
    exact .ok .dropped

/-- Two runs that have delivered the same so far. -/
structure Dlv.Same (conf : RcvConf) (one other : Dlv) : Prop where
  rcv : ∃ stage, one.rcv.Shows conf stage ∧ other.rcv.Shows conf stage
  mring : List.Forall₂ (Mbuf.Same conf.order) one.mring other.mring
  log : List.Forall₂ (Outcome.Same conf.order) one.log other.log

/-- One more in each of two lists that go together. -/
theorem forall₂_snoc {α β : Type*} {Rel : α → β → Prop} {left : List α} {right : List β}
    {one : α} {other : β} (together : List.Forall₂ Rel left right) (last : Rel one other) :
    List.Forall₂ Rel (left ++ [one]) (right ++ [other]) :=
  List.rel_append together (List.Forall₂.cons last List.Forall₂.nil)

/-- Delivering a frame of which enough was received delivers the same. -/
theorem Dlv.Same.deliver {conf : RcvConf} {one other : Dlv} {call otherCall : Call}
    (same : one.Same conf other) (calls : ∃ frame, call.Shows conf frame ∧
      otherCall.Shows conf frame ∧ call.Solid conf.order) :
    Both (Dlv.Same conf) (one.deliver conf call) (other.deliver conf otherCall) := by
  obtain ⟨frame, shows_, otherShows, solid⟩ := calls
  refine Both.bind (buf2mbuf_same shows_ otherShows solid) ?_
  intro delivery otherDelivery _ goes
  cases goes with
  | dropped => exact .ok ⟨same.rcv, same.mring, forall₂_snoc same.log .dropped⟩
  | normal seen =>
    -- Both rings hold as many messages, so both or neither are full.
    have rings := same.mring.length_eq
    by_cases room : one.mring.length < mringRoom
    · simp only [Dlv.queueNormal, if_pos room, if_pos (rings ▸ room)]
      exact .ok ⟨same.rcv, forall₂_snoc same.mring seen, forall₂_snoc same.log (.queued seen)⟩
    · simp only [Dlv.queueNormal, if_neg room, if_neg (rings ▸ room)]
      exact .ok ⟨same.rcv, same.mring, forall₂_snoc same.log .full⟩
  | chute callId seen =>
    exact .ok ⟨same.rcv, same.mring, forall₂_snoc same.log (.chute callId seen)⟩

/-- Two lists that each go with a third one go with each other. -/
theorem forall₂_shared {α β γ : Type*} {Rel : α → γ → Prop} {Other : β → γ → Prop}
    {left : List α} {right : List β} {shared : List γ} (first : List.Forall₂ Rel left shared)
    (second : List.Forall₂ Other right shared) :
    List.Forall₂ (fun one other => one ∈ left ∧ ∃ mid, Rel one mid ∧ Other other mid)
      left right := by
  -- By induction on the first list, which is as long as the third one.
  induction first generalizing right with
  | nil =>
    cases second
    exact List.Forall₂.nil
  | cons related _ ih =>
    cases second with
    | cons otherRelated rest =>
      refine List.Forall₂.cons ⟨by simp, _, related, otherRelated⟩ ((ih rest).imp ?_)
      intro one other both
      exact ⟨by simp [both.1], both.2⟩

/-- Every frame that is handed over in a run was received far enough. -/
def Dlv.Solid (conf : RcvConf) (left : Leftover) (steps : List DlvStep) : Prop :=
  ∀ before step after dlv next, steps = before ++ .thread step :: after →
    Dlv.run conf left before = .ok dlv → dlv.rcv.step conf left step = .ok next →
    ∀ call ∈ dlv.rcv.handed next, call.Solid conf.order

/-- One more step of two runs that have delivered the same. -/
theorem Dlv.Same.step {conf : RcvConf} {left right : Leftover} {one other : Dlv} {step : DlvStep}
    (same : one.Same conf other)
    (solid : ∀ threadStep next, step = .thread threadStep →
      one.rcv.step conf left threadStep = .ok next →
      ∀ call ∈ one.rcv.handed next, call.Solid conf.order) :
    Both (Dlv.Same conf) (one.step conf left step) (other.step conf right step) := by
  cases step with
  | take => exact .ok ⟨same.rcv, List.forall₂_drop 1 same.mring, same.log⟩
  | thread step =>
    obtain ⟨stage, shows_, otherShows⟩ := same.rcv
    -- The threads of both runs do to their memory what is done to the connections.
    refine Both.bind ((shows_.step left step).both (otherShows.step right step)) ?_
    intro next otherNext stepped both
    obtain ⟨nextStage, nextShows, nextOtherShows⟩ := both
    have counts : one.rcv.calls.length = other.rcv.calls.length :=
      shows_.calls.length_eq.trans otherShows.calls.length_eq.symm
    have oneHanded : List.Forall₂ (Call.Shows conf) (one.rcv.handed next)
        (nextStage.frames.drop one.rcv.calls.length) := List.forall₂_drop _ nextShows.calls
    have otherHanded : List.Forall₂ (Call.Shows conf) (other.rcv.handed otherNext)
        (nextStage.frames.drop one.rcv.calls.length) := by
      rw [counts]
      exact List.forall₂_drop _ nextOtherShows.calls
    have together : List.Forall₂ (fun call otherCall => ∃ frame, call.Shows conf frame ∧
        otherCall.Shows conf frame ∧ call.Solid conf.order)
        (one.rcv.handed next) (other.rcv.handed otherNext) := by
      refine (forall₂_shared oneHanded otherHanded).imp ?_
      rintro call otherCall ⟨among, frame, callShows, otherCallShows⟩
      exact ⟨frame, callShows, otherCallShows, solid step next rfl stepped call among⟩
    have entered : Dlv.Same conf { one with rcv := next } { other with rcv := otherNext } :=
      ⟨⟨nextStage, nextShows, nextOtherShows⟩, same.mring, same.log⟩
    have keeps : ∀ (one other : Dlv) (call otherCall : Call), one.Same conf other →
        (∃ frame, call.Shows conf frame ∧ otherCall.Shows conf frame ∧ call.Solid conf.order) →
        Both (Dlv.Same conf) (one.deliver conf call) (other.deliver conf otherCall) :=
      fun _ _ _ _ same calls => same.deliver calls
    exact foldlM_both keeps together entered

/-- The same bytes in the same chunks deliver the same messages and drop the same frames, whatever
was left over in the memory they were gathered in, when every frame was received as far as its
header tells. -/
theorem Dlv.run_same_of_solid {conf : RcvConf} {left right : Leftover} {steps : List DlvStep}
    (solid : Dlv.Solid conf left steps) :
    Both (fun one other : Dlv => List.Forall₂ (Outcome.Same conf.order) one.log other.log ∧
        List.Forall₂ (Mbuf.Same conf.order) one.mring other.mring)
      (Dlv.run conf left steps) (Dlv.run conf right steps) := by
  have same : Both (Dlv.Same conf) (Dlv.run conf left steps) (Dlv.run conf right steps) := by
    -- Induction on the run from its end.
    induction steps using List.reverseRecOn with
    | nil =>
      exact .ok ⟨⟨Stage.init, Rcv.init_shows conf, Rcv.init_shows conf⟩, .nil, .nil⟩
    | append_singleton steps last ih =>
      have earlier := ih fun before step after dlv next split =>
        solid before step (after ++ [last]) dlv next (by simp [split])
      unfold Dlv.run at earlier ⊢
      rw [List.foldlM_append, List.foldlM_append]
      refine earlier.bind ?_
      intro one other ran same
      simp only [List.foldlM_cons, List.foldlM_nil, bind_pure]
      refine same.step fun step next isThread stepped => ?_
      exact solid steps step [] one next (by simp [isThread]) ran stepped
  exact same.imp fun both => ⟨both.log, both.mring⟩

instance (call : Call) (start count : Nat) : Decidable (call.Holds start count) :=
  inferInstanceAs (Decidable (_ ∨ _))

instance (order : ByteOrder) (call : Call) : Decidable (call.Solid order) :=
  inferInstanceAs (Decidable (_ ∧ (_ → _)))

/-- Whether every frame that the next step hands over was received far enough. -/
def Dlv.solidNext (conf : RcvConf) (left : Leftover) (before : List DlvStep) (step : RcvStep) :
    Bool :=
  match Dlv.run conf left before with
  | .error _ => true
  | .ok dlv => match dlv.rcv.step conf left step with
    | .error _ => true
    | .ok next => (dlv.rcv.handed next).all fun call => call.Solid conf.order

/-- A run is solid when each of its steps is found to be. -/
theorem Dlv.solid_of_next {conf : RcvConf} {left : Leftover} {steps : List DlvStep}
    (found : ∀ before step after, steps = before ++ .thread step :: after →
      Dlv.solidNext conf left before step = true) : Dlv.Solid conf left steps := by
  -- The check looks at all calls that the next step hands over.
  intro before step after dlv next split ran stepped call among
  have all := found before step after split
  simp only [Dlv.solidNext, ran, stepped, List.all_eq_true] at all
  simpa using all call among

/-- A message with an empty payload, no trace data and no data 1, as it is sent. -/
def bareFrame : List UInt8 :=
  (hdrSet .little ((Block.ofList (List.replicate 330 0)).put32 .little 0 330) .len0 280).slice 0 330

/-- A message with an empty payload is the same in any memory. -/
theorem Dlv.run_same_of_solid_bare :
    Dlv.Solid RcvConf.default (fun _ _ => 0) [.thread (.data 7 bareFrame), .thread .pass] ∧
    Both (fun one other : Dlv => List.Forall₂ (Outcome.Same .little) one.log other.log ∧
        List.Forall₂ (Mbuf.Same .little) one.mring other.mring)
      (Dlv.run RcvConf.default (fun _ _ => 0) [.thread (.data 7 bareFrame), .thread .pass])
      (Dlv.run RcvConf.default (fun _ _ => 1) [.thread (.data 7 bareFrame), .thread .pass]) := by
  have solid : Dlv.Solid RcvConf.default (fun _ _ => 0)
      [.thread (.data 7 bareFrame), .thread .pass] := by
    apply Dlv.solid_of_next
    intro before step after split
    -- The step is either the first one or the second one.
    rcases before with _ | ⟨first, _ | ⟨second, others⟩⟩
    · obtain ⟨rfl, _⟩ : RcvStep.data 7 bareFrame = step ∧ _ := by simpa using split
      decide +kernel
    · obtain ⟨rfl, rfl, _⟩ : DlvStep.thread (.data 7 bareFrame) = first ∧
          RcvStep.pass = step ∧ _ := by simpa using split
      decide +kernel
    · simp at split
  exact ⟨solid, Dlv.run_same_of_solid solid⟩

/-- Whether what became of a frame is that it was dropped. -/
def Outcome.isDropped : Outcome → Bool
  | .dropped => true
  | _ => false

/-- A frame of nine bytes becomes a message when the memory was clear, and is dropped when it was
not. -/
theorem Dlv.run_differs_on_short_frame :
    (Dlv.run RcvConf.default (fun _ _ => 0)
      [.thread (.data 7 [9, 0, 0, 0, 0, 0, 0, 0, 0]), .thread .pass]).map
        (fun dlv => dlv.log.map Outcome.isDropped) = .ok [false] ∧
    (Dlv.run RcvConf.default (fun _ _ => 1)
      [.thread (.data 7 [9, 0, 0, 0, 0, 0, 0, 0, 0]), .thread .pass]).map
        (fun dlv => dlv.log.map Outcome.isDropped) = .ok [true] := by
  decide +kernel

end Rmr
