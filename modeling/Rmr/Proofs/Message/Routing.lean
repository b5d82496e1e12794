import Rmr.Message.Exchange
import Rmr.Proofs.Message.Orders
import Rmr.Proofs.Message.Stamp
import Rmr.Proofs.Receive.Refine

/-! Where the messages of an exchange are delivered: requests and plain messages on the ring, and
what is returned of a request in the chute of its caller. -/

namespace Rmr

/-- Where `buf2mbuf` puts a message that it did not drop. -/
def route (order : ByteOrder) (rawMsg : Block) (mbuf : Mbuf) : Except Fault Delivery :=
  if isCall order rawMsg then .ok (.normal mbuf)
  else if rmrD1Len order rawMsg = 0 then .ok (.normal mbuf)
  else if rawMsg.size ≤ data1Addr order rawMsg then .error .range
  else if rawMsg.byte (data1Addr order rawMsg) = 0 then .ok (.normal mbuf)
  else .ok (.chute (rawMsg.byte (data1Addr order rawMsg)) mbuf)

/-- A message that passed the cross-check is routed. -/
theorem buf2mbuf_route {rcvConf : RcvConf} {rawMsg : Block} {msgSize fd : Int} {mbuf : Mbuf}
    (fit : lengthsFit rcvConf.order rawMsg msgSize)
    (made : Mbuf.refTpbuf rcvConf.order { Mbuf.alloc rawMsg .unset with
      rtsFd := fd
      huge := rcvConf.usual < msgSize } msgSize = .ok mbuf) :
    buf2mbuf rcvConf rawMsg msgSize fd = route rcvConf.order rawMsg mbuf := by
  -- The branches of `buf2mbuf` behind the cross-check are those of the route.
  have call : isCall rcvConf.order rawMsg = true ↔
      rawMsg.get32 rcvConf.order HdrField.flags.offset &&& hflCallMsg ≠ 0 := by
    rw [isCall, decide_eq_true_iff]
  unfold buf2mbuf route
  rw [if_neg (not_not.mpr fit)]
  change (Mbuf.refTpbuf rcvConf.order { Mbuf.alloc rawMsg .unset with
    rtsFd := fd
    huge := rcvConf.usual < msgSize } msgSize >>= _) = _
  rw [made]
  change (if rawMsg.get32 rcvConf.order HdrField.flags.offset &&& hflCallMsg ≠ 0 then _ else _) = _
  by_cases called : rawMsg.get32 rcvConf.order HdrField.flags.offset &&& hflCallMsg ≠ 0
  · rw [if_pos called, if_pos (call.mpr called)]
    rfl
  · rw [if_neg called, if_neg fun is => called (call.mp is)]
    rfl

/-- A raw message that a frame was gathered in; what lies behind the frame may be anything. -/
structure Arrived (rcvConf : RcvConf) (frame : List UInt8) (rawMsg : Block) : Prop where
  bytes : rawMsg.slice 0 frame.length = frame
  size : (rawMsg.size : Int) = rcvConf.room frame.length
  fits : (rawMsg.size : Int) ≤ intMax

/-- Something holds of what the receiver of a frame does with it. -/
def Delivers (rcvConf : RcvConf) (frame : List UInt8) (Holds : Delivery → Prop) : Prop :=
  ∀ rawMsg fd, Arrived rcvConf frame rawMsg →
    Yields Holds (buf2mbuf rcvConf rawMsg rawMsg.size fd)

/-- The message is on the ring. -/
def Delivery.IsNormal : Delivery → Prop
  | .normal _ => True
  | .dropped => False
  | .chute _ _ => False

/-- The message is in the chute of a call, with the transaction bytes of the request. -/
def Delivery.Answers (callId : UInt8) (xact : List UInt8) : Delivery → Prop
  | .chute id mbuf => id = callId ∧ mbuf.tpBuf.slice HdrField.xid.offset rmrMaxXid = xact
  | .dropped => False
  | .normal _ => False

/-- Whatever an application makes of the message that it received, and whatever `rmr_rts_msg` sends
of that, answers the call. -/
def Returns (callee : RcvConf) (conf : SendConf) (caller : RcvConf) (callId : UInt8)
    (xact frame : List UInt8) : Prop :=
  ∀ rawMsg fd mbuf, Arrived callee frame rawMsg →
    buf2mbuf callee rawMsg rawMsg.size fd = .ok (.normal mbuf) →
    ∀ left allocs ops final, Draft.replies conf.order left
        ⟨{ mbuf with addSrc := true }, allocs⟩ ops = .ok final →
      0 ≤ final.msg.len → final.msg.len ≤ rmrPayloadSize conf.order final.msg →
      ∀ result responses, rmrRtsFrames conf final result = .ok responses →
        ∀ response ∈ responses, Delivers caller response (Delivery.Answers callId xact)

/-- What the receive thread hands over is such a raw message. -/
theorem Call.Shows.arrived {rcvConf : RcvConf} {call : Call} {frame : Int × List UInt8}
    (shows_ : call.Shows rcvConf frame) (fits : call.msgSize ≤ intMax) :
    Arrived rcvConf frame.2 call.rawMsg where
  bytes := shows_.bytes
  size := shows_.size.trans shows_.msgSize
  fits := shows_.size ▸ fits

/-- In every run of the receive thread, each raw message that is handed over is one that a frame of
its connection was gathered in. -/
theorem run_arrived {rcvConf : RcvConf} {left : Leftover} {steps : List RcvStep} {rcv : Rcv}
    (ran : Rcv.run rcvConf left steps = .ok rcv) {call : Call} (handed : call ∈ rcv.calls)
    (fits : call.msgSize ≤ intMax) :
    ∃ stage frame, Stage.run rcvConf steps = some stage ∧ (call.fd, frame) ∈ stage.frames ∧
      Arrived rcvConf frame call.rawMsg := by
  -- The run over memory shows one over frames, in which each call stands for a frame.
  have agree := Rcv.run_shows rcvConf left steps
  rw [ran] at agree
  cases viewed : Stage.run rcvConf steps with
  | none =>
    rw [viewed] at agree
    cases agree
  | some stage =>
    rw [viewed] at agree
    cases agree with
    | ok shows_ =>
      obtain ⟨place, low, rfl⟩ := List.getElem_of_mem handed
      have low' : place < stage.frames.length := shows_.calls.length_eq ▸ low
      have at_ := shows_.calls.get low low'
      refine ⟨stage, (stage.frames[place]).2, rfl, ?_, at_.arrived fits⟩
      have fd := at_.fd
      rw [List.get_eq_getElem, List.get_eq_getElem] at fd
      rw [fd]
      exact List.getElem_mem low'

/-- A frame can be gathered in a raw message with any byte behind it. -/
theorem Arrived.exists {rcvConf : RcvConf} {frame : List UInt8}
    (fits : rcvConf.room frame.length ≤ intMax) (fill : UInt8) :
    ∃ rawMsg, Arrived rcvConf frame rawMsg ∧ ∀ i, frame.length ≤ i → rawMsg.byte i = fill := by
  -- The raw message is the frame, and from its end on the fill byte.
  have low := rcvConf.usual_low
  have room : (((rcvConf.room frame.length).toNat : Nat) : Int) = rcvConf.room frame.length := by
    rw [RcvConf.room]
    split <;> omega
  refine ⟨⟨(rcvConf.room frame.length).toNat,
    fun i => if i < frame.length then frame.getD i 0 else fill⟩, ⟨?_, room, room ▸ fits⟩, ?_⟩
  · refine (Block.slice_congr fun i within => ?_).trans
      ((Block.ofList_slice frame 0 frame.length (by omega)).trans (by simp))
    show (if 0 + i < frame.length then frame.getD (0 + i) 0 else fill) = frame.getD (0 + i) 0
    rw [if_pos (by omega)]
  · intro i behind
    exact if_neg (by omega)

/-- What a raw message that carries the frame of a message has of it. -/
structure Mbuf.OnWire (order : ByteOrder) (msg : Mbuf) (rawMsg : Block) : Prop where
  lens : rawMsg.slice 246 16 = msg.tpBuf.slice 246 16
  plen : hdrGet order rawMsg .plen = toUint msg.len
  flags : rawMsg.slice 242 4 = msg.tpBuf.slice 242 4
  xact : rawMsg.slice 62 32 = msg.tpBuf.slice 62 32
  data1 : 0 < rmrD1Len order msg.tpBuf → (data1Addr order msg.tpBuf : Int) < msg.totLen order →
    rawMsg.byte (data1Addr order msg.tpBuf) = msg.tpBuf.byte (data1Addr order msg.tpBuf)

section
variable {order : ByteOrder} {conf : SendConf} {rcvConf : RcvConf} {left : Leftover}
  {draft : Draft} {msg other : Mbuf} {rawMsg : Block} {frame : List UInt8}

/-- A message with the same header, trace data and data 1 behind the transport header. -/
structure Mbuf.HasHead (other msg : Mbuf) : Prop where
  payload : other.payload = msg.payload
  head : ∀ {start count : Nat}, 50 ≤ start → start + count ≤ msg.payload →
    other.tpBuf.slice start count = msg.tpBuf.slice start count

/-- A message that also has the same lengths. -/
structure Mbuf.SameHead (other msg : Mbuf) : Prop extends other.HasHead msg where
  allocLen : other.allocLen = msg.allocLen
  len : other.len = msg.len

/-- A message has its own head. -/
theorem Mbuf.SameHead.refl (msg : Mbuf) : msg.SameHead msg := ⟨⟨rfl, fun _ _ => rfl⟩, rfl, rfl⟩

/-- What has the head of what has the head of a message has that of the message. -/
theorem Mbuf.HasHead.trans {third : Mbuf} (second : third.HasHead other)
    (first : other.HasHead msg) : third.HasHead msg where
  -- What is within the head of the first is within the head of the others.
  payload := second.payload.trans first.payload
  head := fun behind within =>
    (second.head behind (first.payload ▸ within)).trans (first.head behind within)

/-- The same goes for the lengths. -/
theorem Mbuf.SameHead.trans {third : Mbuf} (second : third.SameHead other)
    (first : other.SameHead msg) : third.SameHead msg where
  toHasHead := second.toHasHead.trans first.toHasHead
  allocLen := second.allocLen.trans first.allocLen
  len := second.len.trans first.len

/-- The payload starts behind the header proper. -/
theorem Mbuf.Framed.behind (framed : msg.Framed order) : 330 ≤ msg.payload := by
  rw [framed.headed.starts]
  exact (addrs_behind framed.headed.len0).2.2.2

/-- The lengths are in the head. -/
theorem Mbuf.HasHead.lens (has : other.HasHead msg) (framed : msg.Framed order) :
    other.tpBuf.slice 246 16 = msg.tpBuf.slice 246 16 := by
  have behind := framed.behind
  exact has.head (by decide) (by omega)

/-- A message with the same head is as good. -/
theorem Mbuf.SameHead.framed (same : other.SameHead msg) (framed : msg.Framed order) :
    other.Framed order :=
  framed.keep same.allocLen same.payload (same.lens framed)

/-- A message with the same head is sent in as many bytes. -/
theorem Mbuf.SameHead.totLen (same : other.SameHead msg) (framed : msg.Framed order) :
    other.totLen order = msg.totLen order :=
  totLen_congr order same.allocLen same.len (same.lens framed)

/-- Data 1 is in the head, if there is any. -/
theorem Mbuf.Framed.data1_inside (framed : msg.Framed order)
    (some_ : 0 < rmrD1Len order msg.tpBuf) : data1Addr order msg.tpBuf + 1 ≤ msg.payload := by
  have starts := framed.headed.starts
  rw [payloadAddr, data2Addr] at starts
  rw [rmrD1Len] at some_
  omega

/-- Data 1 starts with the same byte. -/
theorem Mbuf.HasHead.data1 (has : other.HasHead msg) (framed : msg.Framed order)
    (some_ : 0 < rmrD1Len order msg.tpBuf) :
    other.tpBuf.byte (data1Addr order msg.tpBuf) = msg.tpBuf.byte (data1Addr order msg.tpBuf) := by
  have behind := (addrs_behind framed.headed.len0).2.1
  exact Block.byte_of_slice (has.head (by omega) (framed.data1_inside some_)) Nat.one_pos

/-- Where data 1 is, and how much there is of it, is told by the lengths. -/
theorem data1_congr (order : ByteOrder) {next tpBuf : Block}
    (same : next.slice 246 16 = tpBuf.slice 246 16) :
    rmrD1Len order next = rmrD1Len order tpBuf ∧
      data1Addr order next = data1Addr order tpBuf := by
  -- The lengths decide where each part of the header starts.
  obtain ⟨len0, len1, len2, -⟩ := lens_congr order same
  refine ⟨len2, ?_⟩
  rw [data1Addr, data1Addr, traceAddr, traceAddr, len0, len1]

/-- Whether a message is a call is told by the flags. -/
theorem isCall_congr (order : ByteOrder) {next tpBuf : Block}
    (same : next.slice 242 4 = tpBuf.slice 242 4) : isCall order next = isCall order tpBuf := by
  rw [isCall, isCall, Block.get32, Block.get32]
  change decide (word32 order (next.slice 242 4) &&& hflCallMsg ≠ 0) = _
  rw [same]
  rfl

/-- A message that is sent at least with its headers, and whose payload has a length. -/
structure Mbuf.Fit (order : ByteOrder) (msg : Mbuf) : Prop where
  framed : msg.Framed order
  whole : msg.Whole order
  len : InInt msg.len
  nonneg : 0 ≤ msg.len

/-- A message that is alike is as fit. -/
theorem Mbuf.Alike.fit (alike : other.Alike msg) (fit : msg.Fit order) : other.Fit order where
  framed := alike.framed fit.framed
  whole := alike.whole fit.whole
  len := alike.len ▸ fit.len
  nonneg := alike.len ▸ fit.nonneg

/-- A message that goes out in a frame; what is sent is the message or a clone of it. -/
structure Mbuf.Goes (conf : SendConf) (msg : Mbuf) (frame : List UInt8) : Prop
    extends msg.Fit conf.order where
  sent : ∃ carried : Mbuf, carried.SameHead msg ∧ sendMsg conf carried = .ok frame

/-- The frame is as long as the message says. -/
theorem Mbuf.Goes.length (goes : msg.Goes conf frame) :
    (frame.length : Int) = msg.totLen conf.order := by
  -- The frame is cut from the buffer with the length that the message says.
  obtain ⟨carried, same, sent⟩ := goes.sent
  obtain ⟨nonneg, -, rfl⟩ := sendMsg_frame sent
  rw [Block.slice_length, ← same.totLen goes.framed]
  omega

/-- A frame that has all of the header has all that matters of it. -/
theorem Arrived.onWire (arrived : Arrived rcvConf frame rawMsg) (goes : msg.Goes conf frame) :
    msg.OnWire conf.order rawMsg := by
  have framed := goes.framed
  have behind := framed.behind
  have length := goes.length
  have whole := goes.whole
  obtain ⟨carried, same, sent⟩ := goes.sent
  obtain ⟨total, totalIs⟩ : ∃ total, total = (carried.totLen conf.order).toNat := ⟨_, rfl⟩
  obtain ⟨nonneg, -, rfl⟩ := sendMsg_frame sent
  rw [Block.slice_length, ← totalIs] at length
  simp only [Mbuf.Whole, tpHdrLen, mhdrLen] at whole
  have common := arrived.bytes
  rw [Block.slice_length, ← totalIs] at common
  -- Behind the size field stands what `send_msg` prepared.
  have part : ∀ {start count : Nat}, 50 ≤ start → start + count ≤ total →
      rawMsg.slice start count = (prepare conf carried).tpBuf.slice start count := by
    intro start count behind within
    rw [slice_of_common common within]
    exact Block.overlay_slice_outside _ _ _ _ _ (Or.inr (by omega))
  -- Where `send_msg` puts nothing, that is what the message has.
  have kept : ∀ {start count : Nat}, start = 62 ∧ count = 32 ∨ start = 242 ∧ count = 4 ∨
      330 ≤ start → start + count ≤ total → start + count ≤ msg.payload →
      rawMsg.slice start count = msg.tpBuf.slice start count := by
    intro start count apart within inside
    rw [part (by omega) within, prepare_apart (by omega) (by omega) (by omega) (by omega)
      (by omega)]
    exact same.head (by omega) inside
  refine ⟨?_, ?_, kept (by omega) (by omega) (by omega), kept (by omega) (by omega) (by omega),
    fun some_ inside => ?_⟩
  · rw [part (by decide) (by omega), ← same.lens framed]
    exact prepare_lens_slice carried
  · rw [hdrGet_congr conf.order .plen (part (by decide) (by
      simp only [HdrField.offset, tpHdrLen]
      omega)), ← same.len]
    exact (prepare_puts conf carried).2.2
  · have behind := (addrs_behind framed.headed.len0).2.1
    have one : rawMsg.slice (data1Addr conf.order msg.tpBuf) 1 =
        msg.tpBuf.slice (data1Addr conf.order msg.tpBuf) 1 :=
      kept (by omega) (by omega) (framed.data1_inside some_)
    exact Block.byte_of_slice one Nat.one_pos

/-- The length that a message announces, if its frame has all of the header. -/
theorem Mbuf.Whole.total (whole : msg.Whole order) (framed : msg.Framed order)
    (len : InInt msg.len) :
    330 ≤ (msg.payload : Int) + msg.len ∧ (msg.payload : Int) + msg.len ≤ intMax ∧
      msg.totLen order = min ((msg.payload : Int) + msg.len) msg.allocLen := by
  have starts := framed.headed.hdrLen
  have near := framed.near
  obtain ⟨low, high⟩ := len
  simp only [Mbuf.Whole, tpHdrLen, mhdrLen] at whole
  have sum : msg.len + rmrHdrLen order msg.tpBuf + tpHdrLen = (msg.payload : Int) + msg.len := by
    omega
  rw [Mbuf.totLen, sum, toInt_of_toUint] at whole ⊢
  -- As an `int` it is at least the headers, so it did not wrap.
  have large : 330 ≤ toInt ((msg.payload : Int) + msg.len) := by
    split at whole <;> omega
  simp only [intMin, intMax, tpHdrLen] at low high near
  have inInt : InInt ((msg.payload : Int) + msg.len) := by
    by_contra outside
    simp only [InInt, intMin, intMax] at outside
    rw [toInt_turn (by simp only [InInt, intMin, intMax]; omega)] at large
    omega
  rw [toInt_of_inInt inInt] at large ⊢
  refine ⟨large, inInt.2, ?_⟩
  split <;> omega

/-- The cross-check compares the length that a message announces with the size of what it was
gathered in. -/
theorem Mbuf.OnWire.fit_iff (onWire : msg.OnWire order rawMsg) (framed : msg.Framed order)
    (low : 0 ≤ (msg.payload : Int) + msg.len) (high : (msg.payload : Int) + msg.len ≤ intMax)
    {msgSize : Int} (held : 0 ≤ msgSize) (small : msgSize ≤ intMax) :
    lengthsFit order rawMsg msgSize ↔ (msg.payload : Int) + msg.len ≤ msgSize := by
  -- The sums of the cross-check are below `2^32`, as the payload's end is an `int`.
  have starts := framed.headed.hdrLen
  have sum : (rmrHdrLen order rawMsg : Int) + tpHdrLen + hdrGet order rawMsg .plen =
      (msg.payload : Int) + toUint msg.len := by
    rw [rmrHdrLen_congr order onWire.lens, onWire.plen]
    omega
  have total := toUint_of_nonneg (n := (msg.payload : Int) + msg.len)
    ⟨by simp only [intMin]; omega, high⟩ low
  have size := toUint_of_nonneg (n := msgSize) ⟨by simp only [intMin]; omega, small⟩ held
  rw [lengthsFit, sum, toUint_add_toUint]
  omega

/-- A message that announces more than its frame was gathered in is dropped. -/
theorem Arrived.dropped (arrived : Arrived rcvConf frame rawMsg)
    (same : rcvConf.order = conf.order) (goes : msg.Goes conf frame) {fd : Int}
    (more : rcvConf.room (msg.totLen conf.order) < (msg.payload : Int) + msg.len) :
    buf2mbuf rcvConf rawMsg rawMsg.size fd = .ok .dropped := by
  -- The announced end lies beyond the raw message, which the cross-check is about.
  obtain ⟨low, high, -⟩ := goes.whole.total goes.framed goes.len
  have onWire := arrived.onWire goes
  rw [← goes.length, ← arrived.size] at more
  have outside : ¬ lengthsFit rcvConf.order rawMsg rawMsg.size := by
    rw [same, onWire.fit_iff goes.framed (by omega) high (by omega) arrived.fits]
    omega
  rw [buf2mbuf, if_pos outside]

/-- A message that announces no more is routed. -/
theorem Arrived.taken (arrived : Arrived rcvConf frame rawMsg)
    (same : rcvConf.order = conf.order) (goes : msg.Goes conf frame) {fd : Int}
    (fits : (msg.payload : Int) + msg.len ≤ rcvConf.room (msg.totLen conf.order)) :
    ∃ mbuf : Mbuf, mbuf.tpBuf = rawMsg ∧ mbuf.payload = msg.payload ∧
      mbuf.allocLen = rawMsg.size ∧
      buf2mbuf rcvConf rawMsg rawMsg.size fd = route conf.order rawMsg mbuf := by
  -- The announced end lies in the raw message, so that the payload is not cut either.
  obtain ⟨low, high, -⟩ := goes.whole.total goes.framed goes.len
  have onWire := arrived.onWire goes
  have starts := goes.framed.headed.hdrLen
  have near := goes.framed.near
  have headed := goes.framed.headed.congr onWire.lens
  have small := arrived.fits
  have len := goes.len
  rw [← goes.length, ← arrived.size] at fits
  have fit : lengthsFit rcvConf.order rawMsg rawMsg.size := by
    rw [same]
    exact (onWire.fit_iff goes.framed (by omega) high (by omega) small).mpr fits
  simp only [intMax, tpHdrLen] at near small starts
  have made := Mbuf.refTpbuf_ok rcvConf.order
    { Mbuf.alloc rawMsg .unset with
      rtsFd := fd
      huge := rcvConf.usual < rawMsg.size }
    rawMsg.size msg.len ((msg.payload : Int) - 50)
    (by
      show toInt (hdrGet rcvConf.order rawMsg .plen) = _
      rw [same, onWire.plen]
      exact toInt_toUint len)
    (by
      show toInt (rmrHdrLen rcvConf.order rawMsg) = _
      rw [same, rmrHdrLen_congr _ onWire.lens, toInt_natCast (by simp only [intMax]; omega)]
      omega)
    (by simp only [InInt, intMin, intMax] at len ⊢; omega) (by omega)
  have routed := buf2mbuf_route fit made
  rw [same] at routed
  exact ⟨_, rfl, headed.starts.symm, rfl, routed⟩

/-- A clone has the head of the message. -/
theorem cloneMsg_sameHead {nm : Draft} (framed : draft.msg.Framed order)
    (cloned : cloneMsg order left draft = .ok nm) : nm.msg.SameHead draft.msg := by
  obtain ⟨allocLen, payload, len, -, -⟩ := cloneMsg_alike framed cloned
  refine ⟨⟨payload, ?_⟩, allocLen, len⟩
  unfold cloneMsg at cloned
  obtain ⟨hdr, hdrIs, cloned⟩ := bind_eq_ok.mp cloned
  dsimp only at cloned
  split at cloned
  · cases cloned
  · obtain ⟨filled, filledIs, made⟩ := bind_eq_ok.mp cloned
    cases made
    generalize countIs : toUint ((rmrHdrLen order draft.msg.tpBuf : Int) +
      rmrTrLen order draft.msg.tpBuf + rmrD1Len order draft.msg.tpBuf +
      rmrD2Len order draft.msg.tpBuf) = count at hdrIs
    obtain ⟨-, rfl⟩ := Block.memcpy_inside hdrIs
    obtain ⟨-, rfl⟩ := Block.memcpy_inside filledIs
    have counted := cloneCount_head framed.headed framed.near
    rw [countIs] at counted
    simp only [tpHdrLen] at counted
    dsimp only at payload
    intro start rest behind within
    -- The payload is copied behind all that.
    rw [Block.overlay_slice_outside _ _ _ _ _ (Or.inl (by rw [payload]; exact within))]
    obtain ⟨skip, rfl⟩ := Nat.exists_eq_add_of_le behind
    exact Block.overlay_slice_part _ 50 _ 50 count skip rest (by omega)

/-- A frame that is sent is that of the message. -/
theorem trySendFrames_from {result : SendResult} {frames : List (List UInt8)}
    (sent : trySendFrames conf draft result = .ok frames) :
    ∀ frame ∈ frames, ∃ carried : Mbuf, carried.SameHead draft.msg ∧
      sendMsg conf carried = .ok frame := by
  -- Only a send that went well puts a frame on the wire, that of the message itself.
  obtain ⟨bytes, bytesIs, made⟩ := bind_eq_ok.mp sent
  cases made
  intro frame is
  cases result with
  | ok =>
    rw [List.mem_singleton.mp is]
    exact ⟨draft.msg, Mbuf.SameHead.refl _, bytesIs⟩
  | blocked => cases is
  | failed => cases is

/-- Each frame that a fan-out sends is that of a message with the same head. -/
theorem fanOutFrames_from {groups : List (Option SendResult)} {frames : List (List UInt8)}
    (framed : draft.msg.Framed conf.order)
    (sent : fanOutFrames conf left draft groups = .ok frames) :
    ∀ frame ∈ frames, ∃ carried : Mbuf, carried.SameHead draft.msg ∧
      sendMsg conf carried = .ok frame := by
  -- By induction on the groups: all but the last are sent a clone, which has the same head.
  fun_induction fanOutFrames conf left draft groups generalizing frames with
  | case1 draft =>
    cases sent
    rintro _ ⟨⟩
  | case2 draft groups ih =>
    intro frame is
    obtain ⟨carried, same, carriedIs⟩ := ih (framed.keep rfl rfl rfl) sent frame is
    exact ⟨carried, ⟨⟨same.payload, same.head⟩, same.allocLen, same.len⟩, carriedIs⟩
  | case3 draft result => exact trySendFrames_from sent
  | case4 draft result groups more ih =>
    obtain ⟨clone, cloneIs, sent⟩ := bind_eq_ok.mp sent
    obtain ⟨now, nowIs, sent⟩ := bind_eq_ok.mp sent
    obtain ⟨later, laterIs, made⟩ := bind_eq_ok.mp sent
    cases made
    have head := cloneMsg_sameHead framed cloneIs
    intro frame is
    rcases List.mem_append.mp is with first | rest
    · exact trySendFrames_from nowIs frame first
    · obtain ⟨carried, same, carriedIs⟩ :=
        ih clone (head.framed framed) laterIs frame rest
      exact ⟨carried, same.trans head, carriedIs⟩

end

end Rmr
