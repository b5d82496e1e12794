import Mathlib.Data.Nat.Bitwise
import Rmr.Proofs.Message.Routing

/-! A call between two processes: the request, what is returned of it, and messages that are no
calls. -/

namespace Rmr

/-- The call flag is the third bit of the flags. -/
theorem and_hflCallMsg (flags : Nat) : flags &&& hflCallMsg = flags / 4 % 2 * 4 := by
  -- The flag is the bit of weight 4, which is there or not.
  have bit : flags &&& 2 ^ 2 = (flags.testBit 2).toNat * 2 ^ 2 := Nat.and_two_pow flags 2
  rw [Nat.testBit_eq_decide_div_mod_eq] at bit
  refine bit.trans ?_
  rcases Nat.mod_two_eq_zero_or_one (flags / 4) with even | odd
  · rw [even]
    rfl
  · rw [odd]
    rfl

section
variable {order : ByteOrder} {conf : SendConf} {rcvConf : RcvConf} {left : Leftover}
  {draft next : Draft} {msg request silent : Mbuf} {callId : UInt8} {frames : List (List UInt8)}

/-- Flags that are put into the header tell whether it is that of a call. -/
theorem isCall_put (order : ByteOrder) (tpBuf : Block) {flags : Nat} (small : flags < 4294967296) :
    isCall order (tpBuf.put32 order HdrField.flags.offset flags) =
      decide (flags &&& hflCallMsg ≠ 0) := by
  rw [isCall, Block.get32, Block.put32_slice, word32_bytes32 order small]

/-- `mt_call` puts the flag on. -/
theorem markCall_isCall (msg : Mbuf) : isCall order (msg.markCall order).tpBuf = true := by
  -- A bit that was put on with an or is still there under the mask.
  have small : msg.tpBuf.get32 order HdrField.flags.offset ||| hflCallMsg < 2 ^ 32 :=
    Nat.or_lt_two_pow (Block.get32_lt _ _ _) (by decide)
  have on : (msg.tpBuf.get32 order HdrField.flags.offset ||| hflCallMsg) &&& hflCallMsg ≠ 0 := by
    rw [Nat.and_or_distrib_right]
    exact fun off => absurd (Nat.or_eq_zero_iff.mp off).2 (by decide)
  rw [Mbuf.markCall, isCall_put _ _ small]
  exact decide_eq_true on

/-- The other functions put it off. -/
theorem unmarkCall_isCall (msg : Mbuf) : isCall order (msg.unmarkCall order).tpBuf = false := by
  have low := Block.get32_lt order msg.tpBuf HdrField.flags.offset
  rw [Mbuf.unmarkCall, isCall_put _ _ (by omega), and_hflCallMsg, and_hflCallMsg]
  refine decide_eq_false fun on => on ?_
  omega

/-- A request that `mt_call` made of a message. -/
structure Mbuf.Requested (order : ByteOrder) (msg : Mbuf) (callId : UInt8) (request : Mbuf) :
    Prop where
  alike : request.Alike msg
  call : isCall order request.tpBuf = true
  data1 : request.tpBuf.byte (data1Addr order request.tpBuf) = callId
  xact : request.tpBuf.slice 62 32 = msg.tpBuf.slice 62 32

/-- A byte that is put at the start of data 1 is there. -/
theorem overlay_byte (tpBuf : Block) (start : Nat) (byte : UInt8) :
    (tpBuf.overlay start (Block.ofList [byte]) 0 1).byte start = byte := by
  have one : (tpBuf.overlay start (Block.ofList [byte]) 0 1).slice start 1 =
      (Block.ofList [byte]).slice 0 1 := Block.overlay_slice_inside _ _ _ _ _
  exact Block.byte_of_slice one Nat.one_pos

/-- Putting flags into the header leaves all but the flags alone. -/
theorem putFlags_apart (tpBuf : Block) (flags : Nat) {start count : Nat}
    (apart : start + count ≤ 242 ∨ 246 ≤ start) :
    (tpBuf.put32 order HdrField.flags.offset flags).slice start count = tpBuf.slice start count :=
  Block.put32_slice_outside _ _ _ _ apart

/-- `mt_call` makes such a request. -/
theorem request_requested (framed : msg.Framed order)
    (made : msg.request order callId = .ok request) : msg.Requested order callId request := by
  -- The flag is in the header, and the call id in data 1 behind it.
  have alike := request_alike framed made
  have place := (data1_congr order alike.keeps.lens).2
  obtain ⟨filled, filledIs, made⟩ := bind_eq_ok.mp made
  cases made
  obtain ⟨-, rfl⟩ := Block.memcpy_inside filledIs
  have marked : data1Addr order (msg.markCall order).tpBuf = data1Addr order msg.tpBuf :=
    (data1_congr order (putFlags_apart _ _ (Or.inr (by decide)))).2
  have behind := (addrs_behind framed.headed.len0).2.1
  rw [← marked] at behind
  refine ⟨alike, ?_, ?_, ?_⟩
  · rw [isCall_congr order (Block.overlay_slice_outside _ _ _ _ _ (Or.inl (by omega)))]
    exact markCall_isCall msg
  · rw [place, ← marked]
    exact overlay_byte _ _ _
  · exact (Block.overlay_slice_outside _ _ _ _ _ (Or.inl (by omega))).trans
      (putFlags_apart _ _ (Or.inl (by decide)))

/-- A message with no call id in data 1, and with the call flag on or off. -/
structure Mbuf.Silenced (order : ByteOrder) (msg : Mbuf) (call : Bool) (silent : Mbuf) : Prop where
  alike : silent.Alike msg
  call : isCall order silent.tpBuf = call
  data1 : silent.tpBuf.byte (data1Addr order silent.tpBuf) = 0

/-- Blotting out the call id leaves the flag as it is. -/
theorem blotCallId_silenced (framed : msg.Framed order)
    (made : msg.blotCallId order = .ok silent) :
    msg.Silenced order (isCall order msg.tpBuf) silent := by
  -- Data 1 lies behind the flags, so that writing a zero there keeps them.
  have alike := blotCallId_alike framed made
  have place := (data1_congr order alike.keeps.lens).2
  obtain ⟨filled, filledIs, made⟩ := bind_eq_ok.mp made
  cases made
  obtain ⟨-, rfl⟩ := Block.memcpy_inside filledIs
  have behind := (addrs_behind framed.headed.len0).2.1
  refine ⟨alike, ?_, ?_⟩
  · exact isCall_congr order (Block.overlay_slice_outside _ _ _ _ _ (Or.inl (by omega)))
  · rw [place]
    exact overlay_byte _ _ _

/-- What `rmr_send_msg` sends is such a message with the flag off. -/
theorem sendable_silenced (framed : msg.Framed order)
    (made : (msg.unmarkCall order).blotCallId order = .ok silent) :
    msg.Silenced order false silent := by
  -- The call flag is put off first, then the call id.
  have unmarked := unmarkCall_alike order msg
  obtain ⟨alike, call, data1⟩ := blotCallId_silenced (unmarked.framed framed) made
  exact ⟨alike.trans unmarked, call.trans (unmarkCall_isCall msg), data1⟩

/-- Each frame of `mt_call` is that of a request, where that holds of the function that sends it. -/
theorem mtCallFrames_goes {send : Draft → Except Fault (List (List UInt8))}
    (fit : draft.msg.Fit conf.order)
    (sends : ∀ {draft frames}, draft.msg.Framed conf.order → send draft = .ok frames →
      ∀ frame ∈ frames, ∃ carried : Mbuf, carried.SameHead draft.msg ∧
        sendMsg conf carried = .ok frame)
    (sent : mtCallFrames conf.order draft callId send = .ok frames) :
    ∀ frame ∈ frames, ∃ request, draft.msg.Requested conf.order callId request ∧
      request.Goes conf frame := by
  -- Every frame is sent from the request, which is alike to the message.
  obtain ⟨request, requestIs, sent⟩ := bind_eq_ok.mp sent
  have requested := request_requested fit.framed requestIs
  intro frame is
  have goes := sends (by exact requested.alike.framed fit.framed) sent frame is
  exact ⟨request, requested, requested.alike.fit fit, goes⟩

/-- Each frame of a call is that of a request. -/
theorem Calling.frames_goes {calling : Calling} (fit : draft.msg.Fit conf.order)
    (sent : calling.frames conf left draft = .ok frames) :
    ∀ frame ∈ frames, ∃ request, draft.msg.Requested conf.order calling.callId request ∧
      request.Goes conf frame := by
  have nothing : Except.ok (ε := Fault) ([] : List (List UInt8)) = .ok frames →
      ∀ frame ∈ frames, ∃ request, draft.msg.Requested conf.order calling.callId request ∧
        request.Goes conf frame := by
    intro none_
    cases none_
    rintro _ ⟨⟩
  cases calling with
  | call groups => exact mtCallFrames_goes fit fanOutFrames_from sent
  | mtCall callId groups =>
    rw [Calling.frames] at sent
    split at sent
    · exact nothing sent
    · exact mtCallFrames_goes fit fanOutFrames_from sent
  | whCall callId wormhole =>
    cases wormhole with
    | noneOpen => exact nothing sent
    | invalid => exact nothing sent
    | open_ result =>
      rw [Calling.frames] at sent
      split at sent
      · cases sent
      · -- The state of the message does not matter.
        have fit : ({ draft.msg with state := .ok } : Mbuf).Fit conf.order :=
          ⟨fit.framed.keep rfl rfl rfl, fit.whole, fit.len, fit.nonneg⟩
        have goes := mtCallFrames_goes (by exact fit) (fun _ sent => trySendFrames_from sent) sent
        intro frame is
        obtain ⟨request, requested, goes⟩ := goes frame is
        obtain ⟨alike, call, data1, xact⟩ := requested
        exact ⟨request, ⟨⟨alike.allocLen, alike.payload, alike.len, alike.addSrc, alike.keeps⟩,
          call, data1, xact⟩, goes⟩

/-- Each frame of `rmr_send_msg` is that of a message with no call id, and with the flag off. -/
theorem rmrSendFrames_goes {groups : List (Option SendResult)} (fit : draft.msg.Fit conf.order)
    (sent : rmrSendFrames conf left draft groups = .ok frames) :
    ∀ frame ∈ frames, ∃ silent, draft.msg.Silenced conf.order false silent ∧
      silent.Goes conf frame := by
  -- Every frame is sent from the silenced message, which is alike to the one at hand.
  obtain ⟨silent, silentIs, sent⟩ := bind_eq_ok.mp sent
  have silenced := sendable_silenced fit.framed silentIs
  intro frame is
  have goes := fanOutFrames_from (by exact silenced.alike.framed fit.framed) sent frame is
  exact ⟨silent, silenced, silenced.alike.fit fit, goes⟩

/-- Each frame of `rmr_wh_send_msg` is that of a message with no call id. -/
theorem rmrWhSendFrames_goes {wormhole : Wormhole} (fit : draft.msg.Fit conf.order)
    (sent : rmrWhSendFrames conf draft wormhole = .ok frames) :
    ∀ frame ∈ frames, ∃ silent,
      draft.msg.Silenced conf.order (isCall conf.order draft.msg.tpBuf) silent ∧
        silent.Goes conf frame := by
  -- The cases are those of the wormhole; only an open one sends, after the call id is blotted out.
  cases wormhole with
  | noneOpen =>
    cases sent
    rintro _ ⟨⟩
  | invalid =>
    cases sent
    rintro _ ⟨⟩
  | open_ result =>
    obtain ⟨silent, silentIs, sent⟩ := bind_eq_ok.mp sent
    obtain ⟨alike, call, data1⟩ :=
      blotCallId_silenced (by exact fit.framed.keep rfl rfl rfl) silentIs
    have alike : silent.Alike draft.msg :=
      ⟨alike.allocLen, alike.payload, alike.len, alike.addSrc, alike.keeps⟩
    intro frame is
    exact ⟨silent, ⟨alike, call, data1⟩, alike.fit fit, trySendFrames_from sent frame is⟩

/-- A call, or a message with no data 1 or with no call id in it, is for the ring. -/
theorem route_normal {rawMsg : Block} {mbuf : Mbuf}
    (mute : isCall order rawMsg = true ∨ rmrD1Len order rawMsg = 0 ∨
      data1Addr order rawMsg < rawMsg.size ∧ rawMsg.byte (data1Addr order rawMsg) = 0) :
    route order rawMsg mbuf = .ok (.normal mbuf) := by
  -- The branches of the route in their order: a call, no data 1, and a call id of zero.
  unfold route
  split
  · rfl
  split
  · rfl
  rename_i off some_
  obtain ⟨inside, none_⟩ := (mute.resolve_left off).resolve_left some_
  rw [if_neg (by omega), if_pos none_]

/-- Any other message is for the chute that its call id names. -/
theorem route_chute {rawMsg : Block} {mbuf : Mbuf} (off : isCall order rawMsg = false)
    (some_ : 0 < rmrD1Len order rawMsg) (inside : data1Addr order rawMsg < rawMsg.size)
    (id : rawMsg.byte (data1Addr order rawMsg) = callId) (named : callId ≠ 0) :
    route order rawMsg mbuf = .ok (.chute callId mbuf) := by
  -- None of the tests in front of the look at the call id sends the message elsewhere.
  unfold route
  rw [if_neg (by rw [off]; exact Bool.false_ne_true), if_neg (by omega), if_neg (by omega), id,
    if_neg named]

/-- A raw message has all of the frame. -/
theorem Arrived.holds {frame : List UInt8} {rawMsg : Block}
    (arrived : Arrived rcvConf frame rawMsg) : frame.length ≤ rawMsg.size := by
  have size := arrived.size
  unfold RcvConf.room at size
  split at size <;> omega

/-- Whether a message that is sent with no call id is queued on the ring of whoever receives it: it
announces no more than its frame is gathered in, and data 1 is in the frame if there is any and the
message is no call. -/
def Mbuf.Queues (order : ByteOrder) (rcvConf : RcvConf) (call : Bool) (msg : Mbuf) : Prop :=
  rcvConf.room (msg.totLen order) ≤ intMax →
    (msg.payload : Int) + msg.len ≤ rcvConf.room (msg.totLen order) ∧
      (call = true ∨ rmrD1Len order msg.tpBuf = 0 ∨
        (data1Addr order msg.tpBuf : Int) < msg.totLen order)

/-- It is queued exactly if so. -/
theorem Mbuf.Silenced.delivers {call : Bool} {frame : List UInt8}
    (silenced : msg.Silenced conf.order call silent) (goes : silent.Goes conf frame)
    (same : rcvConf.order = conf.order) :
    Delivers rcvConf frame Delivery.IsNormal ↔ msg.Queues conf.order rcvConf call := by
  obtain ⟨alike, callIs, data1⟩ := silenced
  obtain ⟨d1Len, place⟩ := data1_congr conf.order alike.keeps.lens
  have totLen := totLen_congr conf.order alike.allocLen alike.len alike.keeps.lens
  have length := goes.length
  have nonneg := goes.nonneg
  rw [Mbuf.Queues, ← alike.payload, ← alike.len, ← totLen, ← d1Len, ← place]
  constructor
  · intro delivers takes
    rw [← length] at takes
    obtain ⟨rawMsg, arrived, fill⟩ := Arrived.exists takes 1
    have normal := delivers rawMsg 0 arrived
    by_cases more : rcvConf.room (silent.totLen conf.order) < (silent.payload : Int) + silent.len
    · exact (normal.of_ok (arrived.dropped same goes more)).elim
    · have fits := Int.not_lt.mp more
      refine ⟨fits, ?_⟩
      obtain ⟨mbuf, -, -, -, routed⟩ := arrived.taken same goes fits
      by_contra outside
      obtain ⟨off, some_, behind⟩ : call = false ∧ rmrD1Len conf.order silent.tpBuf ≠ 0 ∧
          silent.totLen conf.order ≤ data1Addr conf.order silent.tpBuf := by
        simpa only [not_or, Bool.not_eq_true, not_lt] using outside
      have onWire := arrived.onWire goes
      obtain ⟨d1Len, place⟩ := data1_congr conf.order onWire.lens
      have inside := goes.framed.data1_inside (Nat.pos_of_ne_zero some_)
      have within : (data1Addr conf.order silent.tpBuf : Int) < rawMsg.size := by
        have before : (data1Addr conf.order silent.tpBuf : Int) < silent.payload := by
          exact_mod_cast inside
        rw [arrived.size, length]
        exact before.trans_le ((Int.le_add_of_nonneg_right nonneg).trans fits)
      -- Behind the frame there happens to be a call id.
      have chute : route conf.order rawMsg mbuf = .ok (.chute 1 mbuf) := by
        refine route_chute ?_ ?_ ?_ ?_ (by decide)
        · rw [isCall_congr _ onWire.flags, callIs, off]
        · rw [d1Len]
          exact Nat.pos_of_ne_zero some_
        · rw [place]
          exact Int.ofNat_lt.mp within
        · rw [place]
          exact fill _ (Int.ofNat_le.mp (length ▸ behind))
      exact (normal.of_ok (routed.trans chute)).elim
  · intro queues rawMsg fd arrived
    have holds := arrived.holds
    obtain ⟨fits, quiet⟩ := queues (by rw [← length, ← arrived.size]; exact arrived.fits)
    obtain ⟨mbuf, -, -, -, routed⟩ := arrived.taken same goes fits
    have onWire := arrived.onWire goes
    obtain ⟨d1Len, place⟩ := data1_congr conf.order onWire.lens
    have normal : route conf.order rawMsg mbuf = .ok (.normal mbuf) := by
      apply route_normal
      rw [isCall_congr _ onWire.flags, callIs, d1Len, place]
      rcases quiet with call | none_ | inside
      · exact .inl call
      · exact .inr (.inl none_)
      · by_cases some_ : rmrD1Len conf.order silent.tpBuf = 0
        · exact .inr (.inl some_)
        · exact .inr (.inr ⟨by omega, (onWire.data1 (by omega) inside).trans data1⟩)
    exact Yields.intro (routed.trans normal) trivial

/-- What an application makes of a message that it received: the head is the same, and the buffer is
no shorter than the head. -/
structure Mbuf.Answering (msg first : Mbuf) : Prop extends msg.HasHead first where
  inInt : InInt msg.allocLen
  room : (msg.payload : Int) ≤ msg.allocLen

/-- Its header leads to its payload. -/
theorem Mbuf.Answering.framed {first : Mbuf} (answering : msg.Answering first)
    (framed : first.Framed order) : msg.Framed order where
  inInt := answering.inInt
  headed := (framed.headed.congr (answering.lens framed)).at_ answering.payload
  near := answering.payload ▸ framed.near

/-- The size of the payload is what the head leaves of the buffer. -/
theorem rmrPayloadSize_eq (framed : msg.Framed order) (inInt : InInt msg.allocLen)
    (room : (msg.payload : Int) ≤ msg.allocLen) :
    rmrPayloadSize order msg = msg.allocLen - msg.payload := by
  -- The head takes its own length of the buffer, and the difference is an `int`.
  have starts := framed.headed.hdrLen
  have rest : msg.allocLen - (rmrHdrLen order msg.tpBuf : Int) - (tpHdrLen : Int) =
      msg.allocLen - msg.payload := by
    omega
  rw [rmrPayloadSize, toInt_of_toUint, rest]
  obtain ⟨low, high⟩ := inInt
  exact toInt_of_inInt ⟨by simp only [intMin]; omega, by omega⟩

/-- `realloc_payload` copies all of the head, and makes room for it. -/
theorem reallocPayload_answering {first : Mbuf} {payloadLen : Int} {copy clone : Bool}
    (framed : first.Framed order) (answering : draft.msg.Answering first)
    (made : reallocPayload order left draft payloadLen copy clone = .ok (.made next)) :
    next.msg.Answering first := by
  -- What is copied reaches at least to the payload, with or without the copy flag.
  have rebuilt := reallocPayload_made made
  have old := answering.framed framed
  have hdrLen := old.headed.hdrLen
  have behind := old.behind
  have room := answering.room
  obtain ⟨low, high⟩ := answering.inInt
  simp only [intMax, tpHdrLen] at high hdrLen
  have counted : draft.msg.payload ≤ 50 + reallocCount order draft.msg copy := by
    cases copy with
    | true =>
      have rest := toUint_of_nonneg (n := draft.msg.allocLen - (50 : Nat))
        ⟨by simp only [intMin]; omega, by simp only [intMax]; omega⟩ (by omega)
      rw [reallocCount, if_pos rfl, copyCount]
      omega
    | false =>
      rw [reallocCount, if_neg Bool.false_ne_true]
      omega
  have head : ∀ {start count : Nat}, 50 ≤ start → start + count ≤ draft.msg.payload →
      next.msg.tpBuf.slice start count = draft.msg.tpBuf.slice start count := by
    intro start count behind within
    obtain ⟨skip, rfl⟩ := Nat.exists_eq_add_of_le behind
    rw [rebuilt.tpBuf]
    exact Block.overlay_slice_part _ 50 _ 50 _ skip count (by omega)
  have headed := old.headed.congr (head (by decide) (by omega))
  have payload : next.msg.payload = draft.msg.payload := rebuilt.payload.trans headed.starts.symm
  have has : next.msg.HasHead first := Mbuf.HasHead.trans ⟨payload, head⟩ answering.toHasHead
  refine ⟨has, rebuilt.inInt, ?_⟩
  have start : (rmrHdrLen order draft.msg.tpBuf : Int) + tpHdrLen = draft.msg.payload := by
    simp only [tpHdrLen]
    omega
  have asked := rebuilt.asked
  have most := le_max_left payloadLen (rmrPayloadSize order draft.msg)
  rw [rebuilt.allocLen, start, toInt_of_toUint, payload,
    toInt_natCast (by simp only [intMax]; omega)]
  omega

/-- Nothing that an application does with a message before it returns it changes the head. -/
theorem reply_answering {first : Mbuf} {op : ReplyOp} (framed : first.Framed order)
    (answering : draft.msg.Answering first) (replied : draft.reply order left op = .ok next) :
    next.msg.Answering first := by
  -- One case for each call: none of them writes in front of the payload.
  cases op with
  | mtype value =>
    cases replied
    exact ⟨⟨answering.payload, answering.head⟩, answering.inInt, answering.room⟩
  | subId value =>
    cases replied
    exact ⟨⟨answering.payload, answering.head⟩, answering.inInt, answering.room⟩
  | len value =>
    cases replied
    exact ⟨⟨answering.payload, answering.head⟩, answering.inInt, answering.room⟩
  | payload bytes =>
    obtain ⟨filled, filledIs, made⟩ := bind_eq_ok.mp replied
    cases made
    obtain ⟨-, rfl⟩ := Block.memcpy_inside filledIs
    refine ⟨⟨answering.payload, fun behind within => ?_⟩, answering.inInt, answering.room⟩
    have payload := answering.payload
    exact (Block.overlay_slice_outside _ _ _ _ _ (Or.inl (by omega))).trans
      (answering.head behind within)
  | realloc payloadLen copy clone takes =>
    obtain ⟨outcome, outcomeIs, made⟩ := bind_eq_ok.mp replied
    cases outcome with
    | refused =>
      cases made
      exact answering
    | same =>
      cases made
      exact answering
    | failed =>
      dsimp only at made
      split at made
      · cases made
        exact answering
      · cases made
    | made nm =>
      cases made
      have fresh := reallocPayload_answering framed answering outcomeIs
      split
      · exact fresh
      · exact ⟨⟨answering.payload, answering.head⟩, answering.inInt, answering.room⟩

/-- Nor does all of it. -/
theorem replies_answering {first : Mbuf} {ops : List ReplyOp} (framed : first.Framed order)
    (answering : draft.msg.Answering first) (replied : draft.replies order left ops = .ok next) :
    next.msg.Answering first :=
  foldlM_invariant (fun draft => draft.msg.Answering first)
    (fun answering replied => reply_answering framed answering replied) answering replied

/-- The message that `rmr_rts_msg` sends has the bytes of the message but for the flags and the
name. -/
theorem rtsMsg_apart (msg : Mbuf) {start count : Nat} (src : start + count ≤ 126 ∨ 190 ≤ start)
    (flags : start + count ≤ 242 ∨ 246 ≤ start) :
    (msg.rtsMsg conf).tpBuf.slice start count = msg.tpBuf.slice start count :=
  (ztBufFill_outside _ _ _ _ (by decide) src).trans (putFlags_apart _ _ flags)

/-- It is no call. -/
theorem rtsMsg_isCall (msg : Mbuf) : isCall conf.order (msg.rtsMsg conf).tpBuf = false :=
  (isCall_congr conf.order (ztBufFill_outside _ _ _ _ (by decide) (Or.inr (by decide)))).trans
    (unmarkCall_isCall msg)

/-- A message that is no longer than its buffer is sent as a whole. -/
theorem Mbuf.totLen_whole (framed : msg.Framed order) (nonneg : 0 ≤ msg.len)
    (room : (msg.payload : Int) + msg.len ≤ msg.allocLen) :
    msg.totLen order = (msg.payload : Int) + msg.len := by
  -- The sum of the lengths is at most the allocated one, so that it is taken as it is.
  have starts := framed.headed.hdrLen
  have sum : msg.len + rmrHdrLen order msg.tpBuf + tpHdrLen = (msg.payload : Int) + msg.len := by
    omega
  obtain ⟨low, high⟩ := framed.inInt
  rw [Mbuf.totLen, sum, toInt_of_toUint,
    toInt_of_inInt ⟨by simp only [intMin]; omega, by omega⟩, if_neg (by omega)]

/-- The frame of a message that is returned, if there is one. -/
theorem rmrRtsFrames_goes {result : Option SendResult} (framed : draft.msg.Framed conf.order)
    (nonneg : 0 ≤ draft.msg.len)
    (room : (draft.msg.payload : Int) + draft.msg.len ≤ draft.msg.allocLen)
    (sent : rmrRtsFrames conf draft result = .ok frames) :
    ∀ frame ∈ frames, (draft.msg.rtsMsg conf).Goes conf frame := by
  -- Returning a message changes its destination only, so that its length is as before.
  cases result with
  | none =>
    cases sent
    rintro _ ⟨⟩
  | some result =>
    obtain ⟨rtsFramed, totLen, -⟩ := rtsMsg_sourced conf framed
    have whole := Mbuf.totLen_whole framed nonneg room
    have behind := framed.behind
    obtain ⟨low, high⟩ := framed.inInt
    have fit : (draft.msg.rtsMsg conf).Fit conf.order := by
      refine ⟨rtsFramed, ?_, ⟨?_, ?_⟩, nonneg⟩
      · rw [Mbuf.Whole, totLen, whole]
        simp only [tpHdrLen, mhdrLen]
        omega
      · show intMin ≤ draft.msg.len
        simp only [intMin]
        omega
      · show draft.msg.len ≤ intMax
        omega
    exact fun frame is => ⟨fit, trySendFrames_from sent frame is⟩

/-- Longer frames are gathered in no less memory. -/
theorem RcvConf.room_mono (rcvConf : RcvConf) {small large : Int} (less : small ≤ large) :
    rcvConf.room small ≤ rcvConf.room large := by
  unfold RcvConf.room
  split <;> split <;> omega

/-- Whoever receives a message that is returned finds the call id where the head had it, if there is
any data 1. -/
theorem rts_handed {first : Mbuf} {rawMsg : Block} {response : List UInt8} (fd : Int)
    (same : rcvConf.order = conf.order) (framed : first.Framed conf.order)
    (answering : msg.Answering first) (nonneg : 0 ≤ msg.len)
    (fits : msg.len ≤ rmrPayloadSize conf.order msg)
    (goes : (msg.rtsMsg conf).Goes conf response) (arrived : Arrived rcvConf response rawMsg) :
    ∃ mbuf : Mbuf, rcvConf.room first.payload ≤ intMax ∧
      mbuf.tpBuf.slice 62 32 = first.tpBuf.slice 62 32 ∧
      buf2mbuf rcvConf rawMsg rawMsg.size fd = .ok (
        if rmrD1Len conf.order first.tpBuf = 0 ∨
            first.tpBuf.byte (data1Addr conf.order first.tpBuf) = 0 then .normal mbuf
        else .chute (first.tpBuf.byte (data1Addr conf.order first.tpBuf)) mbuf) := by
  have own := answering.framed framed
  have behind := framed.behind
  rw [rmrPayloadSize_eq own answering.inInt answering.room] at fits
  have totLen : (msg.rtsMsg conf).totLen conf.order = (msg.payload : Int) + msg.len :=
    (rtsMsg_sourced _ own).2.1.trans (Mbuf.totLen_whole own nonneg (by omega))
  have length := goes.length
  have holds := arrived.holds
  -- The response announces what its frame has, so it is taken.
  have announced : ((msg.rtsMsg conf).payload : Int) + (msg.rtsMsg conf).len ≤
      rcvConf.room ((msg.rtsMsg conf).totLen conf.order) := by
    rw [← length, ← arrived.size]
    show (msg.payload : Int) + msg.len ≤ rawMsg.size
    omega
  obtain ⟨mbuf, buf, -, -, routed⟩ := arrived.taken same goes announced
  have onWire := arrived.onWire goes
  have lens : (msg.rtsMsg conf).tpBuf.slice 246 16 = first.tpBuf.slice 246 16 :=
    (rtsMsg_apart msg (Or.inr (by decide)) (Or.inr (by decide))).trans (answering.lens framed)
  obtain ⟨d1Len, place⟩ := data1_congr conf.order (onWire.lens.trans lens)
  obtain ⟨rtsD1Len, rtsPlace⟩ := data1_congr conf.order lens
  have off : isCall conf.order rawMsg = false :=
    (isCall_congr _ onWire.flags).trans (rtsMsg_isCall msg)
  refine ⟨mbuf, ?_, ?_, ?_⟩
  · have less : (first.payload : Int) ≤ response.length := by
      rw [length, totLen, ← answering.payload]
      omega
    exact (rcvConf.room_mono less).trans (arrived.size ▸ arrived.fits)
  · rw [buf, onWire.xact, rtsMsg_apart msg (Or.inl (by decide)) (Or.inl (by decide))]
    exact answering.head (by decide) (by omega)
  · rw [routed]
    by_cases none_ : rmrD1Len conf.order first.tpBuf = 0
    · rw [if_pos (.inl none_)]
      exact route_normal (.inr (.inl (d1Len.trans none_)))
    · have some_ := Nat.pos_of_ne_zero none_
      have inside := framed.data1_inside some_
      have past := (addrs_behind framed.headed.len0).2.1
      have before : (data1Addr conf.order first.tpBuf : Int) <
          (msg.rtsMsg conf).totLen conf.order := by
        rw [totLen, answering.payload]
        omega
      have byte : rawMsg.byte (data1Addr conf.order first.tpBuf) =
          first.tpBuf.byte (data1Addr conf.order first.tpBuf) := by
        have one : (msg.rtsMsg conf).tpBuf.slice (data1Addr conf.order first.tpBuf) 1 =
            msg.tpBuf.slice (data1Addr conf.order first.tpBuf) 1 :=
          rtsMsg_apart msg (Or.inr (by omega)) (Or.inr (by omega))
        have rts : (msg.rtsMsg conf).tpBuf.byte (data1Addr conf.order first.tpBuf) =
            msg.tpBuf.byte (data1Addr conf.order first.tpBuf) :=
          Block.byte_of_slice one Nat.one_pos
        rw [← rtsPlace, onWire.data1 (rtsD1Len ▸ some_) (by rw [rtsPlace]; exact before),
          rtsPlace, rts]
        exact answering.data1 framed some_
      have within : data1Addr conf.order first.tpBuf < rawMsg.size := by omega
      by_cases zero : first.tpBuf.byte (data1Addr conf.order first.tpBuf) = 0
      · rw [if_pos (.inr zero)]
        exact route_normal (.inr (.inr (by rw [place]; exact ⟨within, byte.trans zero⟩)))
      · rw [if_neg (not_or.mpr ⟨none_, zero⟩)]
        exact route_chute off (by rw [d1Len]; exact some_) (by rw [place]; exact within)
          (by rw [place]; exact byte) zero

/-- Whether a message that `mt_call` sends is taken for a request, and what is returned of it for
the answer: it announces no more than its frame is gathered in, and data 1 is there and in the
frame. -/
def Mbuf.Callable (order : ByteOrder) (callee caller : RcvConf) (msg : Mbuf) : Prop :=
  callee.room (msg.totLen order) ≤ intMax →
    (msg.payload : Int) + msg.len ≤ callee.room (msg.totLen order) ∧
      (caller.room msg.payload ≤ intMax → 0 < rmrD1Len order msg.tpBuf ∧
        (data1Addr order msg.tpBuf : Int) < msg.totLen order)

/-- A request that is taken is on the ring, as what it was made of. -/
theorem Mbuf.Goes.queued {frame : List UInt8} {rawMsg : Block} (fd : Int)
    (goes : request.Goes conf frame) (called : isCall conf.order request.tpBuf = true)
    (same : rcvConf.order = conf.order) (arrived : Arrived rcvConf frame rawMsg)
    (fits : (request.payload : Int) + request.len ≤
      rcvConf.room (request.totLen conf.order)) :
    ∃ mbuf : Mbuf, buf2mbuf rcvConf rawMsg rawMsg.size fd = .ok (.normal mbuf) ∧
      mbuf.tpBuf = rawMsg ∧ mbuf.payload = request.payload ∧ mbuf.allocLen = rawMsg.size ∧
      mbuf.Framed conf.order ∧ (mbuf.payload : Int) ≤ mbuf.allocLen := by
  -- The flag of a call routes the message to the ring, before its data 1 is looked at.
  obtain ⟨mbuf, buf, payload, allocLen, routed⟩ := arrived.taken same goes fits
  have onWire := arrived.onWire goes
  have size := arrived.size
  have small := arrived.fits
  have nonneg := goes.nonneg
  rw [goes.length] at size
  have called : isCall conf.order rawMsg = true := (isCall_congr _ onWire.flags).trans called
  refine ⟨mbuf, routed.trans (route_normal (.inl called)), buf, payload, allocLen, ?_, ?_⟩
  · refine ⟨?_, ?_, payload ▸ goes.framed.near⟩
    · rw [allocLen]
      exact ⟨by simp only [intMin]; omega, small⟩
    · rw [buf]
      exact (goes.framed.headed.congr onWire.lens).at_ payload
  · rw [payload, allocLen]
    omega

/-- A message whose length is not negative and was allocated can be sent. -/
theorem sendMsg_of_room (nonneg : 0 ≤ msg.totLen conf.order)
    (room : msg.totLen conf.order ≤ msg.tpBuf.size) : ∃ frame, sendMsg conf msg = .ok frame := by
  -- The total is the same after the words of the header are set.
  have same : (prepare conf msg).totLen conf.order = msg.totLen conf.order :=
    totLen_congr _ rfl rfl (prepare_lens_slice msg)
  have size := prepare_size conf msg
  refine ⟨_, if_neg ?_⟩
  change ¬ ((prepare conf msg).totLen conf.order < 0 ∨
    ((prepare conf msg).tpBuf.size : Int) < (prepare conf msg).totLen conf.order)
  rw [same, size]
  omega

/-- A message that is returned with no payload, as it was received, is not answered where it has no
call id in data 1. -/
theorem Returns.speaks {callee caller : RcvConf} {peer : SendConf} {xact frame : List UInt8}
    {rawMsg : Block} {fd : Int} {mbuf : Mbuf}
    (returns : Returns callee peer caller callId xact frame) (same : caller.order = peer.order)
    (arrived : Arrived callee frame rawMsg)
    (handed : buf2mbuf callee rawMsg rawMsg.size fd = .ok (.normal mbuf))
    (framed : mbuf.Framed peer.order) (room : (mbuf.payload : Int) ≤ mbuf.allocLen)
    (held : mbuf.allocLen = mbuf.tpBuf.size) (takes : caller.room mbuf.payload ≤ intMax) :
    0 < rmrD1Len peer.order mbuf.tpBuf ∧
      mbuf.tpBuf.byte (data1Addr peer.order mbuf.tpBuf) ≠ 0 := by
  -- The message is returned with no payload, so that its length is that of the head.
  obtain ⟨final, finalIs⟩ : ∃ final : Mbuf, final = { mbuf with addSrc := true, len := 0 } :=
    ⟨_, rfl⟩
  have answering : final.Answering mbuf := by
    rw [finalIs]
    exact ⟨⟨rfl, fun _ _ => rfl⟩, framed.inInt, room⟩
  have own := answering.framed framed
  have size := rmrPayloadSize_eq own answering.inInt answering.room
  have none_ : final.len = 0 := by rw [finalIs]
  have totLen : (final.rtsMsg peer).totLen peer.order = mbuf.payload := by
    rw [(rtsMsg_sourced _ own).2.1, Mbuf.totLen_whole own (by omega) (by
      rw [none_]
      have := answering.room
      omega), none_, answering.payload]
    omega
  have bufIs : final.tpBuf.size = mbuf.tpBuf.size := by rw [finalIs]
  have sendable : ∃ response, sendMsg peer (final.rtsMsg peer) = .ok response := by
    refine sendMsg_of_room (by rw [totLen]; omega) ?_
    show _ ≤ ((final.tpBuf.size : Nat) : Int)
    rw [totLen, bufIs, ← held]
    exact room
  obtain ⟨response, responseIs⟩ := sendable
  have sent : rmrRtsFrames peer ⟨final, 0⟩ (some .ok) = .ok [response] := by
    show (sendMsg peer (final.rtsMsg peer) >>= _) = _
    rw [responseIs]
    rfl
  have within : (final.payload : Int) + final.len ≤ final.allocLen := by
    have := answering.room
    omega
  have nonneg : 0 ≤ final.len := by omega
  have goes : (final.rtsMsg peer).Goes peer response :=
    rmrRtsFrames_goes (by exact own) (by exact nonneg) (by exact within) sent response
      (List.mem_singleton_self _)
  have length := goes.length
  rw [totLen] at length
  have takes : caller.room response.length ≤ intMax := length ▸ takes
  obtain ⟨back, arrivedBack, -⟩ := Arrived.exists takes 0
  have small : final.len ≤ rmrPayloadSize peer.order final := by omega
  obtain ⟨answer, -, -, backHanded⟩ :=
    rts_handed 0 same framed answering nonneg small goes arrivedBack
  have answers := returns rawMsg fd mbuf arrived handed (fun _ _ => 0) 0 [.len 0] ⟨final, 0⟩
    (by rw [finalIs]; rfl) nonneg small (some .ok) [response] sent response
    (List.mem_singleton_self _) back 0 arrivedBack
  by_contra quiet
  have quiet : rmrD1Len peer.order mbuf.tpBuf = 0 ∨
      mbuf.tpBuf.byte (data1Addr peer.order mbuf.tpBuf) = 0 := by
    by_contra speaks
    obtain ⟨some_, id⟩ := not_or.mp speaks
    exact quiet ⟨Nat.pos_of_ne_zero some_, id⟩
  rw [if_pos quiet] at backHanded
  exact (answers.of_ok backHanded).elim

/-- A request is queued on the ring of whoever receives it, and what is returned of it is put into
the chute of the call, exactly if the message is callable. -/
theorem Mbuf.Requested.delivers {peer : SendConf} {callee caller : RcvConf} {frame : List UInt8}
    (requested : msg.Requested conf.order callId request) (goes : request.Goes conf frame)
    (named : callId ≠ 0) (calleeSame : callee.order = conf.order)
    (peerSame : peer.order = conf.order) (callerSame : caller.order = conf.order) :
    (Delivers callee frame Delivery.IsNormal ∧
        Returns callee peer caller callId (msg.tpBuf.slice HdrField.xid.offset rmrMaxXid) frame) ↔
      msg.Callable conf.order callee caller := by
  obtain ⟨alike, called, data1, xact⟩ := requested
  obtain ⟨d1Len, place⟩ := data1_congr conf.order alike.keeps.lens
  have totLen := totLen_congr conf.order alike.allocLen alike.len alike.keeps.lens
  have length := goes.length
  change (_ ∧ Returns callee peer caller callId (msg.tpBuf.slice 62 32) frame) ↔ _
  rw [Mbuf.Callable, ← alike.payload, ← alike.len, ← totLen, ← d1Len, ← place, ← xact]
  constructor
  · rintro ⟨delivers, returns⟩ takes
    rw [← length] at takes
    obtain ⟨rawMsg, arrived, fill⟩ := Arrived.exists takes 0
    by_cases more : callee.room (request.totLen conf.order) < (request.payload : Int) + request.len
    · exact ((delivers rawMsg 0 arrived).of_ok (arrived.dropped calleeSame goes more)).elim
    · have fits := Int.not_lt.mp more
      refine ⟨fits, fun callerTakes => ?_⟩
      obtain ⟨mbuf, handed, buf, payload, allocLen, framed, room⟩ :=
        goes.queued 0 called calleeSame arrived fits
      obtain ⟨some_, id⟩ := returns.speaks (callerSame.trans peerSame.symm) arrived handed
        (peerSame ▸ framed) room (buf ▸ allocLen) (payload ▸ callerTakes)
      have onWire := arrived.onWire goes
      obtain ⟨wireD1Len, wirePlace⟩ := data1_congr conf.order onWire.lens
      rw [peerSame, buf, wireD1Len] at some_
      rw [peerSame, buf, wirePlace] at id
      refine ⟨some_, ?_⟩
      -- Behind the frame there happens to be no call id.
      by_contra behind
      exact id (fill _ (Int.ofNat_le.mp (length ▸ Int.not_lt.mp behind)))
  · intro callable
    have takes : ∀ {rawMsg}, Arrived callee frame rawMsg →
        callee.room (request.totLen conf.order) ≤ intMax := by
      intro rawMsg arrived
      rw [← length, ← arrived.size]
      exact arrived.fits
    refine ⟨fun rawMsg fd arrived => ?_, fun rawMsg fd mbuf arrived handed left allocs ops final
      replied nonneg small result responses sent response is back fd' arrivedBack => ?_⟩
    · obtain ⟨mbuf, handed, -⟩ :=
        goes.queued fd called calleeSame arrived (callable (takes arrived)).1
      exact Yields.intro handed trivial
    · obtain ⟨fits, inside⟩ := callable (takes arrived)
      obtain ⟨first, firstHanded, buf, payload, allocLen, framed, room⟩ :=
        goes.queued fd called calleeSame arrived fits
      have onWire := arrived.onWire goes
      rw [firstHanded] at handed
      cases handed
      have framed : mbuf.Framed peer.order := peerSame ▸ framed
      have flagged : ({ mbuf with addSrc := true } : Mbuf).Framed peer.order :=
        framed.keep rfl rfl rfl
      have answering : final.msg.Answering { mbuf with addSrc := true } :=
        replies_answering flagged ⟨⟨rfl, fun _ _ => rfl⟩, framed.inInt, room⟩ replied
      have own := answering.framed flagged
      have size := rmrPayloadSize_eq own answering.inInt answering.room
      have responded := rmrRtsFrames_goes own nonneg (by omega) sent response is
      obtain ⟨answer, callerTakes, backXact, backHanded⟩ :=
        rts_handed fd' (callerSame.trans peerSame.symm) flagged answering nonneg small responded
          arrivedBack
      obtain ⟨some_, before⟩ := inside (payload ▸ callerTakes)
      rw [peerSame] at backHanded
      change buf2mbuf caller back back.size fd' = .ok (
        if rmrD1Len conf.order mbuf.tpBuf = 0 ∨
            mbuf.tpBuf.byte (data1Addr conf.order mbuf.tpBuf) = 0 then .normal answer
        else .chute (mbuf.tpBuf.byte (data1Addr conf.order mbuf.tpBuf)) answer) at backHanded
      obtain ⟨wireD1Len, wirePlace⟩ := data1_congr conf.order onWire.lens
      have byte : mbuf.tpBuf.byte (data1Addr conf.order mbuf.tpBuf) = callId := by
        rw [buf, wirePlace, onWire.data1 some_ before]
        exact data1
      rw [byte, if_neg] at backHanded
      · exact Yields.intro backHanded ⟨rfl, backXact.trans (buf ▸ onWire.xact)⟩
      · rw [buf, wireD1Len]
        exact not_or.mpr ⟨by omega, named⟩

end

namespace Api

/-- Every message that a run leaves has a header that leads to its payload. -/
theorem run_traced {conf : SendConf} {rcvConf : RcvConf} {left : Leftover}
    {events : List ApiEvent} {api : Api} (sane : conf.Sane) (same : rcvConf.order = conf.order)
    (asked : Along (step conf rcvConf left) (Keeps rcvConf) init events)
    (ran : run conf rcvConf left events = .ok api) : Traced conf api.pool api.foreign := by
  -- Each event that asks for no more than it may keeps what is known.
  have keeps : ∀ {api : Api} {event : ApiEvent} {next : Api}, Traced conf api.pool api.foreign →
      api.Keeps rcvConf event → api.step conf rcvConf left event = .ok next →
      Traced conf next.pool next.foreign :=
    fun traced asked stepped => step_traced sane same traced asked stepped
  exact asked.keeps keeps (init_traced conf) ran

/-- Two processes of one byte order, and whatever message the first one holds. All frames of a call
with it are queued on the ring of the second one, and whatever that returns of them is put into the
chute of the call with the transaction bytes of the request, exactly if the message is callable. All
frames of a message that is sent with no call are queued on the ring of the second one, exactly if
it announces no more than they are gathered in, and data 1 is in the frame if there is any. -/
theorem run_exchanged (conf peer : SendConf) (rcvConf peerRcv : RcvConf) (left : Leftover)
    (events : List ApiEvent) (sane : conf.Sane) (same : rcvConf.order = conf.order)
    (peerSame : peer.order = conf.order) (peerRcvSame : peerRcv.order = conf.order)
    (asked : Along (step conf rcvConf left) (Keeps rcvConf) init events) {api : Api}
    (ran : run conf rcvConf left events = .ok api) {id : Nat} {msg : Mbuf}
    (live : api.pool.msgs id = some msg) (whole : msg.Whole conf.order) (nonneg : 0 ≤ msg.len)
    (small : msg.len ≤ intMax) :
    (∀ (calling : Calling) (frames : List (List UInt8)), calling.callId ≠ 0 →
      calling.frames conf left ⟨msg, api.pool.allocs⟩ = .ok frames → frames ≠ [] →
      ((∀ frame ∈ frames, Delivers peerRcv frame Delivery.IsNormal ∧
          Returns peerRcv peer rcvConf calling.callId
            (msg.tpBuf.slice HdrField.xid.offset rmrMaxXid) frame) ↔
        msg.Callable conf.order peerRcv rcvConf)) ∧
    (∀ (groups : List (Option SendResult)) (frames : List (List UInt8)),
      rmrSendFrames conf left ⟨msg, api.pool.allocs⟩ groups = .ok frames → frames ≠ [] →
      ((∀ frame ∈ frames, Delivers peerRcv frame Delivery.IsNormal) ↔
        msg.Queues conf.order peerRcv false)) ∧
    (∀ (wormhole : Wormhole) (frames : List (List UInt8)),
      rmrWhSendFrames conf ⟨msg, api.pool.allocs⟩ wormhole = .ok frames → frames ≠ [] →
      ((∀ frame ∈ frames, Delivers peerRcv frame Delivery.IsNormal) ↔
        msg.Queues conf.order peerRcv (isCall conf.order msg.tpBuf))) := by
  have framed : msg.Framed conf.order := (run_traced sane same asked ran).framed id msg live
  have fit : msg.Fit conf.order :=
    ⟨framed, whole, ⟨by simp only [intMin]; omega, small⟩, nonneg⟩
  -- The condition does not depend on the frame.
  have each : ∀ {frames : List (List UInt8)} {Holds : List UInt8 → Prop} {Cond : Prop},
      frames ≠ [] → (∀ frame ∈ frames, (Holds frame ↔ Cond)) →
      ((∀ frame ∈ frames, Holds frame) ↔ Cond) := by
    intro frames Holds Cond some_ all
    obtain ⟨first, is⟩ := List.exists_mem_of_ne_nil frames some_
    exact ⟨fun holds => (all first is).mp (holds first is),
      fun cond frame among => (all frame among).mpr cond⟩
  refine ⟨fun calling frames named sent some_ => each some_ fun frame is => ?_,
    fun groups frames sent some_ => each some_ fun frame is => ?_,
    fun wormhole frames sent some_ => each some_ fun frame is => ?_⟩
  · obtain ⟨request, requested, goes⟩ := Calling.frames_goes (by exact fit) sent frame is
    exact requested.delivers goes named peerRcvSame peerSame same
  · obtain ⟨silent, silenced, goes⟩ := rmrSendFrames_goes (by exact fit) sent frame is
    exact silenced.delivers goes peerRcvSame
  · obtain ⟨silent, silenced, goes⟩ := rmrWhSendFrames_goes (by exact fit) sent frame is
    exact silenced.delivers goes peerRcvSame

instance decidableCallable (order : ByteOrder) (callee caller : RcvConf) (msg : Mbuf) :
    Decidable (msg.Callable order callee caller) :=
  inferInstanceAs (Decidable (_ → _))

instance decidableQueues (order : ByteOrder) (rcvConf : RcvConf) (call : Bool) (msg : Mbuf) :
    Decidable (msg.Queues order rcvConf call) :=
  inferInstanceAs (Decidable (_ → _))

instance decidableKeeps (rcvConf : RcvConf) (api : Api) :
    (event : ApiEvent) → Decidable (api.Keeps rcvConf event)
  | .pool (.send _ _) => .isTrue trivial
  | .pool (.rts _ _) => .isTrue trivial
  | .pool (.whSend _ _) => .isTrue trivial
  | .pool (.reallocPayload id _ copy _) =>
    inferInstanceAs (Decidable (copy = true → ∀ msg ∈ api.pool.msgs id,
      (tpHdrLen + mhdrLen : Int) ≤ msg.allocLen))
  | .pool (.receive _ _) => inferInstanceAs (Decidable (_ → _))
  | .pool (.alloc _) => .isTrue trivial
  | .pool (.tralloc _ _) => .isTrue trivial
  | .pool (.apply _ _) => .isTrue trivial
  | .pool (.realloc _ _) => .isTrue trivial
  | .pool (.free _) => .isTrue trivial
  | .call _ _ => .isTrue trivial
  | .timeout _ _ => .isTrue trivial

instance decidableWhole (order : ByteOrder) (msg : Mbuf) : Decidable (msg.Whole order) :=
  inferInstanceAs (Decidable (_ ≤ _))

/-- A message that is allocated with its trace data, and written to. -/
def composing : List ApiEvent :=
  [.pool (.tralloc 20 (List.replicate 100 7)), .pool (.apply 0 (.xact [1, 2, 3])),
    .pool (.apply 0 (.payload [104, 105]))]

/-- A request of such a message is queued, and what is returned of it answers the call. -/
theorem run_exchanged_composed :
    Yields (fun api => ∃ msg, api.pool.msgs 0 = some msg ∧
        Yields (fun frames => frames ≠ [] ∧ ∀ frame ∈ frames,
          Delivers RcvConf.default frame Delivery.IsNormal ∧
            Returns RcvConf.default SendConf.plain RcvConf.default 7
              (msg.tpBuf.slice HdrField.xid.offset rmrMaxXid) frame)
          ((Calling.mtCall 7 [some .ok]).frames SendConf.plain (fun _ _ => 0)
            ⟨msg, api.pool.allocs⟩))
      (run SendConf.plain RcvConf.default (fun _ _ => 0) composing) := by
  -- The conditions are decided in the state that the calls lead to.
  have asked : Along (step SendConf.plain RcvConf.default fun _ _ => 0)
      (Keeps RcvConf.default) init composing := by
    decide +kernel
  have live : Yields (fun api => ∃ msg ∈ api.pool.msgs 0,
      (msg.Whole .little ∧ 0 ≤ msg.len ∧ msg.len ≤ intMax ∧
        msg.Callable .little RcvConf.default RcvConf.default) ∧
      Yields (fun frames => frames ≠ [])
        ((Calling.mtCall 7 [some .ok]).frames SendConf.plain (fun _ _ => 0)
          ⟨msg, api.pool.allocs⟩))
      (run SendConf.plain RcvConf.default (fun _ _ => 0) composing) := by
    decide +kernel
  obtain ⟨api, ran, msg, is, ⟨whole, nonneg, small, callable⟩, sends⟩ := live.exists
  obtain ⟨frames, sent, some_⟩ := sends.exists
  have routed := run_exchanged SendConf.plain SendConf.plain RcvConf.default RcvConf.default
    (fun _ _ => 0) composing ⟨⟨by decide, rfl⟩, by decide⟩ rfl rfl rfl asked ran is whole nonneg
    small
  have delivered := (routed.1 (.mtCall 7 [some .ok]) frames (by decide) sent some_).mpr callable
  exact Yields.intro ran ⟨msg, is, Yields.intro sent ⟨some_, delivered⟩⟩

/-- A message that is given trace data after it was allocated with little room: the frame ends in
front of data 1. -/
def cutShort : List ApiEvent :=
  [.pool (.alloc 1), .pool (.apply 0 (.trace (List.replicate 100 7)))]

/-- A request of such a message may well be queued, but then its call id is not there for what is
returned of it; and the message, sent with no call, may be taken for the answer of one. -/
theorem cut_request_unanswered :
    Yields (fun api => ∃ msg, api.pool.msgs 0 = some msg ∧
        Yields (fun frames => ∃ frame ∈ frames,
          ¬ (Delivers RcvConf.default frame Delivery.IsNormal ∧
            Returns RcvConf.default SendConf.plain RcvConf.default 7
              (msg.tpBuf.slice HdrField.xid.offset rmrMaxXid) frame))
          ((Calling.mtCall 7 [some .ok]).frames SendConf.plain (fun _ _ => 0)
            ⟨msg, api.pool.allocs⟩) ∧
        Yields (fun frames => ∃ frame ∈ frames,
          ¬ Delivers RcvConf.default frame Delivery.IsNormal)
          (rmrSendFrames SendConf.plain (fun _ _ => 0) ⟨msg, api.pool.allocs⟩ [some .ok]))
      (run SendConf.plain RcvConf.default (fun _ _ => 0) cutShort) := by
  -- The conditions are decided in the state that the calls lead to, and fail there.
  have asked : Along (step SendConf.plain RcvConf.default fun _ _ => 0)
      (Keeps RcvConf.default) init cutShort := by
    decide +kernel
  have live : Yields (fun api => ∃ msg ∈ api.pool.msgs 0,
      (msg.Whole .little ∧ InInt msg.len ∧ 0 ≤ msg.len ∧
        ¬ msg.Callable .little RcvConf.default RcvConf.default ∧
        ¬ msg.Queues .little RcvConf.default false) ∧
      Yields (fun frames => frames ≠ [])
        ((Calling.mtCall 7 [some .ok]).frames SendConf.plain (fun _ _ => 0)
          ⟨msg, api.pool.allocs⟩) ∧
      Yields (fun frames => frames ≠ [])
        (rmrSendFrames SendConf.plain (fun _ _ => 0) ⟨msg, api.pool.allocs⟩ [some .ok]))
      (run SendConf.plain RcvConf.default (fun _ _ => 0) cutShort) := by
    decide +kernel
  obtain ⟨api, ran, msg, is, ⟨whole, len, nonneg, uncallable, unqueued⟩, calls, sends⟩ :=
    live.exists
  have traced : Traced SendConf.plain api.pool api.foreign :=
    run_traced ⟨⟨by decide, rfl⟩, by decide⟩ rfl asked ran
  have fit : msg.Fit SendConf.plain.order := ⟨traced.framed 0 msg is, whole, len, nonneg⟩
  obtain ⟨requests, requestsAre, someRequests⟩ := calls.exists
  obtain ⟨frames, framesAre, someFrames⟩ := sends.exists
  obtain ⟨frame, first⟩ := List.exists_mem_of_ne_nil _ someRequests
  obtain ⟨other, among⟩ := List.exists_mem_of_ne_nil _ someFrames
  obtain ⟨request, requested, goes⟩ := Calling.frames_goes (by exact fit) requestsAre frame first
  obtain ⟨silent, silenced, silentGoes⟩ :=
    rmrSendFrames_goes (by exact fit) framesAre other among
  have answered : (Delivers RcvConf.default frame Delivery.IsNormal ∧
      Returns RcvConf.default SendConf.plain RcvConf.default 7
        (msg.tpBuf.slice HdrField.xid.offset rmrMaxXid) frame) ↔
      msg.Callable .little RcvConf.default RcvConf.default :=
    requested.delivers goes (by decide) rfl rfl rfl
  exact Yields.intro ran ⟨msg, is,
    Yields.intro requestsAre ⟨frame, first, fun both => uncallable (answered.mp both)⟩,
    Yields.intro framesAre ⟨other, among, fun delivers =>
      unqueued ((silenced.delivers silentGoes rfl).mp delivers)⟩⟩

end Api

end Rmr
