import Rmr.Proofs.Message.Capacity
import Rmr.Proofs.Message.Fidelity
import Rmr.Proofs.Message.Marks
import Rmr.Proofs.Receive.Refine

/-! What the message buffers of an application say they have room for was allocated, unless trace
data was cut by more than fifty bytes. -/

namespace Rmr

section
variable {conf : SendConf} {left : Leftover} {draft next : Draft}

/-- What `send_msg` puts into the header are not its lengths. -/
theorem prepare_lens_slice (msg : Mbuf) :
    (prepare conf msg).tpBuf.slice 246 16 = msg.tpBuf.slice 246 16 := by
  -- The words and the source fields that are written lie apart from the four lengths.
  have words : (hdrSet conf.order (hdrSet conf.order (hdrSet conf.order msg.tpBuf .mtype msg.mtype)
      .subId msg.subId) .plen msg.len).slice 246 16 = msg.tpBuf.slice 246 16 := by
    rw [hdrSet_slice_outside _ _ _ _ (by decide), hdrSet_slice_outside _ _ _ _ (by decide),
      hdrSet_slice_outside _ _ _ _ (by decide)]
  unfold prepare
  dsimp only
  split
  · rw [fillSource, ztBufFill_outside _ _ _ _ (by decide) (by decide),
      ztBufFill_outside _ _ _ _ (by decide) (by decide), words]
  · exact words

/-- `send_msg` works in the buffer of the message. -/
theorem prepare_size (conf : SendConf) (msg : Mbuf) :
    (prepare conf msg).tpBuf.size = msg.tpBuf.size := by
  unfold prepare
  dsimp only
  split <;> rfl

/-- The buffer asked for instead of a message, should that be sent, is one whose size a word can
hold. -/
def Replaceable (conf : SendConf) (tpBuf : Block) : Prop :=
  zcmsgLen conf 0 (toInt (rmrTrLen conf.order tpBuf)) < 4294967296

/-- What is put into a message for a send leaves it as large, with the same lengths. -/
theorem unsentMsg_sized (sized : draft.msg.Sized conf.order) (bytes : List UInt8)
    (state : MsgState) :
    (unsentMsg conf draft.msg bytes state).Sized conf.order ∧
      (unsentMsg conf draft.msg bytes state).tpBuf.slice 246 16 = draft.msg.tpBuf.slice 246 16 := by
  have lens : (unsentMsg conf draft.msg bytes state).tpBuf.slice 246 16 =
      draft.msg.tpBuf.slice 246 16 :=
    (Block.overlay_slice_outside _ _ _ _ _ (Or.inr (by decide))).trans
      (prepare_lens_slice draft.msg)
  exact ⟨sized.keep rfl rfl (prepare_size conf draft.msg) lens, lens⟩

/-- A send leaves a message that is as large as it says, or none. -/
theorem trySend_sized {result : SendResult} {sent : Option Draft} (ready : conf.Ready)
    (sized : draft.msg.Sized conf.order) (small : Replaceable conf draft.msg.tpBuf)
    (tried : trySend conf left draft result = .ok sent) :
    ∀ next ∈ sent, next.msg.Sized conf.order := by
  obtain ⟨bytes, -, ⟨-, -, rfl⟩ | ⟨-, -, next, rfl, nextIs⟩ | ⟨-, state, -, rfl⟩⟩ :=
    trySend_cases tried
  · intro next is
    cases is
  · intro other is
    cases is
    obtain ⟨prepared, lens⟩ := unsentMsg_sized sized bytes draft.msg.state
    refine allocZcmsg_sized ready ?_ ?_ nextIs
    · intro old oldIs
      cases oldIs
      exact prepared
    · -- The next message is asked for with as much trace data as this one has.
      have trLen : rmrTrLen conf.order (unsentMsg conf draft.msg bytes draft.msg.state).tpBuf =
          rmrTrLen conf.order draft.msg.tpBuf :=
        (lens_congr conf.order lens).2.1
      rw [trLen]
      exact small
  · intro other is
    cases is
    exact (unsentMsg_sized sized bytes state).1

/-- Sends to one group after the other leave a message that is as large as it says, or none. -/
theorem fanOut_sized {groups : List (Option SendResult)} {okSends : Bool}
    {sent : Option Draft × Bool} (ready : conf.Ready) (sized : draft.msg.Sized conf.order)
    (small : Replaceable conf draft.msg.tpBuf)
    (tried : fanOut conf left draft okSends groups = .ok sent) :
    ∀ next ∈ sent.1, next.msg.Sized conf.order := by
  fun_induction fanOut conf left draft okSends groups with
  | case1 draft okSends =>
    cases tried
    rintro _ ⟨⟩
    exact sized
  | case2 draft okSends groups ih => exact ih (sized.keep rfl rfl rfl rfl) small tried
  | case3 draft okSends result =>
    obtain ⟨last, lastIs, made⟩ := bind_eq_ok.mp tried
    cases made
    exact trySend_sized ready sized small lastIs
  | case4 draft okSends result groups more unsent done =>
    obtain ⟨clone, cloneIs, tried⟩ := bind_eq_ok.mp tried
    obtain ⟨first, -, tried⟩ := bind_eq_ok.mp tried
    obtain ⟨cloneSized, lens⟩ := cloneMsg_sized sized cloneIs
    -- The clone is what the next group is sent, and asks for the same trace data.
    have cloneSmall : Replaceable conf clone.msg.tpBuf := by
      have trLen : rmrTrLen conf.order clone.msg.tpBuf = rmrTrLen conf.order draft.msg.tpBuf :=
        (lens_congr conf.order lens).2.1
      rw [Replaceable, trLen]
      exact small
    cases first with
    | some msg => exact unsent clone cloneSized cloneSmall tried
    | none => exact done clone (cloneSized.keep rfl rfl rfl rfl) cloneSmall tried

/-- `mtosend_msg` leaves a message that is as large as it says, or none. -/
theorem mtosendMsg_sized {groups : List (Option SendResult)} {sent : Option Draft}
    (ready : conf.Ready) (sized : draft.msg.Sized conf.order)
    (small : Replaceable conf draft.msg.tpBuf)
    (tried : mtosendMsg conf left draft groups = .ok sent) :
    ∀ next ∈ sent, next.msg.Sized conf.order := by
  -- A message without a route is given back; else it went to one group after the other.
  unfold mtosendMsg at tried
  split at tried
  · cases tried
    rintro _ ⟨⟩
    exact sized.keep rfl rfl rfl rfl
  · obtain ⟨⟨last, okSends⟩, lastIs, made⟩ := bind_eq_ok.mp tried
    cases made
    intro next is
    obtain ⟨final, finalIs, rfl⟩ := Option.mem_map.mp is
    exact (fanOut_sized ready sized small lastIs final finalIs).keep rfl rfl rfl rfl

/-- Turning the call flag off does not change the room. -/
theorem Mbuf.Sized.unmarkCall {order : ByteOrder} {msg : Mbuf} (sized : msg.Sized order) :
    (msg.unmarkCall order).Sized order ∧
      (msg.unmarkCall order).tpBuf.slice 246 16 = msg.tpBuf.slice 246 16 := by
  have lens : (msg.unmarkCall order).tpBuf.slice 246 16 = msg.tpBuf.slice 246 16 :=
    Block.put32_slice_outside _ _ _ _ (by decide)
  exact ⟨sized.keep rfl rfl rfl lens, lens⟩

/-- Blotting out the call id does not change the room. -/
theorem Mbuf.Sized.blotCallId {order : ByteOrder} {msg blotted : Mbuf} (sized : msg.Sized order)
    (made : msg.blotCallId order = .ok blotted) :
    blotted.Sized order ∧ blotted.tpBuf.slice 246 16 = msg.tpBuf.slice 246 16 := by
  -- The byte is in data 1, which lies behind the lengths.
  obtain ⟨filled, filledIs, made⟩ := bind_eq_ok.mp made
  cases made
  obtain ⟨-, rfl⟩ := Block.memcpy_inside filledIs
  have lens : (msg.tpBuf.overlay (data1Addr order msg.tpBuf) (Block.ofList [0]) 0 1).slice 246 16 =
      msg.tpBuf.slice 246 16 := overlay_behind _ _ _ _ (addrs_behind sized.headed.len0).2.1
  exact ⟨sized.keep rfl rfl rfl lens, lens⟩

/-- A message with the same lengths asks for a buffer of the same size. -/
theorem Replaceable.congr {tpBuf next : Block} (small : Replaceable conf tpBuf)
    (lens : next.slice 246 16 = tpBuf.slice 246 16) : Replaceable conf next := by
  rw [Replaceable, rmrTrLen, (lens_congr conf.order lens).2.1]
  exact small

/-- `rmr_send_msg` leaves a message that is as large as it says, or none. -/
theorem rmrSendMsg_sized {groups : List (Option SendResult)} {sent : Option Draft}
    (ready : conf.Ready) (sized : draft.msg.Sized conf.order)
    (small : Replaceable conf draft.msg.tpBuf)
    (tried : rmrSendMsg conf left draft groups = .ok sent) :
    ∀ next ∈ sent, next.msg.Sized conf.order := by
  -- The call flag and the call id are put off first, which does not touch the lengths.
  obtain ⟨msg, msgIs, tried⟩ := bind_eq_ok.mp tried
  obtain ⟨unmarked, unmarkedLens⟩ := sized.unmarkCall
  obtain ⟨blotted, blottedLens⟩ := unmarked.blotCallId msgIs
  exact mtosendMsg_sized ready blotted (small.congr (blottedLens.trans unmarkedLens)) tried

/-- `rmr_rts_msg` leaves a message that is as large as it says, or none. -/
theorem rmrRtsMsg_sized {result : Option SendResult} {sent : Option Draft} (ready : conf.Ready)
    (sized : draft.msg.Sized conf.order) (small : Replaceable conf draft.msg.tpBuf)
    (tried : rmrRtsMsg conf left draft result = .ok sent) :
    ∀ next ∈ sent, next.msg.Sized conf.order := by
  obtain ⟨unmarked, unmarkedLens⟩ := sized.unmarkCall
  cases result with
  | none =>
    cases tried
    rintro _ ⟨⟩
    exact unmarked.keep rfl rfl rfl rfl
  | some result =>
    obtain ⟨holdSrc, holdIp, last, -, -, lastIs, rfl⟩ := rmrRtsMsg_steps tried
    intro next is
    obtain ⟨final, finalIs, rfl⟩ := Option.mem_map.mp is
    -- The source fields lie before and behind the lengths.
    have src : (ztBufFill (draft.msg.unmarkCall conf.order).tpBuf HdrField.src.offset conf.myName
        rmrMaxSrc).slice 246 16 = (draft.msg.unmarkCall conf.order).tpBuf.slice 246 16 :=
      ztBufFill_outside _ _ _ _ (by decide) (by decide)
    have last := trySend_sized ready (by exact unmarked.keep rfl rfl rfl src)
      (by exact small.congr (src.trans unmarkedLens)) lastIs
    refine (last final finalIs).keep rfl rfl rfl
      ((ztBufFill_outside _ _ _ _ (by decide) (by decide)).trans
      (ztBufFill_outside _ _ _ _ (by decide) (by decide)))

/-- `rmr_wh_send_msg` leaves a message that is as large as it says, or none. -/
theorem rmrWhSendMsg_sized {wormhole : Wormhole} {sent : Option Draft} (ready : conf.Ready)
    (sized : draft.msg.Sized conf.order) (small : Replaceable conf draft.msg.tpBuf)
    (tried : rmrWhSendMsg conf left draft wormhole = .ok sent) :
    ∀ next ∈ sent, next.msg.Sized conf.order := by
  -- The cases are those of the wormhole: none open at all, one that is not valid, and an open one.
  cases wormhole with
  | noneOpen =>
    cases tried
    rintro _ ⟨⟩
    exact sized.keep rfl rfl rfl rfl
  | invalid =>
    cases tried
    rintro _ ⟨⟩
    exact sized.keep rfl rfl rfl rfl
  | open_ result =>
    obtain ⟨msg, msgIs, tried⟩ := bind_eq_ok.mp tried
    have ok : ({ draft.msg with state := .ok } : Mbuf).Sized conf.order :=
      sized.keep rfl rfl rfl rfl
    obtain ⟨blotted, lens⟩ := ok.blotCallId msgIs
    exact trySend_sized ready blotted (small.congr lens) tried

/-- A frame tells of a header that is there and a payload that starts in the frame. -/
def FramesHeader (order : ByteOrder) (rawMsg : Block) : Prop :=
  (rawMsg.size : Int) ≤ intMax ∧ mhdrLen ≤ hdrGet order rawMsg .len0 ∧
    payloadAddr order rawMsg ≤ rawMsg.size

/-- A message that was received is as large as it says. -/
theorem buf2mbuf_sized {rcvConf : RcvConf} {rawMsg : Block} {fd : Int} {delivery : Delivery}
    {mbuf : Mbuf} (frames : FramesHeader rcvConf.order rawMsg)
    (handed : buf2mbuf rcvConf rawMsg rawMsg.size fd = .ok delivery)
    (is : delivery.mbuf? = some mbuf) : mbuf.Sized rcvConf.order := by
  -- The buffer is the frame as it was received, and its header tells where the payload starts.
  obtain ⟨small, len0, starts⟩ := frames
  obtain ⟨-, made⟩ := buf2mbuf_made handed is
  obtain ⟨buf, payload, -⟩ := Mbuf.refTpbuf_found made
  have allocLen := Mbuf.refTpbuf_allocLen made
  change mbuf.tpBuf = rawMsg at buf
  change mbuf.payload = payloadAddr rcvConf.order rawMsg at payload
  have behind := (addrs_behind len0).2.2.2
  have high := small
  simp only [intMax] at high
  refine Mbuf.Sized.of_room ?_ ?_ ?_ ?_ ?_ ?_
  · rw [allocLen]
    exact ⟨by simp only [intMin]; omega, small⟩
  · rw [allocLen]
    simp only [mhdrLen]
    omega
  · rw [allocLen, buf]
  · rw [buf]
    simp only [intMax, tpHdrLen]
    omega
  · rw [buf]
    exact ⟨len0, payload, by rw [payload]; simp only [tpHdrLen]; omega⟩
  · rw [allocLen, payload]
    omega

end

namespace Pool

variable {conf : SendConf} {rcvConf : RcvConf} {left : Leftover} {pool next : Pool}

/-- What is asked of a call: no buffer that it asks for is larger than a word can say; trace data is
not cut by more than the transport header where that takes another buffer; and a frame that is not
dropped is one with a header, and with a payload that starts in it. -/
def Careful (conf : SendConf) (rcvConf : RcvConf) (pool : Pool) (event : PoolEvent) : Prop :=
  match event with
  | .alloc size => zcmsgLen conf size (-1) < 4294967296
  | .tralloc size data => zcmsgLen conf size data.length < 4294967296 ∧
    (data.length = 0 ∨ conf.traceDataLen = data.length ∨
      zcmsgLen conf size data.length ≤ intMax ∧ conf.traceDataLen ≤ data.length + tpHdrLen)
  | .apply id (.trace data) => ∀ msg ∈ pool.msgs id, Retains conf.order msg data.length
  | .send id _ => ∀ msg ∈ pool.msgs id, Replaceable conf msg.tpBuf
  | .rts id _ => ∀ msg ∈ pool.msgs id, Replaceable conf msg.tpBuf
  | .whSend id _ => ∀ msg ∈ pool.msgs id, Replaceable conf msg.tpBuf
  | .receive rawMsg _ =>
    lengthsFit rcvConf.order rawMsg rawMsg.size → FramesHeader rcvConf.order rawMsg
  | _ => True

/-- All message buffers are as large as they say. -/
def AllSized (conf : SendConf) (pool : Pool) : Prop :=
  ∀ (id : Nat) (msg : Mbuf), pool.msgs id = some msg → msg.Sized conf.order

/-- Something holds of all message buffers. -/
def All (Holds : Mbuf → Prop) (pool : Pool) : Prop :=
  ∀ (id : Nat) (msg : Mbuf), pool.msgs id = some msg → Holds msg

/-- What is in a pool with one more message. -/
theorem add_msgs (draft : Draft) (id : Nat) :
    (pool.add draft).msgs id = if id = pool.count then some draft.msg else pool.msgs id :=
  Function.update_apply _ _ _ _

/-- What is in a pool that a message came back to. -/
theorem put_msgs (id other : Nat) (draft : Option Draft) :
    (pool.put id draft).msgs other =
      if other = id then draft.map Draft.msg else pool.msgs other := by
  cases draft <;> exact Function.update_apply _ _ _ _

section
variable {Holds : Mbuf → Prop}

/-- One more message, of which it holds. -/
theorem All.add (all : All Holds pool) {draft : Draft} (holds : Holds draft.msg) :
    All Holds (pool.add draft) := by
  -- The new message has the next id, and the others are where they were.
  intro id msg is
  rw [add_msgs] at is
  split at is
  · cases is
    exact holds
  · exact all id msg is

/-- It holds of what comes back, if there is anything. -/
theorem All.put (all : All Holds pool) (id : Nat) {draft : Option Draft}
    (holds : ∀ next ∈ draft, Holds next.msg) : All Holds (pool.put id draft) := by
  -- What came back is put where the message was; without it nothing is there.
  intro other msg is
  rw [put_msgs] at is
  split at is
  · obtain ⟨back, backIs, rfl⟩ := Option.map_eq_some_iff.mp is
    exact holds back backIs
  · exact all other msg is

/-- A message that is gone is not one that is wrong. -/
theorem All.drop (all : All Holds pool) (id : Nat) : All Holds (pool.put id none) := by
  refine all.put id ?_
  rintro _ ⟨⟩

/-- It holds of what `rmr_realloc_payload` leaves. -/
theorem All.putRealloc (all : All Holds pool) (id : Nat) (clone : Bool) {made : Realloc}
    (holds : ∀ draft, made = .made draft → Holds draft.msg) :
    All Holds (pool.putRealloc id clone made) := by
  -- A clone is added, and else what was made takes the place of the old message.
  cases made with
  | refused => exact all
  | same => exact all
  | failed =>
    cases clone with
    | true => exact all
    | false => exact all.drop id
  | made draft =>
    cases clone with
    | true => exact all.add (holds draft rfl)
    | false =>
      show All Holds (pool.put id (some draft))
      refine all.put id ?_
      rintro _ ⟨⟩
      exact holds draft rfl

/-- It holds of what was received. -/
theorem All.receive (all : All Holds pool) {delivery : Delivery}
    (normal : ∀ mbuf, delivery = .normal mbuf → Holds { mbuf with addSrc := true })
    (chute : ∀ callId mbuf, delivery = .chute callId mbuf → Holds mbuf) :
    All Holds (pool.receive delivery) := by
  -- A delivery goes to the queue, to a chute or nowhere.
  cases delivery with
  | dropped => exact all
  | normal mbuf => exact all.add (normal mbuf rfl)
  | chute callId mbuf => exact all.add (chute callId mbuf rfl)

/-- A call with a message that is not there changes nothing. -/
theorem All.withMsg (all : All Holds pool) {id : Nat} {call : Draft → Except Fault Pool}
    (keeps : ∀ msg, pool.msgs id = some msg → call ⟨msg, pool.allocs⟩ = .ok next → All Holds next)
    (called : pool.withMsg id call = .ok next) : All Holds next := by
  -- The call is made only if the message is there.
  unfold Pool.withMsg at called
  split at called
  · cases called
    exact all
  · rename_i msg is
    exact keeps msg is called

end

/-- A message that is allocated with trace data is as large as it says. -/
theorem tralloc_sized {size : Int} {data : List UInt8} {draft traced : Draft} (ready : conf.Ready)
    (small : zcmsgLen conf size data.length < 4294967296)
    (cut : data.length = 0 ∨ conf.traceDataLen = data.length ∨
      zcmsgLen conf size data.length ≤ intMax ∧ conf.traceDataLen ≤ data.length + tpHdrLen)
    (allocated : allocZcmsg conf left pool.allocs none size .ok data.length = .ok draft)
    (set_ : rmrSetTrace conf.order left draft data = .ok traced) :
    traced.msg.Sized conf.order := by
  have sized : draft.msg.Sized conf.order := by
    refine allocZcmsg_sized ready ?_ small allocated
    rintro _ ⟨⟩
  refine rmrSetTrace_sized sized ?_ set_
  -- The header tells of the trace data of the context.
  obtain ⟨tpBuf, mlen, tpBufIs, -, allocLen, from_⟩ := allocZcmsg_cases allocated
  have trLen : rmrTrLen conf.order draft.msg.tpBuf = conf.traceDataLen := by
    rw [tpBufIs]
    exact (freshHeader_lens conf _ ready.trace (by rw [ready.data1]; decide)).2.1
  rw [Retains, trLen]
  refine cut.imp_right (Or.imp_right fun ⟨whole, cut⟩ => ?_)
  rcases from_ with ⟨mlenIs, -⟩ | ⟨msg, is, -⟩
  · have low := zcmsgLen_low ready size data.length
    rw [allocLen, mlenIs, toInt_of_inInt ⟨by simp only [intMin]; omega, whole⟩,
      toInt_natCast ready.trace]
    omega
  · cases is

/-- A call that is asked for with care leaves all message buffers as large as they say. -/
theorem step_sized {event : PoolEvent} (ready : conf.Ready) (same : rcvConf.order = conf.order)
    (all : AllSized conf pool) (careful : Careful conf rcvConf pool event)
    (stepped : step conf rcvConf left pool event = .ok next) : AllSized conf next := by
  -- One case for each call: it hands the sizes it keeps to the pool by the lemma of that call.
  replace all : All (fun msg => msg.Sized conf.order) pool := all
  change All (fun msg => msg.Sized conf.order) next
  cases event with
  | alloc size =>
    obtain ⟨draft, draftIs, made⟩ := bind_eq_ok.mp stepped
    cases made
    refine all.add (allocZcmsg_sized ready ?_ careful draftIs)
    rintro _ ⟨⟩
  | tralloc size data =>
    obtain ⟨draft, draftIs, made⟩ := bind_eq_ok.mp stepped
    obtain ⟨traced, tracedIs, made⟩ := bind_eq_ok.mp made
    cases made
    exact all.add (tralloc_sized ready careful.1 careful.2 draftIs tracedIs)
  | apply id op =>
    rw [step] at stepped
    refine all.withMsg (fun msg is called => ?_) stepped
    obtain ⟨draft, draftIs, made⟩ := bind_eq_ok.mp called
    cases made
    refine all.put id ?_
    rintro _ ⟨⟩
    refine apply_sized (all id msg is) ?_ draftIs
    rintro data rfl
    exact careful msg is
  | realloc id trLen =>
    rw [step] at stepped
    refine all.withMsg (fun msg is called => ?_) stepped
    obtain ⟨draft, draftIs, made⟩ := bind_eq_ok.mp called
    cases made
    exact all.add (reallocMsg_retraced (all id msg is).headed draftIs).sized
  | reallocPayload id payloadLen copy clone =>
    rw [step] at stepped
    refine all.withMsg (fun msg is called => ?_) stepped
    obtain ⟨outcome, outcomeIs, made⟩ := bind_eq_ok.mp called
    cases made
    refine all.putRealloc id clone ?_
    rintro draft rfl
    exact reallocPayload_sized (all id msg is) outcomeIs
  | send id groups =>
    rw [step] at stepped
    refine all.withMsg (fun msg is called => ?_) stepped
    obtain ⟨sent, sentIs, made⟩ := bind_eq_ok.mp called
    cases made
    refine all.put id (rmrSendMsg_sized ready ?_ ?_ sentIs)
    · exact all id msg is
    · exact careful msg is
  | rts id result =>
    rw [step] at stepped
    refine all.withMsg (fun msg is called => ?_) stepped
    obtain ⟨sent, sentIs, made⟩ := bind_eq_ok.mp called
    cases made
    refine all.put id (rmrRtsMsg_sized ready ?_ ?_ sentIs)
    · exact all id msg is
    · exact careful msg is
  | whSend id wormhole =>
    rw [step] at stepped
    refine all.withMsg (fun msg is called => ?_) stepped
    obtain ⟨sent, sentIs, made⟩ := bind_eq_ok.mp called
    cases made
    refine all.put id (rmrWhSendMsg_sized ready ?_ ?_ sentIs)
    · exact all id msg is
    · exact careful msg is
  | receive rawMsg fd =>
    obtain ⟨delivery, handed, made⟩ := bind_eq_ok.mp stepped
    cases made
    have sized : ∀ mbuf, delivery.mbuf? = some mbuf → mbuf.Sized conf.order := by
      intro mbuf is
      have fit := (buf2mbuf_made handed is).1
      have sized := buf2mbuf_sized (careful fit) handed is
      rw [same] at sized
      exact sized
    refine all.receive ?_ ?_
    · rintro mbuf rfl
      exact (sized mbuf rfl).keep rfl rfl rfl rfl
    · rintro callId mbuf rfl
      exact sized mbuf rfl
  | free id =>
    cases stepped
    exact all.drop id

/-- What the receive thread hands over has the size that it was allocated with. -/
theorem run_held {steps : List RcvStep} {rcv : Rcv}
    (ran : Rcv.run rcvConf left steps = .ok rcv) {call : Call} (handed : call ∈ rcv.calls) :
    (call.rawMsg.size : Int) = call.msgSize := by
  have agree := Rcv.run_shows rcvConf left steps
  rw [ran] at agree
  cases viewed : Stage.run rcvConf steps with
  | none =>
    rw [viewed] at agree
    cases agree
  | some stage =>
    rw [viewed] at agree
    cases agree with
    | ok shows_ =>
      -- Each call was made for one frame, in a buffer whose size it tells.
      obtain ⟨place, low, is⟩ := List.getElem_of_mem handed
      have at_ := shows_.calls.get low (shows_.calls.length_eq ▸ low)
      exact is ▸ at_.size

/-- What the receive thread hands over is received in all of the buffer that it was gathered in. -/
theorem step_receives {steps : List RcvStep} {rcv : Rcv}
    (ran : Rcv.run rcvConf left steps = .ok rcv) {call : Call} (handed : call ∈ rcv.calls) :
    pool.step conf rcvConf left (.receive call.rawMsg call.fd) =
      pool.receive <$> buf2mbuf rcvConf call.rawMsg call.msgSize call.fd := by
  rw [← run_held ran handed]
  rfl

/-- In every run of calls that are asked for with care, every message buffer has the length that it
says it has, and the payload that it offers ends in it. -/
theorem run_honest (conf : SendConf) (rcvConf : RcvConf) (left : Leftover)
    (events : List PoolEvent) (ready : conf.Ready) (same : rcvConf.order = conf.order)
    (careful : Along (step conf rcvConf left) (Careful conf rcvConf) init events) {pool : Pool}
    (ran : run conf rcvConf left events = .ok pool) {id : Nat} {msg : Mbuf}
    (live : pool.msgs id = some msg) : msg.Honest conf.order := by
  -- A run starts with no message buffers at all.
  have none_ : AllSized conf init := fun _ _ is => by cases is
  have all : AllSized conf pool :=
    careful.keeps (fun all careful stepped => step_sized ready same all careful stepped) none_ ran
  exact (all id msg live).honest

instance decidableRetains (order : ByteOrder) (msg : Mbuf) (size : Nat) :
    Decidable (Retains order msg size) :=
  inferInstanceAs (Decidable (_ ∨ _))

instance decidableReplaceable (conf : SendConf) (tpBuf : Block) :
    Decidable (Replaceable conf tpBuf) :=
  inferInstanceAs (Decidable (_ < _))

instance decidableFramesHeader (order : ByteOrder) (rawMsg : Block) :
    Decidable (FramesHeader order rawMsg) :=
  inferInstanceAs (Decidable (_ ∧ _))

instance decidableCareful (conf : SendConf) (rcvConf : RcvConf) (pool : Pool) :
    (event : PoolEvent) → Decidable (Careful conf rcvConf pool event)
  | .alloc _ => inferInstanceAs (Decidable (_ < _))
  | .tralloc _ _ => inferInstanceAs (Decidable (_ ∧ _))
  | .apply id (.trace _) => inferInstanceAs (Decidable (∀ msg ∈ pool.msgs id, Retains _ _ _))
  | .apply _ (.mtype _) => .isTrue trivial
  | .apply _ (.subId _) => .isTrue trivial
  | .apply _ (.xact _) => .isTrue trivial
  | .apply _ (.meid _) => .isTrue trivial
  | .apply _ (.payload _) => .isTrue trivial
  | .realloc _ _ => .isTrue trivial
  | .reallocPayload _ _ _ _ => .isTrue trivial
  | .send id _ => inferInstanceAs (Decidable (∀ msg ∈ pool.msgs id, Replaceable _ _))
  | .rts id _ => inferInstanceAs (Decidable (∀ msg ∈ pool.msgs id, Replaceable _ _))
  | .whSend id _ => inferInstanceAs (Decidable (∀ msg ∈ pool.msgs id, Replaceable _ _))
  | .receive _ _ => inferInstanceAs (Decidable (_ → _))
  | .free _ => .isTrue trivial

/-- Trace data of a length that grows and shrinks by little, more room for the payload, sends to
several groups, and a frame that arrives. -/
def busyDay : List PoolEvent :=
  [.alloc 100, .apply 0 (.payload [1, 2]), .apply 0 (.trace (List.replicate 60 7)),
    .apply 0 (.trace (List.replicate 12 7)), .reallocPayload 0 200 true false, .realloc 0 5,
    .reallocPayload 1 4 false true, .send 0 [some .ok, none, some .blocked, some .ok],
    .rts 0 (some .failed), .tralloc 10 [1, 2], .whSend 2 (.open_ .ok),
    .receive (Block.ofList (List.replicate 246 0 ++ bytes32 .big mhdrLen ++
      List.replicate 100 0)) 5, .free 1]

/-- A busy day leaves a message that is as large as it says. -/
theorem run_honest_busy :
    Along (step SendConf.plain RcvConf.default (fun _ _ => 0))
        (Careful SendConf.plain RcvConf.default) init busyDay ∧
      Yields (fun pool => ∃ msg, pool.msgs 0 = some msg ∧ msg.Honest .little)
        (run SendConf.plain RcvConf.default (fun _ _ => 0) busyDay) := by
  -- The care is decided along the run; the theorem then tells of the message that is left.
  have careful : Along (step SendConf.plain RcvConf.default (fun _ _ => 0))
      (Careful SendConf.plain RcvConf.default) init busyDay := by
    decide +kernel
  have live : Yields (fun pool => (pool.msgs 0).isSome = true)
      (run SendConf.plain RcvConf.default (fun _ _ => 0) busyDay) := by
    decide +kernel
  obtain ⟨pool, ran, some_⟩ := live.exists
  obtain ⟨msg, is⟩ := Option.isSome_iff_exists.mp some_
  exact ⟨careful, Yields.intro ran
    ⟨msg, is, run_honest SendConf.plain RcvConf.default (fun _ _ => 0)
    busyDay ⟨by decide, rfl⟩ rfl careful ran is⟩⟩

/-- Trace data that is set and then cut by ninety bytes: the buffer has forty bytes less than the
message says, and as much less than the payload that it offers. -/
theorem cut_trace_overstates :
    Yields (fun pool => ∃ msg ∈ pool.msgs 0, msg.allocLen = 434 ∧ msg.tpBuf.size = 394 ∧
        (msg.payload : Int) + rmrPayloadSize .little msg = 434 ∧ ¬ msg.Honest .little)
      (run SendConf.plain RcvConf.default (fun _ _ => 0)
        [.alloc 100, .apply 0 (.trace (List.replicate 100 7)),
          .apply 0 (.trace (List.replicate 10 7))]) := by
  decide +kernel

end Pool

end Rmr
