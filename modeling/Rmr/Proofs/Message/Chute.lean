import Rmr.Message.Chute
import Rmr.Proofs.Message.Exchange
import Rmr.Proofs.Receive.Vetting

/-! Which chutes are ready when a call or an answer selects them: all but the last one. -/

namespace Rmr

section
variable {mem : Option (Nat → Nat)} {left : Nat → Nat} {semInit : Nat → Bool} {i : Nat}

/-- A chute once the loop has been there. -/
def Chute.made (semInit : Nat → Bool) (i : Nat) : Chute :=
  ⟨0, if semInit i then some 0 else none⟩

/-- No semaphore is set up in memory as it is. -/
theorem chuteMem_blank {chute : Chute} (is : (chuteMem left)[i]? = some chute) :
    chute.barrier = none := by
  -- Each entry of the memory is told by its address alone.
  simp only [chuteMem, List.getElem?_map] at is
  obtain ⟨idx, -, rfl⟩ := Option.map_eq_some_iff.mp is
  rfl

/-- A round is for one chute, which nothing was put into so far. -/
theorem round_chutes (made : ChuteInit) (there : Nat)
    (blank : ∀ chute, made.chutes[i]? = some chute →
    chute.barrier = none) :
    (made.round semInit i).chutes[there]? =
      if there = i then made.chutes[i]?.map fun _ => Chute.made semInit i
        else made.chutes[there]? := by
  unfold ChuteInit.round
  by_cases same : there = i
  · subst same
    rw [if_pos rfl]
    -- The address is cleared in any case, the semaphore is set up if that goes well.
    cases at_ : made.chutes[there]? with
    | none => cases inits : semInit there <;> simp [at_]
    | some chute =>
      have none_ := blank chute at_
      cases inits : semInit there <;> simp [at_, Chute.made, inits, none_]
  -- Another chute is not touched by this round.
  · rw [if_neg same]
    cases inits : semInit i <;> simp [Ne.symm same]

/-- The rounds so far have been at the chutes in front, and nothing was put into those behind them.
-/
theorem rounds_chutes (left : Nat → Nat) (semInit : Nat → Bool) (rounds there : Nat) :
    ((List.range rounds).foldl (ChuteInit.round semInit) ⟨chuteMem left, 1⟩).chutes[there]? =
      (chuteMem left)[there]?.map fun chute =>
        if there < rounds then Chute.made semInit there else chute := by
  -- The induction is on the rounds: the last one is at the chute that none was at before.
  induction rounds generalizing there with
  | zero => simp
  | succ rounds ih =>
    rw [List.range_succ, List.foldl_append, List.foldl_cons, List.foldl_nil]
    rw [round_chutes]
    · by_cases same : there = rounds
      · subst same
        rw [if_pos rfl, ih]
        simp
      · rw [if_neg same, ih]
        have before : there < rounds + 1 ↔ there < rounds := by omega
        simp only [before]
    -- The rounds before this one have left its chute as the memory had it.
    · intro chute is
      rw [ih] at is
      obtain ⟨blank, blankIs, rfl⟩ := Option.map_eq_some_iff.mp is
      rw [if_neg (Nat.lt_irrefl rounds)]
      exact chuteMem_blank blankIs

/-- After `init_mtcall` a chute is ready exactly if its index is in front of the last one, there is
memory for it, and its semaphore could be set up. -/
theorem initMtcall_ready_iff (mem : Option (Nat → Nat)) (semInit : Nat → Bool) (index : Int) :
    ChuteReady (initMtcall mem semInit).1 index ↔ ChuteMade mem semInit index := by
  cases mem with
  -- Without memory there are no chutes, and so none of them is ready.
  | none =>
    constructor
    · intro ready
      obtain ⟨made, is, -⟩ := ready.init
      cases is
    · intro made
      exact absurd rfl made.allocated
  | some left =>
    have at_ := rounds_chutes left semInit maxCallId.toNat index.toNat
    constructor
    -- A chute that is ready has a semaphore that a round set up.
    · intro ready
      obtain ⟨made, is, chute⟩ := ready.init
      cases is
      rw [at_] at chute
      obtain ⟨blank, blankIs, is⟩ := Option.map_eq_some_iff.mp chute
      have low := ready.low
      have high := ready.high
      by_cases inside : index.toNat < maxCallId.toNat
      · rw [if_pos inside] at is
        refine ⟨low, by omega, Option.some_ne_none left, ?_⟩
        by_contra off
        rw [Bool.not_eq_true] at off
        simp [Chute.made, off] at is
      · -- The loop has not been at the last chute.
        rw [if_neg inside] at is
        have blank := chuteMem_blank blankIs
        rw [is] at blank
        cases blank
    -- In front of the last one the loop was there, and the set-up that went well left the
    -- semaphore.
    · intro made
      have low := made.low
      have high := made.high
      refine ⟨low, le_of_lt high, _, rfl, ?_⟩
      have inside : index.toNat < maxCallId.toNat := by omega
      have room : index.toNat < maxCallId.toNat + 1 := by omega
      rw [at_, chuteMem, List.getElem?_map, List.getElem?_range room]
      simp [inside, Chute.made, made.inited]

end

section
variable {conf : SendConf} {rcvConf : RcvConf} {leftover : Leftover} {draft : Draft}
  {order : ByteOrder} {msg : Mbuf} {waiting : Waiting}

/-- The byte that `mt_call` writes is the id if that is a byte. -/
theorem request_byte {callId : UInt8} {request : Mbuf}
    (made : msg.request order callId = .ok request) :
    request.tpBuf.byte (data1Addr order msg.tpBuf) = callId := by
  -- The id is the last byte that is written, so it is what is read.
  obtain ⟨filled, filledIs, made⟩ := bind_eq_ok.mp made
  cases made
  obtain ⟨-, rfl⟩ := Block.memcpy_inside filledIs
  -- The flags do not move data 1.
  have marked : data1Addr order (msg.markCall order).tpBuf = data1Addr order msg.tpBuf :=
    (data1_congr order (putFlags_apart _ _ (Or.inr (by decide)))).2
  rw [← marked]
  exact overlay_byte _ _ _

/-- An id that is a byte is all there in the message. -/
theorem ofInt_toNat {callId : Int} (low : 0 ≤ callId) (high : callId ≤ maxCallId) :
    ((UInt8.ofInt callId).toNat : Int) = callId := by
  simp only [maxCallId] at high
  -- Up to the largest id the conversion to a byte takes nothing away.
  have whole : callId % 2 ^ 8 = callId := by omega
  rw [UInt8.ofInt, whole, UInt8.toNat_ofNat']
  omega

/-- What a call sends is the request with the id of its chute. -/
theorem callWith_waits (calling : Calling) (is : calling.waits conf.order draft.msg = some waiting)
    (low : 0 ≤ waiting.chute) (high : waiting.chute ≤ maxCallId) :
    calling.call_ conf leftover draft = do
      let request ← waiting.request
      let sent ← calling.sends conf leftover { draft with msg := request }
      return sent.filter fun draft => draft.msg.state ≠ .ok := by
  -- `rmr_call` and its siblings narrow the id one way or the other, to the same byte.
  have byte : ∀ callId : Int, 0 ≤ callId → callId ≤ maxCallId →
      UInt8.ofNat callId.toNat = UInt8.ofInt callId := by
    intro callId low high
    simp only [maxCallId] at high
    have whole : callId % 2 ^ 8 = callId := by omega
    rw [UInt8.ofInt, whole]
  cases calling with
  | call groups =>
    cases is
    rfl
  | mtCall callId groups =>
    -- An id that is turned down sends nothing and waits for nothing.
    rw [Calling.waits] at is
    by_cases vetted : maxCallId < callId ∨ callId < 2
    · rw [if_pos vetted] at is
      cases is
    · rw [if_neg vetted] at is
      cases is
      rw [Calling.call_, rmrMtCall, if_neg vetted, byte callId low high]
      rfl
  | whCall callId wormhole =>
    cases wormhole with
    | noneOpen => cases is
    | invalid => cases is
    | open_ result =>
      cases is
      -- The index that was asked for is that of a chute, so `rmr_wh_call` goes on.
      have inside : ¬ (callId < 0 ∨ maxCallId < callId) :=
        not_or.mpr ⟨Int.not_lt.mpr low, Int.not_lt.mpr high⟩
      rw [Calling.call_, rmrWhCall, if_neg inside, byte callId low high]
      rfl

/-- A call waits on the chute of an id; the request has that id, if its chute is one that there is.
-/
theorem mtCallWaits_safe_iff (mem : Option (Nat → Nat)) (semInit : Nat → Bool) (order : ByteOrder)
    (msg : Mbuf) (callId : Int) :
    (ChuteReady (initMtcall mem semInit).1 (mtCallWaits order msg callId).chute ∧
      ∀ request, (mtCallWaits order msg callId).request = .ok request →
        ((request.tpBuf.byte (data1Addr order msg.tpBuf)).toNat : Int) =
          (mtCallWaits order msg callId).chute) ↔ ChuteMade mem semInit callId := by
  constructor
  -- The request needs no looking at: readiness alone asks for a vetted id.
  · intro safe
    exact (initMtcall_ready_iff mem semInit callId).mp safe.1
  · intro made
    refine ⟨(initMtcall_ready_iff mem semInit callId).mpr made, fun request is => ?_⟩
    rw [request_byte is]
    exact ofInt_toNat made.low (le_of_lt made.high)

/-- The length of the payload does not matter: the message is made, if its room can be told. -/
theorem refTpbuf_iff {rawMsg : Block} (buf : msg.tpBuf = rawMsg) (alen : Int) :
    (∃ mbuf, msg.refTpbuf order alen = .ok mbuf) ↔
      InInt (alen - toInt (rmrHdrLen order rawMsg)) := by
  subst buf
  constructor
  · intro made
    obtain ⟨mbuf, made⟩ := made
    -- The subtraction of the lengths is all that can go wrong.
    obtain ⟨space, spaceIs, -⟩ := bind_eq_ok.mp made
    by_contra outside
    rw [subInt, if_neg outside] at spaceIs
    cases spaceIs
  · intro inside
    have space := subInt_ok inside
    -- Either length of the payload gives a message.
    by_cases less : alen - toInt (rmrHdrLen order msg.tpBuf) <
        toInt (hdrGet order msg.tpBuf .plen)
    · exact ⟨_, bind_eq_ok.mpr ⟨_, space, if_pos less⟩⟩
    · exact ⟨_, bind_eq_ok.mpr ⟨_, space, if_neg less⟩⟩

/-- The chute that `buf2mbuf` puts a message into, if it is for one. -/
theorem buf2mbuf_chute_iff {rawMsg : Block} {msgSize fd : Int} {callId : UInt8} :
    (∃ mbuf, buf2mbuf rcvConf rawMsg msgSize fd = .ok (.chute callId mbuf)) ↔
      lengthsFit rcvConf.order rawMsg msgSize ∧
      InInt (msgSize - toInt (rmrHdrLen rcvConf.order rawMsg)) ∧
      isCall rcvConf.order rawMsg = false ∧ rmrD1Len rcvConf.order rawMsg ≠ 0 ∧
      data1Addr rcvConf.order rawMsg < rawMsg.size ∧
      rawMsg.byte (data1Addr rcvConf.order rawMsg) ≠ 0 ∧
      rawMsg.byte (data1Addr rcvConf.order rawMsg) = callId := by
  constructor
  · intro delivered
    obtain ⟨mbuf, handed⟩ := delivered
    -- What is put into a chute was made of the frame, and `route` chose the chute.
    obtain ⟨fit, made⟩ := buf2mbuf_made handed rfl
    rw [buf2mbuf_route fit made, route] at handed
    have buf : Mbuf.tpBuf { Mbuf.alloc rawMsg .unset with
        rtsFd := fd
        huge := rcvConf.usual < msgSize } = rawMsg := rfl
    have inInt := (refTpbuf_iff buf msgSize).mp ⟨mbuf, made⟩
    refine ⟨fit, inInt, ?_⟩
    -- Only the last branch is that of a chute.
    split at handed
    · cases handed
    rename_i call
    split at handed
    · cases handed
    rename_i some_
    split at handed
    · cases handed
    rename_i inside
    split at handed
    · cases handed
    rename_i set_
    cases handed
    exact ⟨Bool.eq_false_iff.mpr call, some_, Nat.not_le.mp inside, set_, rfl⟩
  · intro told
    obtain ⟨fit, inInt, call, some_, inside, set_, rfl⟩ := told
    have buf : Mbuf.tpBuf { Mbuf.alloc rawMsg .unset with
        rtsFd := fd
        huge := rcvConf.usual < msgSize } = rawMsg := rfl
    obtain ⟨mbuf, made⟩ := (refTpbuf_iff buf msgSize).mpr inInt
    refine ⟨mbuf, ?_⟩
    rw [buf2mbuf_route fit made, route, call, if_neg Bool.false_ne_true, if_neg some_,
      if_neg (Nat.not_le.mpr inside), if_neg set_]

/-- What selects a chute is safe exactly if the id is vetted: the loop of `init_mtcall` leaves the
last chute out, and nobody looks at what `rmr_wh_call` is given. -/
theorem chuteUse_safe_iff (rcvConf : RcvConf) (mem : Option (Nat → Nat)) (semInit : Nat → Bool)
    (chuteUse : ChuteUse) :
    chuteUse.Safe rcvConf (initMtcall mem semInit).1 ↔ chuteUse.Vetted rcvConf mem semInit := by
  cases chuteUse with
  | call msg calling =>
    cases calling with
    | call groups =>
      -- `rmr_call` always waits on chute 1.
      simp only [ChuteUse.Safe, ChuteUse.Vetted, Calling.waits, Option.some.injEq, forall_eq']
      exact mtCallWaits_safe_iff mem semInit rcvConf.order msg 1
    | mtCall callId groups =>
      simp only [ChuteUse.Safe, ChuteUse.Vetted, Calling.waits]
      by_cases refused : maxCallId < callId ∨ callId < 2
      · -- No chute is selected.
        simp only [if_pos refused, reduceCtorEq, false_imp_iff, implies_true, true_iff]
        intro low high
        omega
      -- The ids that are let through include that of the last chute, which was not set up.
      · simp only [if_neg refused, Option.some.injEq, forall_eq']
        refine (mtCallWaits_safe_iff mem semInit rcvConf.order msg callId).trans ?_
        exact ⟨fun made _ _ => made, fun made => made (by omega) (by omega)⟩
    | whCall callId wormhole =>
      cases wormhole with
      | noneOpen => simp [ChuteUse.Safe, ChuteUse.Vetted, Calling.waits]
      | invalid => simp [ChuteUse.Safe, ChuteUse.Vetted, Calling.waits]
      | open_ result =>
        -- Nobody looks at what `rmr_wh_call` is given, so the id must be vetted as it is.
        simp only [ChuteUse.Safe, ChuteUse.Vetted, Calling.waits, Option.some.injEq, forall_eq']
        exact mtCallWaits_safe_iff mem semInit rcvConf.order { msg with state := .ok } callId
  | inbound rawMsg msgSize fd =>
    -- What is put in from the receiving side is told by the first byte of data 1.
    constructor
    · intro safe fit inInt call some_ inside set_
      obtain ⟨mbuf, handed⟩ := buf2mbuf_chute_iff.mpr ⟨fit, inInt, call, some_, inside, set_, rfl⟩
      exact (initMtcall_ready_iff mem semInit _).mp (safe _ mbuf handed)
    · intro vetted callId mbuf handed
      obtain ⟨fit, inInt, call, some_, inside, set_, rfl⟩ := buf2mbuf_chute_iff.mp ⟨mbuf, handed⟩
      exact (initMtcall_ready_iff mem semInit _).mpr (vetted fit inInt call some_ inside set_)

end

/-- A frame without a payload, with four bytes of data 1 that start with an id. -/
def answerFrame (callId : UInt8) : Block :=
  let hdr := Block.ofList (List.replicate (tpHdrLen + mhdrLen) 0 ++ [callId, 0, 0, 0])
  let hdr := hdr.setNet32 .little HdrField.len0.offset mhdrLen
  hdr.setNet32 .little HdrField.len2.offset 4

/-- The largest id that `rmr_mt_call` takes is that of a chute that was not initialised, although
there is memory for it and each semaphore can be set up. It is the same for a frame whose first byte
of data 1 is that id, and for an id of `rmr_wh_call` that is no index of a chute at all. -/
theorem mtCall_last_chute :
    ¬ ChuteUse.Safe RcvConf.default (initMtcall (some fun _ => 0) fun _ => true).1
        (.call (Mbuf.alloc (headersOnly 0) .ok) (.mtCall 255 [])) ∧
      ¬ ChuteUse.Safe RcvConf.default (initMtcall (some fun _ => 0) fun _ => true).1
        (.call (Mbuf.alloc (headersOnly 0) .ok) (.whCall 257 (.open_ .ok))) ∧
      ¬ ChuteUse.Safe RcvConf.default (initMtcall (some fun _ => 0) fun _ => true).1
        (.inbound (answerFrame 255) 334 7) := by
  refine ⟨fun safe => ?_, fun safe => ?_, fun safe => ?_⟩
  -- The condition asks for an index in front of the last one.
  · have ready := (safe _ rfl).1
    exact absurd ((initMtcall_ready_iff _ _ _).mp ready).high (by decide)
  · have ready := (safe _ rfl).1
    exact absurd ((initMtcall_ready_iff _ _ _).mp ready).high (by decide)
  · have routed : lengthsFit .little (answerFrame 255) 334 ∧
        InInt (334 - toInt (rmrHdrLen .little (answerFrame 255))) ∧
        isCall .little (answerFrame 255) = false ∧ rmrD1Len .little (answerFrame 255) ≠ 0 ∧
        data1Addr .little (answerFrame 255) < (answerFrame 255).size ∧
        (answerFrame 255).byte (data1Addr .little (answerFrame 255)) ≠ 0 ∧
        (answerFrame 255).byte (data1Addr .little (answerFrame 255)) = 255 := by
      -- The frame is one that `buf2mbuf` takes for an answer to call 255.
      decide +kernel
    obtain ⟨mbuf, handed⟩ :=
      (@buf2mbuf_chute_iff RcvConf.default (answerFrame 255) 334 7 255).mpr routed
    exact absurd ((initMtcall_ready_iff _ _ _).mp (safe _ mbuf handed)).high (by decide)

end Rmr
