import Rmr.Proofs.Message.Pool
import Rmr.Proofs.Message.Marks

/-! The flag that keeps a send from allocating is off in every message that an application has,
unless a call found no entry in the route table, or could not send through a wormhole. -/

namespace Rmr

/-- A message that comes back, and that a send may allocate for. -/
def Returned (sent : Option Draft) : Prop :=
  ∃ next, sent = some next ∧ next.msg.noAlloc = false

section
variable {conf : SendConf} {left : Leftover} {draft : Draft} {sent : Option Draft}

/-- What comes back is one that a send may allocate for. -/
theorem Returned.clean (returned : Returned sent) : ∀ next ∈ sent, next.msg.noAlloc = false := by
  obtain ⟨next, rfl, clean⟩ := returned
  rintro _ ⟨⟩
  exact clean

/-- A send of a message with the flag off returns one, whatever it comes to. -/
theorem trySend_returns {result : SendResult} (clean : draft.msg.noAlloc = false)
    (tried : trySend conf left draft result = .ok sent) : Returned sent := by
  -- Without the flag a send that went well allocates the next message, which has none either.
  obtain ⟨bytes, -, ⟨-, flagged, -⟩ | ⟨-, -, next, rfl, nextIs⟩ | ⟨-, state, -, rfl⟩⟩ :=
    trySend_cases tried
  · rw [clean] at flagged
    cases flagged
  · exact ⟨next, rfl, congrArg Marks.noAlloc (allocZcmsg_marks nextIs)⟩
  · exact ⟨_, rfl, clean⟩

/-- Sends to one group after the other return a message: each clone is made before the flag is put
on. -/
theorem fanOut_returns {groups : List (Option SendResult)} {okSends : Bool}
    {tries : Option Draft × Bool} (clean : draft.msg.noAlloc = false)
    (tried : fanOut conf left draft okSends groups = .ok tries) : Returned tries.1 := by
  -- By induction on the groups: all but the last are sent a clone, and the message itself stays.
  fun_induction fanOut conf left draft okSends groups with
  | case1 draft okSends =>
    cases tried
    exact ⟨draft, rfl, clean⟩
  | case2 draft okSends groups ih => exact ih clean tried
  | case3 draft okSends result =>
    obtain ⟨last, lastIs, made⟩ := bind_eq_ok.mp tried
    cases made
    exact trySend_returns clean lastIs
  | case4 draft okSends result groups more unsent done =>
    obtain ⟨clone, cloneIs, tried⟩ := bind_eq_ok.mp tried
    obtain ⟨first, -, tried⟩ := bind_eq_ok.mp tried
    have cloneClean : clone.msg.noAlloc = false :=
      (congrArg Marks.noAlloc (cloneMsg_marks cloneIs)).trans clean
    cases first with
    | some msg => exact unsent clone cloneClean tried
    | none => exact done clone cloneClean tried

/-- `mtosend_msg` returns a message if the flag was off. -/
theorem mtosendMsg_returns {groups : List (Option SendResult)} (clean : draft.msg.noAlloc = false)
    (tried : mtosendMsg conf left draft groups = .ok sent) : Returned sent := by
  -- With groups the flag is put on for the last send only, and put off in what comes back.
  unfold mtosendMsg at tried
  split at tried
  · cases tried
    exact ⟨_, rfl, clean⟩
  · obtain ⟨⟨last, okSends⟩, lastIs, made⟩ := bind_eq_ok.mp tried
    cases made
    obtain ⟨next, rfl, -⟩ := fanOut_returns clean lastIs
    exact ⟨_, rfl, rfl⟩

/-- `mtosend_msg` puts the flag off in what it returns, if there was a route table entry. -/
theorem mtosendMsg_clears {groups : List (Option SendResult)} (routed : groups ≠ [])
    (tried : mtosendMsg conf left draft groups = .ok sent) :
    ∀ next ∈ sent, next.msg.noAlloc = false := by
  -- The flag is put off in the last line, after all of the groups.
  unfold mtosendMsg at tried
  rw [if_neg routed] at tried
  obtain ⟨⟨last, okSends⟩, -, made⟩ := bind_eq_ok.mp tried
  cases made
  intro next is
  obtain ⟨final, -, rfl⟩ := Option.mem_map.mp is
  rfl

/-- `rmr_send_msg` returns a message if the flag was off. -/
theorem rmrSendMsg_returns {groups : List (Option SendResult)} (clean : draft.msg.noAlloc = false)
    (tried : rmrSendMsg conf left draft groups = .ok sent) : Returned sent := by
  -- Putting off the call flag and the call id leaves the flag for allocation off.
  obtain ⟨msg, msgIs, tried⟩ := bind_eq_ok.mp tried
  obtain ⟨blotted, -, made⟩ := bind_eq_ok.mp msgIs
  cases made
  exact mtosendMsg_returns (by exact clean) tried

/-- `rmr_rts_msg` returns a message if the flag was off. -/
theorem rmrRtsMsg_returns {result : Option SendResult} (clean : draft.msg.noAlloc = false)
    (tried : rmrRtsMsg conf left draft result = .ok sent) : Returned sent := by
  -- Without a way back the message is returned at once; else it is what came of the send.
  cases result with
  | none =>
    cases tried
    exact ⟨_, rfl, clean⟩
  | some result =>
    obtain ⟨holdSrc, holdIp, last, -, -, lastIs, rfl⟩ := rmrRtsMsg_steps tried
    obtain ⟨next, rfl, off⟩ := trySend_returns (by exact clean) lastIs
    exact ⟨next.restoreSource holdSrc holdIp, rfl, off⟩

/-- `rmr_wh_send_msg` returns a message if the flag was off. -/
theorem rmrWhSendMsg_returns {wormhole : Wormhole} (clean : draft.msg.noAlloc = false)
    (tried : rmrWhSendMsg conf left draft wormhole = .ok sent) : Returned sent := by
  -- The cases are those of the wormhole; only the open one leads to a send.
  cases wormhole with
  | noneOpen =>
    cases tried
    exact ⟨_, rfl, clean⟩
  | invalid =>
    cases tried
    exact ⟨_, rfl, clean⟩
  | open_ result =>
    obtain ⟨msg, msgIs, tried⟩ := bind_eq_ok.mp tried
    obtain ⟨blotted, -, made⟩ := bind_eq_ok.mp msgIs
    cases made
    exact trySend_returns (by exact clean) tried

end

/-- A call gets to where its request goes out, or to nowhere: it is refused, or there is an entry in
the route table, or a wormhole through which the request is sent. -/
def Calling.Reaches : Calling → Prop
  | .call groups => groups ≠ []
  | .mtCall callId groups => maxCallId < callId ∨ callId < 2 ∨ groups ≠ []
  | .whCall _ .noneOpen => True
  | .whCall _ .invalid => True
  | .whCall _ (.open_ .ok) => True
  | .whCall _ (.open_ .blocked) => False
  | .whCall _ (.open_ .failed) => False

section
variable {conf : SendConf} {left : Leftover} {draft : Draft} {sent : Option Draft}

/-- A request is sent with the flag on; what comes back of it is what came back from the send. -/
theorem mtCall_cases {callId : UInt8} {send : Draft → Except Fault (Option Draft)}
    (called : mtCall conf.order draft callId send = .ok sent) :
    ∃ request back, draft.msg.request conf.order callId = .ok request ∧
      request.noAlloc = true ∧ send { draft with msg := request } = .ok back ∧
      sent = back.filter fun draft => draft.msg.state ≠ .ok := by
  -- The request is what the call makes of the message before it is sent.
  obtain ⟨request, requestIs, called⟩ := bind_eq_ok.mp called
  obtain ⟨back, backIs, made⟩ := bind_eq_ok.mp called
  cases made
  refine ⟨request, back, requestIs, ?_, backIs, rfl⟩
  obtain ⟨d1, -, made⟩ := bind_eq_ok.mp requestIs
  cases made
  rfl

/-- A call that is routed returns no request with the flag on exactly when there is an entry in the
route table. -/
theorem mtCall_routed_iff {callId : UInt8} {groups : List (Option SendResult)}
    (called : mtCall conf.order draft callId (fun draft => mtosendMsg conf left draft groups) =
      .ok sent) :
    (∀ next ∈ sent, next.msg.noAlloc = false) ↔ groups ≠ [] := by
  obtain ⟨request, back, -, flagged, backIs, rfl⟩ := mtCall_cases called
  constructor
  · rintro clean rfl
    -- The message comes straight back.
    cases backIs
    have off := clean _ rfl
    cases flagged.symm.trans off
  · intro routed next is
    exact mtosendMsg_clears routed backIs next (Option.mem_filter_iff.mp is).1

/-- A call through an open wormhole returns no request with the flag on exactly when it is sent. -/
theorem mtCall_wormhole_iff {callId : UInt8} {result : SendResult}
    (called : mtCall conf.order draft callId (fun draft => trySend conf left draft result) =
      .ok sent) :
    (∀ next ∈ sent, next.msg.noAlloc = false) ↔ result = .ok := by
  obtain ⟨request, back, -, flagged, backIs, rfl⟩ := mtCall_cases called
  obtain ⟨bytes, -, ⟨ok, -, rfl⟩ | ⟨-, off, -⟩ | ⟨failed, state, notOk, rfl⟩⟩ :=
    trySend_cases backIs
  · -- There is nothing that could come back.
    refine ⟨fun _ => ok, fun _ => ?_⟩
    rintro _ ⟨⟩
  · cases flagged.symm.trans off
  · refine ⟨fun clean => ?_, fun ok => absurd ok failed⟩
    have off := clean ⟨unsentMsg conf request bytes state, draft.allocs⟩ (by
      refine Option.mem_filter_iff.mpr ⟨rfl, ?_⟩
      exact decide_eq_true notOk)
    cases flagged.symm.trans off

/-- A call returns a message with the flag on exactly when it gets nowhere. -/
theorem Calling.call_clean_iff {calling : Calling} (clean : draft.msg.noAlloc = false)
    (called : calling.call_ conf left draft = .ok sent) :
    (∀ next ∈ sent, next.msg.noAlloc = false) ↔ calling.Reaches := by
  -- One case for each call; only a multi-threaded one can be refused before it is sent.
  cases calling with
  | call groups => exact mtCall_routed_iff called
  | mtCall callId groups =>
    rw [Calling.call_, rmrMtCall] at called
    split at called
    · rename_i refused
      cases called
      refine ⟨fun _ => by unfold Calling.Reaches; tauto, fun _ => ?_⟩
      rintro _ ⟨⟩
      exact clean
    · rename_i accepted
      rw [mtCall_routed_iff called]
      unfold Calling.Reaches
      tauto
  | whCall callId wormhole =>
    cases wormhole with
    | noneOpen =>
      cases called
      refine ⟨fun _ => trivial, fun _ => ?_⟩
      rintro _ ⟨⟩
      exact clean
    | invalid =>
      cases called
      refine ⟨fun _ => trivial, fun _ => ?_⟩
      rintro _ ⟨⟩
      exact clean
    | open_ result =>
      rw [Calling.call_, rmrWhCall] at called
      split at called
      · cases called
      · rw [mtCall_wormhole_iff called]
        cases result with
        | ok => exact ⟨fun _ => trivial, fun _ => rfl⟩
        | blocked => exact ⟨nofun, False.elim⟩
        | failed => exact ⟨nofun, False.elim⟩

end

/-- What was received has the flag off. -/
theorem buf2mbuf_clean {rcvConf : RcvConf} {rawMsg : Block} {fd : Int} {delivery : Delivery}
    {mbuf : Mbuf} (handed : buf2mbuf rcvConf rawMsg rawMsg.size fd = .ok delivery)
    (is : delivery.mbuf? = some mbuf) : mbuf.noAlloc = false := by
  obtain ⟨-, made⟩ := buf2mbuf_made handed is
  exact (congrArg Marks.noAlloc (Mbuf.refTpbuf_marks made)).trans rfl

namespace Pool

variable {conf : SendConf} {rcvConf : RcvConf} {left : Leftover} {pool next : Pool}

/-- No call but those that wait for an answer puts the flag on. -/
theorem step_clean {event : PoolEvent} (all : All (fun msg => msg.noAlloc = false) pool)
    (stepped : step conf rcvConf left pool event = .ok next) :
    All (fun msg => msg.noAlloc = false) next := by
  -- One case for each call, which allocates a message or keeps the flags of one.
  cases event with
  | alloc size =>
    obtain ⟨draft, draftIs, made⟩ := bind_eq_ok.mp stepped
    cases made
    exact all.add (congrArg Marks.noAlloc (allocZcmsg_marks draftIs))
  | tralloc size data =>
    obtain ⟨draft, draftIs, made⟩ := bind_eq_ok.mp stepped
    obtain ⟨traced, tracedIs, made⟩ := bind_eq_ok.mp made
    cases made
    have marks := (rmrSetTrace_marks tracedIs).trans (allocZcmsg_marks draftIs)
    exact all.add (congrArg Marks.noAlloc marks)
  | apply id op =>
    rw [step] at stepped
    refine all.withMsg (fun msg is called => ?_) stepped
    obtain ⟨draft, draftIs, made⟩ := bind_eq_ok.mp called
    cases made
    refine all.put id ?_
    rintro _ ⟨⟩
    exact (congrArg Marks.noAlloc (apply_marks draftIs)).trans (all id msg is)
  | realloc id trLen =>
    rw [step] at stepped
    refine all.withMsg (fun msg is called => ?_) stepped
    obtain ⟨draft, draftIs, made⟩ := bind_eq_ok.mp called
    cases made
    exact all.add ((congrArg Marks.noAlloc (reallocMsg_marks draftIs)).trans (all id msg is))
  | reallocPayload id payloadLen copy clone =>
    rw [step] at stepped
    refine all.withMsg (fun msg is called => ?_) stepped
    obtain ⟨outcome, outcomeIs, made⟩ := bind_eq_ok.mp called
    cases made
    refine all.putRealloc id clone ?_
    rintro draft rfl
    have marks := congrArg Marks.noAlloc (reallocPayload_marks outcomeIs)
    cases clone with
    | true => exact marks
    | false => exact marks.trans (all id msg is)
  | send id groups =>
    rw [step] at stepped
    refine all.withMsg (fun msg is called => ?_) stepped
    obtain ⟨sent, sentIs, made⟩ := bind_eq_ok.mp called
    cases made
    exact all.put id (rmrSendMsg_returns (all id msg is) sentIs).clean
  | rts id result =>
    rw [step] at stepped
    refine all.withMsg (fun msg is called => ?_) stepped
    obtain ⟨sent, sentIs, made⟩ := bind_eq_ok.mp called
    cases made
    exact all.put id (rmrRtsMsg_returns (all id msg is) sentIs).clean
  | whSend id wormhole =>
    rw [step] at stepped
    refine all.withMsg (fun msg is called => ?_) stepped
    obtain ⟨sent, sentIs, made⟩ := bind_eq_ok.mp called
    cases made
    exact all.put id (rmrWhSendMsg_returns (all id msg is) sentIs).clean
  | receive rawMsg fd =>
    obtain ⟨delivery, handed, made⟩ := bind_eq_ok.mp stepped
    cases made
    refine all.receive ?_ ?_
    · rintro mbuf rfl
      have clean : mbuf.noAlloc = false := buf2mbuf_clean handed rfl
      exact clean
    · rintro callId mbuf rfl
      exact buf2mbuf_clean handed rfl
  | free id =>
    cases stepped
    exact all.drop id

end Pool

namespace Api

variable {conf : SendConf} {rcvConf : RcvConf} {left : Leftover} {api next : Api}

/-- What is asked of a call: that it gets to where its request goes out, or to nowhere. -/
def Routed (_ : Api) : ApiEvent → Prop
  | .call _ calling => calling.Reaches
  | .pool _ => True
  | .timeout _ _ => True

/-- The flag stays off in all message buffers where each call is such a one. -/
theorem step_clean {event : ApiEvent} (all : api.pool.All fun msg => msg.noAlloc = false)
    (routed : Routed api event) (stepped : step conf rcvConf left api event = .ok next) :
    next.pool.All fun msg => msg.noAlloc = false := by
  -- The calls of the pool put no flag on, and what a routed call returns has none.
  cases event with
  | pool event =>
    obtain ⟨frames, -, stepped⟩ := bind_eq_ok.mp stepped
    obtain ⟨pool, poolIs, made⟩ := bind_eq_ok.mp stepped
    cases made
    exact Pool.step_clean all poolIs
  | call id calling =>
    obtain ⟨pool, poolIs, made⟩ := bind_eq_ok.mp stepped
    cases made
    refine all.withMsg (fun msg is called => ?_) poolIs
    obtain ⟨back, backIs, made⟩ := bind_eq_ok.mp called
    cases made
    exact all.put id ((Calling.call_clean_iff (by exact all id msg is) backIs).mpr routed)
  | timeout id polled =>
    cases stepped
    show (api.pool.timeOut id polled).All _
    unfold Pool.timeOut
    split
    · exact all
    · rename_i msg is
      refine all.put id ?_
      rintro _ ⟨⟩
      exact all id msg is

/-- In every run whose calls all get to where their request goes out, or to nowhere, the flag is off
in every message that the application has, so that sending it returns a message, whatever that comes
to. -/
theorem run_flag_off (conf : SendConf) (rcvConf : RcvConf) (left : Leftover)
    (events : List ApiEvent) (routed : Along (step conf rcvConf left) Routed init events)
    {api : Api} (ran : run conf rcvConf left events = .ok api) {id : Nat} {msg : Mbuf}
    (live : api.pool.msgs id = some msg) :
    msg.noAlloc = false ∧
      (∀ groups sent, rmrSendMsg conf left ⟨msg, api.pool.allocs⟩ groups = .ok sent →
        Returned sent) ∧
      (∀ result sent, rmrRtsMsg conf left ⟨msg, api.pool.allocs⟩ result = .ok sent →
        Returned sent) ∧
      ∀ wormhole sent, rmrWhSendMsg conf left ⟨msg, api.pool.allocs⟩ wormhole = .ok sent →
        Returned sent := by
  -- The flag is off in every message of the run, and each way of sending then returns one.
  have none_ : init.pool.All fun msg => msg.noAlloc = false := fun _ _ is => by cases is
  have all : api.pool.All fun msg => msg.noAlloc = false :=
    routed.keeps (fun all routed stepped => step_clean all routed stepped) none_ ran
  have clean := all id msg live
  exact ⟨clean, fun groups sent tried => rmrSendMsg_returns clean tried,
    fun result sent tried => rmrRtsMsg_returns clean tried,
    fun wormhole sent tried => rmrWhSendMsg_returns clean tried⟩

instance decidableReaches : (calling : Calling) → Decidable calling.Reaches
  | .call [] => .isFalse fun routed => routed rfl
  | .call (_ :: _) => .isTrue nofun
  | .mtCall callId [] => decidable_of_iff (maxCallId < callId ∨ callId < 2)
      ⟨fun refused => refused.elim .inl fun low => .inr (.inl low),
        fun reaches => reaches.elim .inl fun rest => rest.elim .inr fun routed => absurd rfl routed⟩
  | .mtCall _ (_ :: _) => .isTrue (.inr (.inr nofun))
  | .whCall _ .noneOpen => .isTrue trivial
  | .whCall _ .invalid => .isTrue trivial
  | .whCall _ (.open_ .ok) => .isTrue trivial
  | .whCall _ (.open_ .blocked) => .isFalse id
  | .whCall _ (.open_ .failed) => .isFalse id

instance decidableRouted (api : Api) : (event : ApiEvent) → Decidable (Routed api event)
  | .call _ calling => decidableReaches calling
  | .pool _ => .isTrue trivial
  | .timeout _ _ => .isTrue trivial

/-- Calls with every outcome of a send, one that is refused, and sends in between. -/
def busyCaller : List ApiEvent :=
  [.pool (.alloc 100), .call 0 (.call [none]), .call 0 (.mtCall 1 []),
    .call 0 (.mtCall 7 [some .ok, some .blocked]), .pool (.alloc 100),
    .call 1 (.mtCall 9 [some .ok, none, some .failed]), .pool (.alloc 100),
    .call 2 (.whCall 3 .invalid), .call 2 (.mtCall 3 [some .failed]),
    .pool (.send 2 [some .failed, some .ok]), .timeout 2 true, .pool (.rts 2 (some .blocked))]

/-- A busy caller has a message with the flag off, which is sent and returned. -/
theorem run_flag_off_busy :
    Along (step SendConf.plain RcvConf.default fun _ _ => 0) Routed init busyCaller ∧
      Yields (fun api => ∃ msg, api.pool.msgs 2 = some msg ∧ msg.noAlloc = false)
        (run SendConf.plain RcvConf.default (fun _ _ => 0) busyCaller) := by
  -- The condition is decided along the run; the theorem then tells of the message that is left.
  have routed : Along (step SendConf.plain RcvConf.default fun _ _ => 0) Routed init
      busyCaller := by
    decide +kernel
  have live : Yields (fun api => (api.pool.msgs 2).isSome = true)
      (run SendConf.plain RcvConf.default (fun _ _ => 0) busyCaller) := by
    decide +kernel
  obtain ⟨api, ran, some_⟩ := live.exists
  obtain ⟨msg, is⟩ := Option.isSome_iff_exists.mp some_
  exact ⟨routed, Yields.intro ran ⟨msg, is, (run_flag_off SendConf.plain RcvConf.default
    (fun _ _ => 0) busyCaller routed ran is).1⟩⟩

/-- A call that finds no entry in the route table returns its message with the flag on; sent later,
and with success, that message is gone. -/
theorem unrouted_call_leaks_flag :
    Yields (fun api => ∃ msg ∈ api.pool.msgs 0, msg.state = .noEndpt ∧ msg.noAlloc = true)
        (run SendConf.plain RcvConf.default (fun _ _ => 0)
          [.pool (.alloc 100), .call 0 (.call [])]) ∧
      Yields (fun api => (api.pool.msgs 0).isNone = true ∧ api.wire.length = 1)
        (run SendConf.plain RcvConf.default (fun _ _ => 0)
          [.pool (.alloc 100), .call 0 (.call []), .pool (.send 0 [some .ok])]) := by
  decide +kernel

end Api

end Rmr
