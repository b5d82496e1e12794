import Rmr.Message.Returns
import Rmr.Proofs.Message.NoAlloc
import Rmr.Proofs.Transport.Towards

/-! A message is returned to the process that sent it, as long as the session that it arrived on is
not closed and no copy of it is made that has another descriptor. -/

namespace Rmr

section
variable {conf : SendConf} {left : Leftover} {draft : Draft} {sent : Option Draft}

/-- A message that `mtosend_msg` gives back is a clone: some group but the last one was sent to, and
the last attempt did not succeed. -/
def clonesBack (groups : List (Option SendResult)) : Bool :=
  groups.getLast? ≠ some (some .ok) && groups.dropLast.any Option.isSome

/-- A message to send next was not received; one that was not sent is the same as before. -/
theorem trySend_rtsFd {result : SendResult} (tried : trySend conf left draft result = .ok sent) :
    ∀ next ∈ sent, next.msg.rtsFd = if result = .ok then -1 else draft.msg.rtsFd := by
  -- The three outcomes of `send_msg`: nothing, a message to send next, or the one that was not
  -- sent.
  obtain ⟨bytes, -, ⟨-, -, rfl⟩ | ⟨went, -, next, rfl, nextIs⟩ | ⟨failed, state, -, rfl⟩⟩ :=
    trySend_cases tried
  · intro next is
    cases is
  · intro other is
    cases is
    rw [if_pos went]
    exact congrArg Marks.rtsFd (allocZcmsg_marks nextIs)
  · intro next is
    cases is
    rw [if_neg failed]
    rfl

/-- What comes back from a fan-out has no descriptor if the last attempt succeeded, that of cleared
memory if it is a clone, and its own otherwise. -/
theorem fanOut_rtsFd {groups : List (Option SendResult)} {okSends : Bool}
    {tries : Option Draft × Bool} (tried : fanOut conf left draft okSends groups = .ok tries) :
    ∀ next ∈ tries.1, next.msg.rtsFd =
      if groups.getLast? = some (some .ok) then -1
      else if groups.dropLast.any Option.isSome then 0 else draft.msg.rtsFd := by
  fun_induction fanOut conf left draft okSends groups with
  | case1 draft okSends =>
    cases tried
    intro next is
    cases is
    rfl
  | case2 draft okSends groups ih =>
    intro next is
    rw [ih tried next is]
    cases groups with
    | nil => rfl
    | cons group groups => simp
  | case3 draft okSends result =>
    obtain ⟨last, lastIs, made⟩ := bind_eq_ok.mp tried
    cases made
    intro next is
    rw [trySend_rtsFd lastIs next is]
    simp
  | case4 draft okSends result groups more unsent done =>
    obtain ⟨clone, cloneIs, tried⟩ := bind_eq_ok.mp tried
    obtain ⟨first, -, tried⟩ := bind_eq_ok.mp tried
    have cleared : clone.msg.rtsFd = 0 := congrArg Marks.rtsFd (cloneMsg_marks cloneIs)
    -- There are more groups, so the clone is what is sent or given back from now on.
    have rest : (some result :: groups).getLast? = groups.getLast? ∧
        (some result :: groups).dropLast.any Option.isSome = true := by
      cases groups with
      | nil => exact absurd rfl more
      | cons group groups => simp
    intro next is
    rw [rest.1, rest.2]
    cases first with
    | some msg =>
      rw [unsent clone tried next is, cleared]
      simp
    | none =>
      rw [done clone tried next is]
      change (if _ then _ else if _ then _ else clone.msg.rtsFd) = _
      rw [cleared]
      simp

/-- The state tells of any success but the last one. -/
theorem fanOut_okSends {groups : List (Option SendResult)} {okSends : Bool}
    {tries : Option Draft × Bool} (tried : fanOut conf left draft okSends groups = .ok tries)
    (went : okSends = true ∨ some .ok ∈ groups.dropLast) : tries.2 = true := by
  fun_induction fanOut conf left draft okSends groups with
  | case1 draft okSends =>
    cases tried
    simpa using went
  | case2 draft okSends groups ih =>
    refine ih tried (went.imp id fun among => ?_)
    cases groups with
    | nil => cases among
    | cons group groups => simpa using among
  | case3 draft okSends result =>
    obtain ⟨last, lastIs, made⟩ := bind_eq_ok.mp tried
    cases made
    simpa using went
  | case4 draft okSends result groups more unsent done =>
    obtain ⟨clone, -, tried⟩ := bind_eq_ok.mp tried
    obtain ⟨first, firstIs, tried⟩ := bind_eq_ok.mp tried
    cases first with
    | none => exact done clone tried (.inl rfl)
    | some msg =>
      refine unsent clone tried (went.imp id fun among => ?_)
      cases groups with
      | nil => exact absurd rfl more
      | cons group groups =>
        rw [List.dropLast_cons_cons] at among
        cases among with
        | tail _ among => exact among
        | head =>
          -- A message comes back although none is wanted, so it was not sent.
          obtain ⟨_, -, ⟨-, -, none_⟩ | ⟨-, flagged, -⟩ | ⟨failed, -⟩⟩ := trySend_cases firstIs
          · cases none_
          · cases flagged
          · exact absurd rfl failed

/-- What `mtosend_msg` gives back has no descriptor, or its own unless it is a clone. -/
theorem mtosendMsg_rtsFd {groups : List (Option SendResult)}
    (tried : mtosendMsg conf left draft groups = .ok sent) :
    ∀ next ∈ sent, next.msg.rtsFd = -1 ∨
      next.msg.rtsFd = if clonesBack groups then 0 else draft.msg.rtsFd := by
  -- Without groups the message is returned; else what the last send gave back.
  unfold mtosendMsg at tried
  split at tried
  · rename_i unrouted
    cases tried
    intro next is
    cases is
    rw [unrouted]
    exact .inr rfl
  · obtain ⟨⟨last, okSends⟩, lastIs, made⟩ := bind_eq_ok.mp tried
    cases made
    intro next is
    obtain ⟨final, finalIs, rfl⟩ := Option.mem_map.mp is
    have rtsFd := fanOut_rtsFd lastIs final finalIs
    change final.msg.rtsFd = -1 ∨ final.msg.rtsFd = _
    rw [rtsFd, clonesBack]
    by_cases went : groups.getLast? = some (some .ok)
    · rw [if_pos went]
      exact .inl rfl
    · rw [if_neg went]
      simp [went]

/-- So does what `rmr_send_msg` gives back. -/
theorem rmrSendMsg_rtsFd {groups : List (Option SendResult)}
    (tried : rmrSendMsg conf left draft groups = .ok sent) :
    ∀ next ∈ sent, next.msg.rtsFd = -1 ∨
      next.msg.rtsFd = if clonesBack groups then 0 else draft.msg.rtsFd := by
  obtain ⟨msg, msgIs, tried⟩ := bind_eq_ok.mp tried
  obtain ⟨blotted, -, made⟩ := bind_eq_ok.mp msgIs
  cases made
  have rtsFd := mtosendMsg_rtsFd tried
  exact rtsFd

/-- What one attempt gives back has no descriptor, or its own. -/
theorem trySend_own {result : SendResult} (tried : trySend conf left draft result = .ok sent) :
    ∀ next ∈ sent, next.msg.rtsFd = -1 ∨ next.msg.rtsFd = draft.msg.rtsFd := by
  intro next is
  rw [trySend_rtsFd tried next is]
  split
  · exact .inl rfl
  · exact .inr rfl

/-- So has what `rmr_rts_msg` gives back. -/
theorem rmrRtsMsg_own {result : Option SendResult}
    (tried : rmrRtsMsg conf left draft result = .ok sent) :
    ∀ next ∈ sent, next.msg.rtsFd = -1 ∨ next.msg.rtsFd = draft.msg.rtsFd := by
  -- Without a way back the message is returned as it was; else what the send gave back.
  cases result with
  | none =>
    cases tried
    intro next is
    cases is
    exact .inr rfl
  | some result =>
    obtain ⟨holdSrc, holdIp, back, -, -, backIs, rfl⟩ := rmrRtsMsg_steps tried
    intro next is
    obtain ⟨before, beforeIs, rfl⟩ := Option.mem_map.mp is
    have own := trySend_own backIs before beforeIs
    change before.msg.rtsFd = -1 ∨ before.msg.rtsFd = draft.msg.rtsFd
    exact own

/-- So has what `rmr_wh_send_msg` gives back. -/
theorem rmrWhSendMsg_own {wormhole : Wormhole}
    (tried : rmrWhSendMsg conf left draft wormhole = .ok sent) :
    ∀ next ∈ sent, next.msg.rtsFd = -1 ∨ next.msg.rtsFd = draft.msg.rtsFd := by
  -- The cases are those of the wormhole; only an open one sends.
  cases wormhole with
  | noneOpen =>
    cases tried
    intro next is
    cases is
    exact .inr rfl
  | invalid =>
    cases tried
    intro next is
    cases is
    exact .inr rfl
  | open_ result =>
    obtain ⟨msg, msgIs, tried⟩ := bind_eq_ok.mp tried
    obtain ⟨blotted, -, made⟩ := bind_eq_ok.mp msgIs
    cases made
    have own := trySend_own tried
    exact own

/-- The groups that the request of a call is sent to. -/
def Calling.groups : Calling → List (Option SendResult)
  | .call groups => groups
  | .mtCall callId groups => if maxCallId < callId ∨ callId < 2 then [] else groups
  | .whCall _ _ => []

/-- A request has the descriptor of the message. -/
theorem request_rtsFd {order : ByteOrder} {msg request : Mbuf} {callId : UInt8}
    (made : msg.request order callId = .ok request) : request.rtsFd = msg.rtsFd := by
  obtain ⟨d1, -, made⟩ := bind_eq_ok.mp made
  cases made
  rfl

/-- A request that comes back has no descriptor, or its own unless it is a clone that was sent to no
group. -/
theorem mtCall_rtsFd {callId : UInt8} {groups : List (Option SendResult)}
    (called : mtCall conf.order draft callId (fun draft => mtosendMsg conf left draft groups) =
      .ok sent) :
    ∀ next ∈ sent, next.msg.rtsFd = -1 ∨
      next.msg.rtsFd = if clonesBack groups ∧ some .ok ∉ groups then 0 else draft.msg.rtsFd := by
  obtain ⟨request, back, requestIs, -, backIs, rfl⟩ := mtCall_cases called
  intro next is
  obtain ⟨is, unsent⟩ := Option.mem_filter_iff.mp is
  have rtsFd := mtosendMsg_rtsFd backIs next is
  change _ ∨ _ = (if clonesBack groups then 0 else request.rtsFd) at rtsFd
  rw [request_rtsFd requestIs] at rtsFd
  by_cases clones : clonesBack groups = true
  · -- Where any send went well, the request does not come back.
    have none_ : some .ok ∉ groups := by
      intro among
      have last : groups.getLast? ≠ some (some .ok) := by
        simp only [clonesBack, Bool.and_eq_true, decide_eq_true_eq] at clones
        exact clones.1
      have routed : groups ≠ [] := List.ne_nil_of_mem among
      have early : some .ok ∈ groups.dropLast := by
        rw [← List.dropLast_append_getLast routed] at among
        refine (List.mem_append.mp among).resolve_right fun is => last ?_
        rw [List.getLast?_eq_some_getLast routed, List.mem_singleton.mp is]
      unfold mtosendMsg at backIs
      rw [if_neg routed] at backIs
      obtain ⟨⟨final, okSends⟩, finalIs, made⟩ := bind_eq_ok.mp backIs
      cases made
      obtain ⟨before, -, rfl⟩ := Option.mem_map.mp is
      have okSendsIs : okSends = true := fanOut_okSends finalIs (.inr early)
      simp [okSendsIs] at unsent
    rw [if_pos clones] at rtsFd
    rw [if_pos ⟨clones, none_⟩]
    exact rtsFd
  · rw [if_neg clones] at rtsFd
    rw [if_neg fun both => clones both.1]
    exact rtsFd

/-- The same for every function that calls. -/
theorem Calling.call_rtsFd {calling : Calling} (called : calling.call_ conf left draft = .ok sent) :
    ∀ next ∈ sent, next.msg.rtsFd = -1 ∨ next.msg.rtsFd =
      if clonesBack calling.groups ∧ some .ok ∉ calling.groups then 0 else draft.msg.rtsFd := by
  -- One case for each call; a refused one returns the message as it was.
  cases calling with
  | call groups => exact mtCall_rtsFd called
  | mtCall callId groups =>
    rw [Calling.call_, rmrMtCall] at called
    split at called
    · rename_i refused
      cases called
      intro next is
      cases is
      simp only [Calling.groups, if_pos refused]
      exact .inr rfl
    · rename_i taken
      simp only [Calling.groups, if_neg taken]
      exact mtCall_rtsFd called
  | whCall callId wormhole =>
    cases wormhole with
    | noneOpen =>
      cases called
      intro next is
      cases is
      exact .inr rfl
    | invalid =>
      cases called
      intro next is
      cases is
      exact .inr rfl
    | open_ result =>
      rw [Calling.call_, rmrWhCall] at called
      dsimp only at called
      split at called
      · cases called
      · obtain ⟨request, back, requestIs, -, backIs, rfl⟩ := mtCall_cases called
        intro next is
        obtain ⟨is, -⟩ := Option.mem_filter_iff.mp is
        have own := trySend_own backIs next is
        have same := request_rtsFd requestIs
        rw [show (if clonesBack (Calling.whCall callId (.open_ result)).groups ∧
          some .ok ∉ (Calling.whCall callId (.open_ result)).groups then (0 : Int)
          else draft.msg.rtsFd) = draft.msg.rtsFd from rfl]
        exact own.imp id fun kept => kept.trans same

end

namespace Pool

variable {conf : SendConf} {rcvConf : RcvConf} {left : Leftover} {pool next : Pool}
  {Holds : Nat → Int → Prop}

/-- Something holds of every message's number and its descriptor for return to sender. -/
def Marked (Holds : Nat → Int → Prop) (pool : Pool) : Prop :=
  ∀ id msg, pool.msgs id = some msg → id < pool.count ∧ Holds id msg.rtsFd

/-- What holds of the message that is new after an event. -/
def born (Holds : Nat → Int → Prop) : PoolEvent → Int → Prop
  | .realloc id _, rtsFd => Holds id rtsFd
  | .reallocPayload id _ _ _, rtsFd => Holds id rtsFd
  | .receive _ fd, rtsFd => rtsFd = fd
  | _, rtsFd => rtsFd = -1

/-- No copy is made that has another descriptor than the message. -/
def KeepsFd (pool : Pool) : PoolEvent → Prop
  | .realloc id _ => ∀ msg ∈ pool.msgs id, msg.rtsFd = 0
  | .send id groups => clonesBack groups = true → ∀ msg ∈ pool.msgs id, msg.rtsFd = 0
  | _ => True

/-- It holds of what comes back, if there is anything. -/
theorem Marked.put (marked : pool.Marked Holds) {id : Nat} {msg : Mbuf}
    (is : pool.msgs id = some msg)
    {draft : Option Draft} (holds : ∀ next ∈ draft, Holds id next.msg.rtsFd) :
    (pool.put id draft).Marked Holds := by
  -- What came back has the number of the message; no other number is written.
  have count : (pool.put id draft).count = pool.count := by cases draft <;> rfl
  intro other found there
  rw [put_msgs] at there
  rw [count]
  split at there
  · rename_i same
    obtain ⟨back, backIs, rfl⟩ := Option.map_eq_some_iff.mp there
    rw [same]
    exact ⟨(marked id msg is).1, holds back backIs⟩
  · exact marked other found there

/-- A message fewer. -/
theorem Marked.drop (marked : pool.Marked Holds) (id : Nat) : (pool.put id none).Marked Holds := by
  -- The id that was taken away holds nothing.
  intro other msg there
  rw [put_msgs] at there
  split at there
  · cases there
  · exact marked other msg there

/-- One more message, of which something else holds. -/
theorem Marked.add (marked : pool.Marked Holds) {New : Int → Prop} {draft : Draft}
    (holds : New draft.msg.rtsFd) :
    (pool.add draft).Marked fun id rtsFd =>
      if id = pool.count then New rtsFd else Holds id rtsFd := by
  -- The new message has the next number, and every other one is where it was.
  intro id msg there
  rw [add_msgs] at there
  split at there
  · rename_i same
    cases there
    refine ⟨same ▸ Nat.lt_succ_self _, ?_⟩
    dsimp only
    rw [if_pos same]
    exact holds
  · rename_i apart
    have before := marked id msg there
    refine ⟨Nat.lt_succ_of_lt before.1, ?_⟩
    dsimp only
    rw [if_neg apart]
    exact before.2

/-- What a call leaves: as many messages, of which the same holds, or one more. -/
def After (Holds : Nat → Int → Prop) (New : Int → Prop) (pool next : Pool) : Prop :=
  next.count = pool.count ∧ next.Marked Holds ∨
    next.count = pool.count + 1 ∧
      next.Marked fun id rtsFd => if id = pool.count then New rtsFd else Holds id rtsFd

/-- A call with a message that comes back, if anything does. -/
theorem Marked.giveBack (marked : pool.Marked Holds) {New : Int → Prop} {id : Nat} {msg : Mbuf}
    (is : pool.msgs id = some msg) {draft : Option Draft}
    (holds : ∀ next ∈ draft, Holds id next.msg.rtsFd) : After Holds New pool (pool.put id draft) :=
  .inl ⟨by cases draft <;> rfl, marked.put is holds⟩

/-- A call with a message leaves what it leaves with that message, or it does nothing. -/
theorem Marked.withMsg (marked : pool.Marked Holds) {New : Int → Prop} {id : Nat}
    {call : Draft → Except Fault Pool} (called : pool.withMsg id call = .ok next)
    (leaves : ∀ msg, pool.msgs id = some msg → call ⟨msg, pool.allocs⟩ = .ok next →
      After Holds New pool next) : After Holds New pool next := by
  -- A number without a message makes the call return at once.
  unfold Pool.withMsg at called
  split at called
  · cases called
    exact .inl ⟨rfl, marked⟩
  · rename_i msg is
    exact leaves msg is called

/-- Each call leaves descriptors of which the same holds, if it makes no copy with another one. -/
theorem step_marked {event : PoolEvent} (unset : ∀ id, Holds id (-1)) (marked : pool.Marked Holds)
    (keeps : pool.KeepsFd event) (stepped : step conf rcvConf left pool event = .ok next) :
    After Holds (born Holds event) pool next := by
  -- What is none or the same as before is as good.
  have own : ∀ {id : Nat} {msg : Mbuf}, pool.msgs id = some msg → ∀ {rtsFd : Int},
      rtsFd = -1 ∨ rtsFd = msg.rtsFd → Holds id rtsFd := by
    intro id msg is rtsFd either
    cases either with
    | inl none_ => exact none_ ▸ unset id
    | inr same => exact same ▸ (marked id msg is).2
  cases event with
  | alloc size =>
    obtain ⟨draft, draftIs, made⟩ := bind_eq_ok.mp stepped
    cases made
    exact .inr ⟨rfl, marked.add (congrArg Marks.rtsFd (allocZcmsg_marks draftIs))⟩
  | tralloc size data =>
    obtain ⟨draft, draftIs, made⟩ := bind_eq_ok.mp stepped
    obtain ⟨traced, tracedIs, made⟩ := bind_eq_ok.mp made
    cases made
    have marks := (rmrSetTrace_marks tracedIs).trans (allocZcmsg_marks draftIs)
    exact .inr ⟨rfl, marked.add (congrArg Marks.rtsFd marks)⟩
  | apply id op =>
    rw [step] at stepped
    refine marked.withMsg stepped fun msg is called => ?_
    obtain ⟨draft, draftIs, made⟩ := bind_eq_ok.mp called
    cases made
    refine marked.giveBack is fun next nextIs => ?_
    cases nextIs
    exact own is (.inr (congrArg Marks.rtsFd (apply_marks draftIs)))
  | realloc id trLen =>
    rw [step] at stepped
    refine marked.withMsg stepped fun msg is called => ?_
    obtain ⟨draft, draftIs, made⟩ := bind_eq_ok.mp called
    cases made
    have cleared : draft.msg.rtsFd = 0 := congrArg Marks.rtsFd (reallocMsg_marks draftIs)
    exact .inr ⟨rfl, marked.add (own is (.inr (cleared.trans (keeps msg is).symm)))⟩
  | reallocPayload id payloadLen copy clone =>
    rw [step] at stepped
    refine marked.withMsg stepped fun msg is called => ?_
    obtain ⟨outcome, outcomeIs, made⟩ := bind_eq_ok.mp called
    cases made
    cases outcome with
    | refused => exact .inl ⟨rfl, marked⟩
    | same => exact .inl ⟨rfl, marked⟩
    | failed =>
      cases clone with
      | true => exact .inl ⟨rfl, marked⟩
      | false => exact .inl ⟨rfl, marked.drop id⟩
    | made draft =>
      have marks := congrArg Marks.rtsFd (reallocPayload_marks outcomeIs)
      cases clone with
      | true => exact .inr ⟨rfl, marked.add (own is (.inr marks))⟩
      | false =>
        change After _ _ pool (pool.put id (some draft))
        refine marked.giveBack is fun next nextIs => ?_
        cases nextIs
        exact own is (.inr marks)
  | send id groups =>
    rw [step] at stepped
    refine marked.withMsg stepped fun msg is called => ?_
    obtain ⟨sent, sentIs, made⟩ := bind_eq_ok.mp called
    cases made
    refine marked.giveBack is fun next nextIs => own is ?_
    have rtsFd := rmrSendMsg_rtsFd sentIs next nextIs
    refine rtsFd.imp_right fun found => ?_
    rw [found]
    split
    · rename_i clones
      exact (keeps clones msg is).symm
    · rfl
  | rts id result =>
    rw [step] at stepped
    refine marked.withMsg stepped fun msg is called => ?_
    obtain ⟨sent, sentIs, made⟩ := bind_eq_ok.mp called
    cases made
    exact marked.giveBack is fun next nextIs => own is (rmrRtsMsg_own sentIs next nextIs)
  | whSend id wormhole =>
    rw [step] at stepped
    refine marked.withMsg stepped fun msg is called => ?_
    obtain ⟨sent, sentIs, made⟩ := bind_eq_ok.mp called
    cases made
    exact marked.giveBack is fun next nextIs => own is (rmrWhSendMsg_own sentIs next nextIs)
  | receive rawMsg fd =>
    obtain ⟨delivery, handed, made⟩ := bind_eq_ok.mp stepped
    cases made
    -- `buf2mbuf` puts the descriptor in.
    have received : ∀ mbuf, delivery.mbuf? = some mbuf → mbuf.rtsFd = fd := by
      intro mbuf is
      obtain ⟨-, made⟩ := buf2mbuf_made handed is
      exact congrArg Marks.rtsFd (Mbuf.refTpbuf_marks made)
    cases delivery with
    | dropped => exact .inl ⟨rfl, marked⟩
    | normal mbuf => exact .inr ⟨rfl, marked.add (received mbuf rfl)⟩
    | chute callId mbuf => exact .inr ⟨rfl, marked.add (received mbuf rfl)⟩
  | free id =>
    cases stepped
    exact .inl ⟨rfl, marked.drop id⟩

end Pool

namespace Api

variable {conf : SendConf} {rcvConf : RcvConf} {left : Leftover} {api next : Api}
  {Holds : Nat → Int → Prop}

/-- What holds of the message that is new after an event. -/
def born (Holds : Nat → Int → Prop) : ApiEvent → Int → Prop
  | .pool event, rtsFd => Pool.born Holds event rtsFd
  | _, rtsFd => rtsFd = -1

/-- No copy is made that has another descriptor than the message, a request that is sent to no group
included. -/
def KeepsFd (api : Api) : ApiEvent → Prop
  | .pool event => api.pool.KeepsFd event
  | .call id calling => clonesBack calling.groups = true → some .ok ∉ calling.groups →
      ∀ msg ∈ api.pool.msgs id, msg.rtsFd = 0
  | .timeout _ _ => True

/-- The same for all that an application does. -/
theorem step_marked {event : ApiEvent} (unset : ∀ id, Holds id (-1))
    (marked : api.pool.Marked Holds)
    (keeps : api.KeepsFd event) (stepped : step conf rcvConf left api event = .ok next) :
    Pool.After Holds (born Holds event) api.pool next.pool := by
  -- One case for each call; only a message that was received brings a descriptor.
  cases event with
  | pool event =>
    obtain ⟨frames, -, stepped⟩ := bind_eq_ok.mp stepped
    obtain ⟨pool, poolIs, made⟩ := bind_eq_ok.mp stepped
    cases made
    exact Pool.step_marked unset marked keeps poolIs
  | call id calling =>
    obtain ⟨pool, poolIs, made⟩ := bind_eq_ok.mp stepped
    cases made
    refine marked.withMsg poolIs fun msg is called => ?_
    obtain ⟨back, backIs, made⟩ := bind_eq_ok.mp called
    cases made
    refine marked.giveBack is fun next nextIs => ?_
    cases Calling.call_rtsFd backIs next nextIs with
    | inl none_ => exact none_ ▸ unset id
    | inr found =>
      have same : next.msg.rtsFd = msg.rtsFd := by
        rw [found]
        split
        · rename_i clones
          exact (keeps clones.1 clones.2 msg is).symm
        · rfl
      exact same ▸ (marked id msg is).2
  | timeout id polled =>
    cases stepped
    change Pool.After Holds _ api.pool (api.pool.timeOut id polled)
    unfold Pool.timeOut
    split
    · exact .inl ⟨rfl, marked⟩
    · rename_i msg is
      refine marked.giveBack is fun next nextIs => ?_
      cases nextIs
      exact (marked id msg is).2

end Api

/-- The descriptor that `SIterm` closes next. -/
def DiscPc.ending : DiscPc → Option Int
  | .term fd => some fd
  | .idle | .del _ _ | .lock _ _ | .setShut _ _ | .revoke _ _ | .unlock _ _ => none

namespace Net

variable {net next : Net} {thread : Nat}

/-- A descriptor for return to sender is as good as long as its session is not closed. -/
theorem Fallback.grows {arrived : Option Nat} {rtsFd : Int} {closed : Nat → Prop}
    (fallback : net.Fallback arrived rtsFd) (grows : net.Grows next closed)
    (spared : ∀ fd : Nat, closed fd → rtsFd ≠ fd) : next.Fallback arrived rtsFd := by
  -- The session that it arrived on is still open, as it was not closed in this step.
  obtain none_ | ⟨fd, session, is, arrivedIs, os⟩ := fallback
  · exact .inl none_
  · exact .inr ⟨fd, session, is, arrivedIs, grows.os os fun closed => spared fd closed is⟩

/-- What a call of `rmr_rts_msg` sends to: an endpoint with the name or the address of the source,
or the session that the message arrived on, if the descriptor is of any. -/
def Leads (net : Net) (call : RtsCall) : Dest → Prop
  | .endpoint ep => net.eps[ep]? = some call.src ∨ net.eps[ep]? = some call.srcip
  | .descriptor sock => ∀ fd session : Nat, sock = fd → net.si.os fd = some session →
    call.arrived = some session

/-- It does whatever becomes of sessions. -/
theorem Leads.grows {call : RtsCall} {dest : Dest} {closed : Nat → Prop}
    (leads : net.Leads call dest) (towards : net.Towards thread dest)
    (grows : net.Grows next closed) : next.Leads call dest := by
  cases dest with
  | endpoint ep => exact leads.imp grows.known grows.known
  | descriptor sock =>
    intro fd session is owns
    rcases grows.back owns with before | unheld
    · exact leads fd session is before
    · -- The descriptor is in the thread's hand, and is not given out.
      obtain ⟨pc, -, dest⟩ | ⟨hand, has, dest⟩ := towards
      · cases pc <;> cases dest
      · refine absurd ?_ (unheld hand (List.mem_of_getElem? has))
        rw [Hand.sock_of_dest dest, is]

/-- Looking an endpoint up keeps what holds. -/
theorem Inv.lookup (inv : net.Inv) (thread : Nat) (name : CStr) : (net.lookup thread name).Inv :=
  (inv.ensure name).look thread _ true

/-- It closes no session. -/
theorem lookup_grows {closed : Nat → Prop} (net : Net) (thread : Nat) (name : CStr) :
    net.Grows (net.lookup thread name) closed := by
  have first : net.Grows (net.ensure name) closed := net.ensure_grows name
  have second : (net.ensure name).Grows (net.lookup thread name) closed :=
    (net.ensure name).look_grows thread _ true
  refine ⟨fun is spared => second.os (first.os is spared) spared, fun is => ?_,
    fun is => second.named (first.named is), fun is => second.known (first.known is)⟩
  -- Neither gives a descriptor out.
  rcases second.back is with before | unheld
  · exact first.back before
  · refine .inr fun hand among => unheld hand ?_
    have hands : (net.ensure name).hands = net.hands := by
      unfold Net.ensure
      split
      · rfl
      · rfl
    rw [hands]
    exact among

/-- A thread that looks a name up goes where it did before, or to the endpoint with that name. -/
theorem towards_lookup {other : Nat} {name : CStr} {dest : Dest}
    (towards : (net.lookup other name).Towards thread dest) :
    net.Towards thread dest ∨ thread = other ∧ ∃ ep, dest = .endpoint ep ∧
      (net.lookup other name).eps[ep]? = some name := by
  -- The name is in the list once it is ensured, at the first place that it is found.
  rcases towards_look towards with before | ⟨same, rfl, known⟩
  · exact .inl (towards_ensure before)
  · refine .inr ⟨same, _, rfl, ?_⟩
    have among : (net.ensure name).eps[(net.ensure name).eps.idxOf name]? = some name := by
      rw [List.getElem?_eq_getElem known, List.getElem_idxOf]
    have grows : (net.ensure name).Grows (net.lookup other name) fun _ => False :=
      (net.ensure name).look_grows other _ true
    exact grows.known among

end Net

namespace RtsSys

variable {conf : SendConf} {rcvConf : RcvConf} {left : Leftover} {sys next : RtsSys}

/-- No session is closed whose descriptor a message has that the application still has, or that is
being returned. -/
def Spares (sys : RtsSys) : NetEvent → Prop
  | .wait => ∀ fd ∈ sys.net.links.disc.ending, ∀ id < sys.api.pool.count,
      ∀ msg ∈ sys.api.pool.msgs id, msg.rtsFd ≠ fd
  | _ => True

/-- That is so, nothing goes wrong with a descriptor that is sent on, and no copy of a message is
made that has another descriptor. -/
def Kept (sys : RtsSys) : RtsEvent → Prop
  | .net event => sys.net.Fine event ∧ sys.Spares event
  | .api event => sys.api.KeepsFd event
  | .sendt thread poll ret more => sys.net.Fine (.sendt thread poll ret more)
  | .receive _ _ | .rts _ _ | .turn _ => True

/-- What holds of a call that a thread is in. -/
structure Calls (sys : RtsSys) (call : RtsCall) : Prop where
  leads : ∀ dest, sys.net.Towards call.thread dest → sys.net.Leads call dest
  arrived : call.arrived = sys.arrived call.id
  placed : call.id < sys.api.pool.count

/-- What holds in every state: of the sessions, of the messages, of the calls, and of what was
returned. -/
structure Inv (sys : RtsSys) : Prop where
  net : sys.net.Inv
  marked : sys.api.pool.Marked fun id rtsFd => sys.net.Fallback (sys.arrived id) rtsFd
  calls : ∀ call ∈ sys.calls, sys.Calls call
  apart : ∀ one ∈ sys.calls, ∀ other ∈ sys.calls, one.thread = other.thread → one = other
  returned : ∀ back ∈ sys.returned, sys.net.peer back.session = some back.src ∨
    sys.net.peer back.session = some back.srcip ∨ back.arrived = some back.session

/-- Nothing is connected, and the application has no message. -/
theorem init_inv (fd threads : Nat) (nnSock : Nat → Int) : (init fd threads nnSock).Inv where
  net := Net.init_inv fd threads nnSock
  marked := fun _ _ is => by cases is
  calls := fun _ is => by cases is
  apart := fun _ is => by cases is
  returned := fun _ is => by cases is

/-- What holds between any two steps is that messages were returned to their senders. -/
theorem Inv.returns (inv : sys.Inv) : sys.Returns where
  returned := inv.returned
  fallback := fun id msg is => (inv.marked id msg is).2

/-- A call that a thread is in is among the calls. -/
theorem callOf_mem {thread : Nat} {call : RtsCall} (is : sys.callOf thread = some call) :
    call ∈ sys.calls ∧ call.thread = thread :=
  ⟨List.mem_of_find?_eq_some is, by simpa using List.find?_some is⟩

/-- A thread that is in no call is none of a call. -/
theorem callOf_ne {thread : Nat} {call : RtsCall} (none_ : sys.callOf thread = none)
    (among : call ∈ sys.calls) : call.thread ≠ thread := by
  simpa using List.find?_eq_none.mp none_ call among

/-- Sessions change, but not those that messages arrived on, and calls go on to where they did. -/
theorem Inv.onNet (inv : sys.Inv) {net : Net} {closed : Nat → Prop} (netInv : net.Inv)
    (grows : sys.net.Grows net closed)
    (spared : ∀ id msg, sys.api.pool.msgs id = some msg → ∀ fd : Nat, closed fd → msg.rtsFd ≠ fd)
    (on : ∀ call ∈ sys.calls, ∀ dest, net.Towards call.thread dest →
      sys.net.Towards call.thread dest ∨ net.Leads call dest) :
    Inv { sys with net := net } where
  -- Messages keep sessions that are open, and calls keep what they lead to.
  net := netInv
  marked := fun id msg is =>
    ⟨(inv.marked id msg is).1, (inv.marked id msg is).2.grows grows (spared id msg is)⟩
  calls := by
    intro call among
    have before := inv.calls call among
    refine ⟨fun dest towards => ?_, before.arrived, before.placed⟩
    rcases on call among dest towards with old | leads
    · exact (before.leads dest old).grows old grows
    · exact leads
  apart := inv.apart
  returned := fun back is => (inv.returned back is).imp grows.named (Or.imp_left grows.named)

/-- The application does something with its messages. -/
theorem Inv.apply (inv : sys.Inv) {event : ApiEvent} {origin : Option Nat}
    (keeps : sys.api.KeepsFd event)
    (bears : ∀ rtsFd, Api.born (fun id rtsFd => sys.net.Fallback (sys.arrived id) rtsFd)
      event rtsFd →
      sys.net.Fallback origin rtsFd)
    (applied : sys.apply conf rcvConf left event origin = .ok next) : next.Inv := by
  obtain ⟨api, apiIs, made⟩ := bind_eq_ok.mp applied
  cases made
  have after := Api.step_marked (fun _ => .inl rfl) inv.marked keeps apiIs
  have grown : sys.api.pool.count ≤ api.pool.count := by
    obtain ⟨count, -⟩ | ⟨count, -⟩ := after
    · omega
    · omega
  refine ⟨inv.net, ?_, ?_, inv.apart, inv.returned⟩
  · obtain ⟨count, marked⟩ | ⟨count, marked⟩ := after
    · intro id msg is
      obtain ⟨live, fallback⟩ := marked id msg is
      refine ⟨live, ?_⟩
      change sys.net.Fallback (sys.arrivedAfter api origin id) msg.rtsFd
      rw [arrivedAfter, if_neg (by omega)]
      exact fallback
    · intro id msg is
      obtain ⟨live, fallback⟩ := marked id msg is
      refine ⟨live, ?_⟩
      change sys.net.Fallback (sys.arrivedAfter api origin id) msg.rtsFd
      rw [arrivedAfter]
      by_cases new : id = sys.api.pool.count
      · rw [if_pos new] at fallback
        rw [if_pos ⟨new, by omega⟩]
        exact bears _ fallback
      · rw [if_neg new] at fallback
        rw [if_neg fun both => new both.1]
        exact fallback
  · -- The messages of calls are there already.
    intro call among
    have before := inv.calls call among
    have placed := before.placed
    refine ⟨before.leads, ?_, Nat.lt_of_lt_of_le placed grown⟩
    change call.arrived = sys.arrivedAfter api origin call.id
    rw [arrivedAfter, if_neg (by omega)]
    exact before.arrived

/-- What the application does besides is one of these, and the messages that are new came from where
they are said to. -/
theorem step_api {event : ApiEvent} (stepped : step conf rcvConf left sys (.api event) = .ok next) :
    next = sys ∨ sys.apply conf rcvConf left event (sys.origin event) = .ok next ∧
      ∀ rtsFd, Api.born (fun id rtsFd => sys.net.Fallback (sys.arrived id) rtsFd) event rtsFd →
        sys.net.Fallback (sys.origin event) rtsFd := by
  -- A message that is being returned is left alone.
  have given : ∀ event : ApiEvent,
      (if ∃ id ∈ event.about, sys.Given id then Except.ok sys
        else sys.apply conf rcvConf left event (sys.origin event)) = .ok next →
      next = sys ∨ sys.apply conf rcvConf left event (sys.origin event) = .ok next := by
    intro event stepped
    split at stepped
    · cases stepped
      exact .inl rfl
    · exact .inr stepped
  have unset : ∀ rtsFd : Int, rtsFd = -1 → sys.net.Fallback none rtsFd := fun _ none_ => .inl none_
  cases event with
  | pool event =>
    cases event with
    | receive rawMsg fd =>
      cases stepped
      exact .inl rfl
    | rts id result =>
      cases stepped
      exact .inl rfl
    | realloc id trLen =>
      exact (given (.pool (.realloc id trLen)) stepped).imp_right fun is =>
        ⟨is, fun _ fallback => fallback⟩
    | reallocPayload id payloadLen copy clone =>
      exact (given (.pool (.reallocPayload id payloadLen copy clone)) stepped).imp_right fun is =>
        ⟨is, fun _ fallback => fallback⟩
    | alloc size => exact (given (.pool (.alloc size)) stepped).imp_right fun is => ⟨is, unset⟩
    | tralloc size data =>
      exact (given (.pool (.tralloc size data)) stepped).imp_right fun is => ⟨is, unset⟩
    | apply id op => exact (given (.pool (.apply id op)) stepped).imp_right fun is => ⟨is, unset⟩
    | send id groups => exact (given (.pool (.send id groups)) stepped).imp_right fun is =>
      ⟨is, unset⟩
    | whSend id wormhole =>
      exact (given (.pool (.whSend id wormhole)) stepped).imp_right fun is => ⟨is, unset⟩
    | free id => exact (given (.pool (.free id)) stepped).imp_right fun is => ⟨is, unset⟩
  | call id calling => exact (given (.call id calling) stepped).imp_right fun is => ⟨is, unset⟩
  | timeout id polled => exact (given (.timeout id polled) stepped).imp_right fun is => ⟨is, unset⟩

/-- `rmr_rts_msg` returns the message, or another one to send. -/
theorem Inv.finish (inv : sys.Inv) {call : RtsCall} {result : Option SendResult}
    (finished : sys.finish conf rcvConf left call result = .ok next) : next.Inv := by
  -- The thread is through first, and then the message or another one is put back.
  have grows : sys.net.Grows (sys.net.leave call.thread) fun _ => False := by
    unfold Net.leave
    split
    · split
      · exact .of_same rfl rfl rfl
      · exact .of_same rfl rfl rfl
    · exact .of_same rfl rfl rfl
  have left_ : Inv { sys with net := sys.net.leave call.thread } := by
    refine inv.onNet (inv.net.leave call.thread) grows (fun _ _ _ _ none_ => none_.elim) ?_
    intro other _ dest towards
    have stepped : (sys.net.step (.leave call.thread)).Towards other.thread dest := towards
    refine .inl ((Net.towards_step stepped).resolve_right ?_)
    rintro (⟨_, _, ⟨⟩, _⟩ | ⟨_, ⟨⟩, _⟩)
  have done : Inv { sys with
      net := sys.net.leave call.thread
      calls := sys.calls.filter fun other => other.thread ≠ call.thread } := by
    refine ⟨left_.net, left_.marked, fun other among => ?_, ?_, left_.returned⟩
    · have before := left_.calls other (List.mem_filter.mp among).1
      exact ⟨before.leads, before.arrived, before.placed⟩
    · exact fun one first other second => inv.apart one (List.mem_filter.mp first).1 other
        (List.mem_filter.mp second).1
  have keeps : sys.api.KeepsFd (.pool (.rts call.id result)) := trivial
  exact done.apply keeps (fun _ none_ => .inl none_) finished

/-- A thread calls `rmr_rts_msg`. -/
theorem Inv.rts (inv : sys.Inv) {thread id : Nat} {msg : Mbuf}
    (is : sys.api.pool.msgs id = some msg) (stepped : sys.rts thread id msg = .ok next) :
    next.Inv := by
  unfold RtsSys.rts at stepped
  split at stepped
  · rename_i ready
    obtain ⟨free, idle, -⟩ := ready
    obtain ⟨_, -, made⟩ := bind_eq_ok.mp stepped
    generalize msg.tpBuf.name HdrField.src.offset = src at made
    generalize msg.tpBuf.name HdrField.srcip.offset = srcip at made
    cases made
    -- The other threads are where they were, and this one goes to the source if anywhere.
    have looked : Inv { sys with net := sys.net.lookup thread src } := by
      refine inv.onNet (inv.net.lookup thread src) (Net.lookup_grows sys.net thread src)
        (fun _ _ _ _ closed => False.elim closed) ?_
      intro other among dest towards
      rcases Net.towards_lookup towards with before | ⟨same, _⟩
      · exact .inl before
      · exact absurd same (callOf_ne idle among)
    refine ⟨looked.net, looked.marked, ?_, ?_, looked.returned⟩
    · intro call among
      rcases List.mem_cons.mp among with rfl | old
      · refine ⟨fun dest towards => ?_, rfl, (inv.marked id msg is).1⟩
        rcases Net.towards_lookup towards with before | ⟨-, ep, rfl, known⟩
        · exact absurd before free.nowhere
        · exact .inl known
      · have before := looked.calls call old
        exact ⟨before.leads, before.arrived, before.placed⟩
    · intro one first other second same
      rcases List.mem_cons.mp first with rfl | first
      · rcases List.mem_cons.mp second with rfl | second
        · rfl
        · exact absurd same.symm (callOf_ne idle second)
      · rcases List.mem_cons.mp second with rfl | second
        · exact absurd same (callOf_ne idle first)
        · exact inv.apart one first other second same
  · cases stepped
    exact inv

/-- The descriptor of a message that is turned to is the one that it came with. -/
theorem rtsTurn_fd {order : ByteOrder} {msg : Mbuf} {sock : Int}
    (turn : msg.rtsTurn order = .fd sock) : sock = msg.rtsFd := by
  -- Only the turn to the descriptor gives one, which is that of the message.
  unfold Mbuf.rtsTurn at turn
  split at turn
  · cases turn
    rfl
  · split at turn
    · cases turn
    · cases turn

/-- A thread that has not reached the source turns to the descriptor of the message. -/
theorem Inv.takes (inv : sys.Inv) {call : RtsCall} {msg : Mbuf} (among : call ∈ sys.calls)
    (is : sys.api.pool.msgs call.id = some msg) :
    Inv { sys with net := sys.net.step (.take call.thread msg.rtsFd) } := by
  have fine : sys.net.Fine (.take call.thread msg.rtsFd) := trivial
  have grows := inv.net.step_grows fine
  refine inv.onNet (inv.net.step fine) grows (fun _ _ _ _ none_ => none_.elim) ?_
  intro other there dest towards
  rcases Net.towards_step towards with before | ⟨_, _, taken, _⟩ | ⟨_, taken, rfl⟩
  · exact .inl before
  · cases taken
  · -- It is the only call that the thread is in, and the message came with the descriptor of the
    -- session that it arrived on.
    obtain ⟨same, rfl⟩ := NetEvent.take.inj taken
    obtain rfl := inv.apart call among other there same
    refine .inr fun fd session is owns => ?_
    have fallback := ((inv.marked _ msg ‹_›).2).grows grows fun _ none_ => none_.elim
    obtain none_ | ⟨fd', session', sameFd, arrived, os⟩ := fallback
    · omega
    · obtain rfl : fd = fd' := by omega
      cases owns.symm.trans os
      exact (inv.calls call among).arrived.trans arrived

/-- A thread that has not reached the source looks it up by its address. -/
theorem Inv.looksUp (inv : sys.Inv) {call : RtsCall} (among : call ∈ sys.calls) :
    Inv { sys with
      net := sys.net.lookup call.thread call.srcip
      calls := sys.calls.map fun other =>
        if other.thread = call.thread then { other with byAddr := true } else other } := by
  have looked : Inv { sys with net := sys.net.lookup call.thread call.srcip } := by
    refine inv.onNet (inv.net.lookup call.thread _)
      (Net.lookup_grows sys.net call.thread call.srcip) (fun _ _ _ _ closed => False.elim closed) ?_
    intro other there dest towards
    rcases Net.towards_lookup towards with before | ⟨same, ep, rfl, known⟩
    · exact .inl before
    · obtain rfl := inv.apart other there call among same
      exact .inr (.inr known)
  -- The calls are about the same as before.
  have kept : ∀ {after : RtsCall}, after ∈ (sys.calls.map fun other =>
      if other.thread = call.thread then { other with byAddr := true } else other) →
      ∃ before ∈ sys.calls, after.thread = before.thread ∧ after.id = before.id ∧
        after.src = before.src ∧ after.srcip = before.srcip ∧ after.arrived = before.arrived ∧
        after = if before.thread = call.thread then { before with byAddr := true } else before := by
    intro after is
    obtain ⟨before, there, rfl⟩ := List.mem_map.mp is
    refine ⟨before, there, ?_⟩
    split
    · exact ⟨rfl, rfl, rfl, rfl, rfl, rfl⟩
    · exact ⟨rfl, rfl, rfl, rfl, rfl, rfl⟩
  refine ⟨looked.net, looked.marked, ?_, ?_, looked.returned⟩
  · intro after is
    obtain ⟨before, there, thread, id, src, srcip, arrived, -⟩ := kept is
    have calls := looked.calls before there
    refine ⟨fun dest towards => ?_, ?_, ?_⟩
    · rw [thread] at towards
      have leads := calls.leads dest towards
      cases dest with
      | endpoint ep =>
        unfold Net.Leads
        rw [src, srcip]
        exact leads
      | descriptor sock =>
        unfold Net.Leads
        rw [arrived]
        exact leads
    · rw [arrived, id]
      exact calls.arrived
    · rw [id]
      exact calls.placed
  · intro one first other second same
    obtain ⟨one', first', thread, -, -, -, -, oneIs⟩ := kept first
    obtain ⟨other', second', thread', -, -, -, -, otherIs⟩ := kept second
    rw [oneIs, otherIs, inv.apart one' first' other' second' (thread ▸ thread' ▸ same)]

/-- A thread that has not reached the source goes on. -/
theorem Inv.turn (inv : sys.Inv) {call : RtsCall} {msg : Mbuf} (among : call ∈ sys.calls)
    (is : sys.api.pool.msgs call.id = some msg)
    (stepped : sys.turn conf rcvConf left call msg = .ok next) : next.Inv := by
  -- The three turns: the call is over, goes on over the descriptor, or looks a name up.
  unfold RtsSys.turn at stepped
  split at stepped
  · exact inv.finish stepped
  · split at stepped
    · rename_i sock taken
      cases stepped
      rw [rtsTurn_fd taken]
      exact inv.takes among is
    · obtain ⟨_, -, made⟩ := bind_eq_ok.mp stepped
      cases made
      exact inv.looksUp among
    · exact inv.finish stepped

/-- What `SIsendt` writes for a call goes back to the source, or over the session that the message
arrived on. -/
theorem Inv.sendt (inv : sys.Inv) {call : RtsCall} (among : call ∈ sys.calls) {poll : Poll}
    {ret : SendRet} {more : Bool} (fine : sys.net.Fine (.sendt call.thread poll ret more))
    (stepped : sys.sendt conf rcvConf left call poll ret more = .ok next) : next.Inv := by
  -- What is written is for the call in hand, and the outcome decides if it is over.
  have grows : sys.net.Grows (sys.net.sendt call.thread poll ret more).1 fun _ => False :=
    inv.net.sendt_grows fine
  have base : Inv { sys with net := (sys.net.sendt call.thread poll ret more).1 } :=
    inv.onNet (inv.net.sendt fine) grows (fun _ _ _ _ none_ => none_.elim)
      fun _ _ _ towards => .inl (Net.towards_sendt towards)
  have returned : ∀ bytes ∈
      (sys.net.sendt call.thread poll ret more).1.written.drop sys.net.written.length,
      (sys.net.sendt call.thread poll ret more).1.peer bytes.session = some call.src ∨
        (sys.net.sendt call.thread poll ret more).1.peer bytes.session = some call.srcip ∨
        call.arrived = some bytes.session := by
    intro bytes new
    rcases inv.net.sendt_written call.thread poll ret more with same |
      ⟨hand, fd, session, has, sock, dest, owns, name, wrote⟩
    · rw [same, List.drop_length] at new
      cases new
    · rw [wrote, List.drop_left, List.mem_singleton] at new
      cases new
      dsimp only
      obtain ⟨to_, dest⟩ := Option.ne_none_iff_exists'.mp dest
      have leads := (inv.calls call among).leads to_ (.inr ⟨hand, has, dest⟩)
      cases to_ with
      | endpoint ep =>
        obtain ⟨named, known, peer⟩ :=
          inv.net.aims_of_dest (List.mem_of_getElem? has) dest sock fd session rfl owns
        refine leads.imp (fun is => ?_) fun is => .inl ?_
        · cases known.symm.trans is
          exact grows.named peer
        · cases known.symm.trans is
          exact grows.named peer
      | descriptor sock' =>
        have same : sock' = fd := by
          rw [Hand.sock_of_dest dest] at sock
          exact Option.some.inj sock
        exact .inr (.inr (leads fd session same owns))
  have back : Inv { sys with
      net := (sys.net.sendt call.thread poll ret more).1
      returned := sys.returned ++
        ((sys.net.sendt call.thread poll ret more).1.written.drop sys.net.written.length).map
          fun bytes => ⟨call.src, call.srcip, call.arrived, bytes.session⟩ } := by
    refine ⟨base.net, base.marked, fun other there => ?_, base.apart, fun back is => ?_⟩
    · have before := base.calls other there
      exact ⟨before.leads, before.arrived, before.placed⟩
    · rcases List.mem_append.mp is with before | new
      · exact base.returned back before
      · obtain ⟨bytes, written, rfl⟩ := List.mem_map.mp new
        exact returned bytes written
  unfold RtsSys.sendt at stepped
  dsimp only at stepped
  split at stepped
  · cases stepped
    exact back
  · exact back.finish stepped

/-- What other threads do keeps all this, if it closes no session that a message is to be returned
on. -/
theorem Inv.netEvent (inv : sys.Inv) {event : NetEvent} (kept : sys.Kept (.net event))
    (stepped : step conf rcvConf left sys (.net event) = .ok next) : next.Inv := by
  obtain ⟨fine, spares⟩ := kept
  rw [RtsSys.step] at stepped
  split at stepped
  · cases stepped
    exact inv
  · rename_i apart
    cases stepped
    refine inv.onNet (inv.net.step fine) (inv.net.step_grows fine) ?_ ?_
    · intro id msg is fd closes
      cases event with
      | wait =>
        have told : sys.net.links.disc = .term fd := closes
        have ending : sys.net.links.disc.ending = some (fd : Int) := by
          rw [told]
          rfl
        exact spares fd ending id (inv.marked id msg is).1 msg is
      | _ => cases closes
    · -- The threads of calls do nothing else.
      have busy : ∀ {call : RtsCall}, call ∈ sys.calls → call.thread ∉ event.sender := by
        intro call among sends
        refine apart ⟨call.thread, sends, fun none_ => ?_⟩
        exact callOf_ne none_ among rfl
      intro call among dest towards
      rcases Net.towards_step towards with before | ⟨ep, adds, rfl, -⟩ | ⟨sock, rfl, -⟩
      · exact .inl before
      · exact absurd rfl (busy among)
      · exact absurd rfl (busy among)

/-- A message that is received has the descriptor of the session that it arrived on. -/
theorem Inv.receive (inv : sys.Inv) {blk : Nat} {rawMsg : Block}
    (stepped : step conf rcvConf left sys (.receive blk rawMsg) = .ok next) : next.Inv := by
  rw [RtsSys.step] at stepped
  split at stepped
  · cases stepped
    exact inv
  · rename_i idle
    split at stepped
    · cases stepped
      exact inv
    · rename_i fd has
      have keeps : sys.api.KeepsFd (.pool (.receive rawMsg fd)) := trivial
      refine inv.apply keeps (fun rtsFd same => ?_) stepped
      -- The block's descriptor is open, and that is the session that it arrived on.
      obtain ⟨tpptr, there, has⟩ := Si.fdOf_eq_some.mp has
      have calm : blk ∉ sys.net.closing.terming := by
        rw [not_not.mp idle]
        exact List.not_mem_nil
      have os := inv.net.si.owned there has calm
      exact .inr ⟨fd, tpptr.session, same, os, os⟩

/-- Each event keeps all this, if no session is closed that a message is to be returned on, and no
copy made with another descriptor. -/
theorem Inv.step (inv : sys.Inv) {event : RtsEvent} (kept : sys.Kept event)
    (stepped : step conf rcvConf left sys event = .ok next) : next.Inv := by
  -- By the event; where nothing is there to be called, nothing changes.
  cases event with
  | net event => exact inv.netEvent kept stepped
  | api event =>
    obtain rfl | ⟨applied, bears⟩ := step_api stepped
    · exact inv
    · exact inv.apply kept bears applied
  | receive blk rawMsg => exact inv.receive stepped
  | rts thread id =>
    rw [RtsSys.step] at stepped
    split at stepped
    · cases stepped
      exact inv
    · rename_i msg is
      exact inv.rts is stepped
  | turn thread =>
    rw [RtsSys.step] at stepped
    split at stepped
    · cases stepped
      exact inv
    · rename_i call found
      split at stepped
      · cases stepped
        exact inv
      · rename_i msg is
        split at stepped
        · exact inv.turn (callOf_mem found).1 is stepped
        · cases stepped
          exact inv
  | sendt thread poll ret more =>
    rw [RtsSys.step] at stepped
    split at stepped
    · cases stepped
      exact inv
    · rename_i call found
      obtain ⟨among, rfl⟩ := callOf_mem found
      exact inv.sendt among kept stepped

instance decidableKeepsFd (api : Api) (event : ApiEvent) : Decidable (api.KeepsFd event) :=
  match event with
  | .pool (.realloc id _) => inferInstanceAs (Decidable (∀ msg ∈ api.pool.msgs id, msg.rtsFd = 0))
  | .pool (.send id groups) => inferInstanceAs (Decidable (clonesBack groups = true →
      ∀ msg ∈ api.pool.msgs id, msg.rtsFd = 0))
  | .pool (.alloc _) => isTrue trivial
  | .pool (.tralloc _ _) => isTrue trivial
  | .pool (.apply _ _) => isTrue trivial
  | .pool (.reallocPayload _ _ _ _) => isTrue trivial
  | .pool (.rts _ _) => isTrue trivial
  | .pool (.whSend _ _) => isTrue trivial
  | .pool (.receive _ _) => isTrue trivial
  | .pool (.free _) => isTrue trivial
  | .call id calling => inferInstanceAs (Decidable (clonesBack calling.groups = true →
      some .ok ∉ calling.groups → ∀ msg ∈ api.pool.msgs id, msg.rtsFd = 0))
  | .timeout _ _ => isTrue trivial

instance decidableSpares (sys : RtsSys) : (event : NetEvent) → Decidable (sys.Spares event)
  | .wait => inferInstanceAs (Decidable (∀ fd ∈ sys.net.links.disc.ending,
      ∀ id < sys.api.pool.count, ∀ msg ∈ sys.api.pool.msgs id, msg.rtsFd ≠ fd))
  | .ensure _ | .look _ _ _ | .link _ _ | .read _ | .take _ _ | .sendt _ _ _ _ | .leave _
  | .accept _ | .disc _ | .remove _ => isTrue trivial

instance decidableKept (sys : RtsSys) : (event : RtsEvent) → Decidable (sys.Kept event)
  | .net event => inferInstanceAs (Decidable (sys.net.Fine event ∧ sys.Spares event))
  | .api event => inferInstanceAs (Decidable (sys.api.KeepsFd event))
  | .sendt thread poll ret more =>
    inferInstanceAs (Decidable (sys.net.Fine (.sendt thread poll ret more)))
  | .receive _ _ | .rts _ _ | .turn _ => isTrue trivial

/-- A frame of a header and some payload, that says nothing of where it comes from. -/
def bareFrame : Block :=
  Block.ofList (List.replicate 246 0 ++ bytes32 .big mhdrLen ++ List.replicate 100 0)

/-- The receive thread closes the session of a block. -/
def closes (blk : Nat) : List RtsEvent := (Net.loses blk).map .net

end RtsSys

end Rmr
