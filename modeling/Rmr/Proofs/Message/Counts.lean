import Rmr.Message.Counts
import Rmr.Proofs.Message.Kin
import Rmr.Proofs.Message.Marks
import Rmr.Proofs.Message.Retry

/-! Counters of endpoints tell what was sent to them, wherever the state that is counted is that of
the send. -/

namespace Rmr

/-- Counters with sends added to them, each to the one for what it came to. -/
def tallied (counts : EpCounts) (sends : List EpSend) : EpCounts := fun ep counter =>
  counts ep counter + sends.countP fun send => decide (send.1 = ep ∧ send.2.counter = counter)

section
variable {counts : EpCounts} {sends : List EpSend}

/-- Sends are added one after the other. -/
@[simp] theorem tallied_tallied (counts : EpCounts) (sends later : List EpSend) :
    tallied (tallied counts sends) later = tallied counts (sends ++ later) := by
  funext ep counter
  simp [tallied, Nat.add_assoc]

/-- `incr_ep_counts` adds a send if it is given its endpoint, and a state that is counted as it is.
-/
theorem incrEpCounts_tallied {state : MsgState} {ep : CStr} {result : SendResult}
    (told : state.counter = result.counter) :
    incrEpCounts counts state (some ep) = tallied counts [(ep, result)] := by
  -- Another endpoint, or another counter of the same one, is left as it is.
  funext other counter
  by_cases same : other = ep
  · subst same
    by_cases its : counter = result.counter
    · subst its
      simp [incrEpCounts, tallied, told]
    · simp [incrEpCounts, tallied, told, its, Ne.symm its]
  · simp [incrEpCounts, tallied, same, Ne.symm same]

/-- All sends to an endpoint are counted by one of its three counters. -/
theorem tallied_total (sends : List EpSend) (ep : CStr) :
    tallied (fun _ _ => 0) sends ep .good + tallied (fun _ _ => 0) sends ep .trans +
      tallied (fun _ _ => 0) sends ep .fail = sends.countP fun send => decide (send.1 = ep) := by
  -- Each send adds one to one of the three counters of its endpoint.
  induction sends with
  | nil => rfl
  | cons send sends ih =>
    simp only [tallied, Nat.zero_add, List.countP_cons] at ih ⊢
    rw [← ih]
    by_cases same : send.1 = ep
    · cases result : send.2 <;> simp [same, SendResult.counter] <;> omega
    · simp [same]

end

section
variable {conf : SendConf} {left : Leftover} {draft nm : Draft} {counts : EpCounts}

/-- A clone has the state that the message had. -/
theorem cloneMsg_state {order : ByteOrder} (cloned : cloneMsg order left draft = .ok nm) :
    nm.msg.state = draft.msg.state := by
  -- A clone starts as a copy of the message, and no later line sets its state.
  obtain ⟨hdr, -, cloned⟩ := bind_eq_ok.mp cloned
  dsimp only at cloned
  split at cloned
  · cases cloned
  · obtain ⟨filled, -, made⟩ := bind_eq_ok.mp cloned
    cases made
    rfl

/-- The state that `send_msg` leaves is counted as what the send came to. -/
theorem SendResult.state_counter (result : SendResult) : result.state.counter = result.counter := by
  -- The three outcomes have states of their own.
  cases result with
  | ok => rfl
  | blocked => rfl
  | failed => rfl

/-- With the flag on a success leaves nothing. -/
theorem trySend_silent {result : SendResult} {sent : Option Draft}
    (silent : draft.msg.noAlloc = true) (went : result = .ok)
    (tried : trySend conf left draft result = .ok sent) : sent = none := by
  -- The send left nothing, or a new message, for which the flag would be off, or it failed.
  obtain ⟨bytes, -, ⟨-, -, none_⟩ | ⟨-, off, -⟩ | ⟨failed, -⟩⟩ := trySend_cases tried
  · exact none_
  · rw [silent] at off
    cases off
  · exact absurd went failed

/-- What `send_msg` gives back is counted right, unless that is nothing. -/
theorem countSent_tallied {result : SendResult} {sent : Option Draft} {ep : CStr}
    (wanted : draft.msg.noAlloc = true → result ≠ .ok)
    (tried : trySend conf left draft result = .ok sent) :
    countSent counts sent (some ep) = tallied counts [(ep, result)] := by
  obtain ⟨nothing, states⟩ := trySend_state tried
  cases sent with
  | none =>
    obtain ⟨went, flagged⟩ := nothing rfl
    -- Nothing comes back only from a success with the flag on, and that was ruled out.
    exact absurd went (wanted flagged)
  | some next =>
    refine incrEpCounts_tallied ?_
    rw [states next rfl, result.state_counter]

/-- What is asked of a group that another one follows. -/
theorem fanTold_cons {noAlloc : Bool} {state : MsgState} {send : EpSend}
    {groups : List (Option EpSend)} (more : groups = [] → False)
    (told : FanTold noAlloc state (some send :: groups)) :
    (send.2 ≠ .ok → state.counter = send.2.counter) ∧
      FanTold noAlloc (if send.2 = .ok then .ok else state) groups := by
  cases groups with
  | nil => exact absurd rfl more
  | cons group groups => exact told

/-- The loop of `mtosend_msg` counts its sends. -/
theorem countedFan_tallied {groups : List (Option EpSend)} {okSends : Bool} {fanned : Fanned}
    (told : FanTold draft.msg.noAlloc draft.msg.state groups)
    (ran : countedFan conf left draft okSends counts groups = .ok fanned) :
    fanned.counts = tallied counts (epSends groups) := by
  -- The induction is on the groups, with the message and the counters free: what is cloned takes
  -- its place.
  fun_induction countedFan conf left draft okSends counts groups with
  | case1 draft okSends counts =>
    cases ran
    rfl
  | case2 draft okSends counts groups ih => exact ih told ran
  | case3 draft okSends counts send =>
    obtain ⟨sent, sentIs, made⟩ := bind_eq_ok.mp ran
    cases made
    -- The last group is sent the message itself, and the state counted is the one that comes back.
    exact countSent_tallied told sentIs
  -- Before another group a clone is sent, but the state counted is that of the message.
  | case4 draft okSends counts send groups more unsent done =>
    obtain ⟨clone, cloneIs, ran⟩ := bind_eq_ok.mp ran
    obtain ⟨first, firstIs, ran⟩ := bind_eq_ok.mp ran
    obtain ⟨counted, rest⟩ := fanTold_cons more told
    obtain ⟨nothing, states⟩ := trySend_state firstIs
    -- The clone goes on as the message for the next group, with the same flag and state.
    have flag : clone.msg.noAlloc = draft.msg.noAlloc :=
      congrArg Marks.noAlloc (cloneMsg_marks cloneIs)
    have state := cloneMsg_state cloneIs
    have added : epSends (some send :: groups) = [send] ++ epSends groups := rfl
    rw [added, ← tallied_tallied]
    cases first with
    | some back =>
      -- There is a message that was not sent.
      have failed : send.2 ≠ .ok := fun went => by
        cases trySend_silent rfl went firstIs
      rw [if_neg failed, ← state] at rest
      have tally : countSent counts (some clone) (some send.1) = tallied counts [send] :=
        incrEpCounts_tallied (state ▸ counted failed)
      rw [← tally]
      exact unsent clone (flag ▸ rest) ran
    | none =>
      -- A success puts the message in a good state, and that is what is counted.
      have went : send.2 = .ok := (nothing rfl).1
      rw [if_pos went] at rest
      have tally : countSent counts (some { clone with msg := { clone.msg with state := .ok } })
          (some send.1) = tallied counts [send] :=
        incrEpCounts_tallied (congrArg SendResult.counter went).symm
      rw [← tally]
      exact done clone (flag ▸ rest) ran

/-- So does all of it. -/
theorem countedMtosend_tallied {groups : List (Option EpSend)} {back : Option Draft × EpCounts}
    (told : FanTold draft.msg.noAlloc draft.msg.state groups)
    (ran : countedMtosend conf left draft counts groups = .ok back) :
    back.2 = tallied counts (epSends groups) := by
  -- Without groups nothing is sent, and nothing is counted.
  unfold countedMtosend at ran
  split at ran
  · rename_i none_
    cases ran
    rw [none_]
    rfl
  · obtain ⟨fanned, fannedIs, made⟩ := bind_eq_ok.mp ran
    cases made
    exact countedFan_tallied told fannedIs

/-- Neither the call flag nor the call id is a matter of the state. -/
theorem countedSend_tallied {groups : List (Option EpSend)} {back : Option Draft × EpCounts}
    (told : FanTold draft.msg.noAlloc draft.msg.state groups)
    (ran : countedSend conf left draft counts groups = .ok back) :
    back.2 = tallied counts (epSends groups) := by
  -- The counters are only a matter of what is sent to the groups.
  obtain ⟨msg, msgIs, ran⟩ := bind_eq_ok.mp ran
  obtain ⟨blotted, -, made⟩ := bind_eq_ok.mp msgIs
  cases made
  exact countedMtosend_tallied (by exact told) ran

/-- A call sends with the flag on that keeps a success from leaving a message. -/
theorem countedCall_tallied {groups : List (Option EpSend)} {callId : UInt8}
    {back : Option Draft × EpCounts} (told : FanTold true draft.msg.state groups)
    (ran : countedCall conf left draft counts callId groups = .ok back) :
    back.2 = tallied counts (epSends groups) := by
  obtain ⟨request, requestIs, ran⟩ := bind_eq_ok.mp ran
  obtain ⟨sent, sentIs, made⟩ := bind_eq_ok.mp ran
  obtain ⟨filled, -, requestMade⟩ := bind_eq_ok.mp requestIs
  cases made
  cases requestMade
  -- The request is the message with its flags, call id and no-alloc set.
  have tally : sent.2 = tallied counts (epSends groups) := by
    refine countedMtosend_tallied ?_ sentIs
    exact told
  exact tally

/-- What comes back of a return has the state of the send. -/
theorem rmrRtsMsg_state {result : SendResult} {back : Option Draft}
    (tried : rmrRtsMsg conf left draft (some result) = .ok back) :
    (back = none ↔ draft.msg.noAlloc = true ∧ result = .ok) ∧
      ∀ next ∈ back, next.msg.state = result.state := by
  obtain ⟨holdSrc, holdIp, sent, -, -, sentIs, rfl⟩ := rmrRtsMsg_steps tried
  obtain ⟨nothing, states⟩ := trySend_state sentIs
  constructor
  -- With the result known, `rts_msg` is one `send_msg` after the source was put into the header.
  · rw [Option.map_eq_none_iff]
    constructor
    · intro none_
      exact (nothing none_).symm
    · intro silent
      exact trySend_silent (by exact silent.1) silent.2 sentIs
  · intro next is
    obtain ⟨last, lastIs, rfl⟩ := Option.mem_map.mp is
    exact states last lastIs

/-- A return counts its send to the endpoint that was looked up. -/
theorem countedRts_tallied {aim : RtsAim} {result : SendResult} {back : Option Draft × EpCounts}
    (told : aim.Told draft.msg.noAlloc result)
    (ran : countedRts conf left draft counts aim result = .ok back) :
    back.2 = tallied counts (aim.target.epSends result) := by
  unfold countedRts at ran
  unfold RtsAim.Told at told
  cases target : aim.target with
  | nobody =>
    -- Without a connection nothing is sent or counted.
    simp only [target] at ran
    obtain ⟨sent, -, made⟩ := bind_eq_ok.mp ran
    cases made
    rfl
  | arrived =>
    simp only [target] at ran told
    obtain ⟨sent, sentIs, made⟩ := bind_eq_ok.mp ran
    obtain ⟨silent, -⟩ := rmrRtsMsg_state sentIs
    cases made
    -- The descriptor that the message arrived on is no endpoint, so nothing was to be counted.
    change countSent counts sent aim.ep = counts
    cases told with
    | inl none_ =>
      rw [none_]
      cases sent with
      | none => rfl
      | some next => rfl
    | inr told =>
      rw [silent.mpr told]
      rfl
  | endpoint name =>
    simp only [target] at ran told
    obtain ⟨sent, sentIs, made⟩ := bind_eq_ok.mp ran
    obtain ⟨silent, states⟩ := rmrRtsMsg_state sentIs
    cases made
    obtain ⟨epIs, wanted⟩ := told
    change countSent counts sent aim.ep = tallied counts [(name, result)]
    rw [epIs]
    cases sent with
    -- Nothing to count a state by is left after a success with the flag on.
    | none =>
      obtain ⟨flagged, went⟩ := silent.mp rfl
      exact absurd went (wanted flagged)
    | some next =>
      refine incrEpCounts_tallied ?_
      rw [states next rfl, result.state_counter]

/-- With the counters left out it is the loop of `mtosend_msg` as it is without them. -/
theorem countedFan_fanOut {groups : List (Option EpSend)} {okSends : Bool} {fanned : Fanned}
    (ran : countedFan conf left draft okSends counts groups = .ok fanned) :
    fanOut conf left draft okSends (groups.map (Option.map Prod.snd)) =
      .ok (fanned.sent, fanned.okSends) := by
  -- The loops go along together: the counters have no part in what is sent.
  fun_induction countedFan conf left draft okSends counts groups with
  | case1 draft okSends counts =>
    cases ran
    rfl
  | case2 draft okSends counts groups ih => exact ih ran
  | case3 draft okSends counts send =>
    obtain ⟨sent, sentIs, made⟩ := bind_eq_ok.mp ran
    cases made
    exact bind_eq_ok.mpr ⟨sent, sentIs, rfl⟩
  | case4 draft okSends counts send groups more unsent done =>
    obtain ⟨clone, cloneIs, ran⟩ := bind_eq_ok.mp ran
    obtain ⟨first, firstIs, ran⟩ := bind_eq_ok.mp ran
    cases groups with
    | nil => exact absurd rfl more
    | cons group groups =>
      refine bind_eq_ok.mpr ⟨clone, cloneIs, bind_eq_ok.mpr ⟨first, firstIs, ?_⟩⟩
      cases first with
      | some back => exact unsent clone ran
      | none => exact done clone ran

/-- It is the same for all of it. -/
theorem countedMtosend_mtosendMsg {groups : List (Option EpSend)} {back : Option Draft × EpCounts}
    (ran : countedMtosend conf left draft counts groups = .ok back) :
    mtosendMsg conf left draft (groups.map (Option.map Prod.snd)) = .ok back.1 := by
  -- What is counted is put away; the groups and the outcomes are the same.
  unfold countedMtosend at ran
  unfold mtosendMsg
  split at ran
  · rename_i none_
    cases ran
    rw [none_]
    rfl
  · rename_i some_
    obtain ⟨fanned, fannedIs, made⟩ := bind_eq_ok.mp ran
    cases made
    rw [if_neg fun none_ => some_ (List.map_eq_nil_iff.mp none_)]
    exact bind_eq_ok.mpr ⟨_, countedFan_fanOut fannedIs, rfl⟩

/-- A message is sent as it is without counters. -/
theorem countedSend_rmrSendMsg {groups : List (Option EpSend)} {back : Option Draft × EpCounts}
    (ran : countedSend conf left draft counts groups = .ok back) :
    rmrSendMsg conf left draft (groups.map (Option.map Prod.snd)) = .ok back.1 := by
  obtain ⟨msg, msgIs, ran⟩ := bind_eq_ok.mp ran
  exact bind_eq_ok.mpr ⟨msg, msgIs, countedMtosend_mtosendMsg ran⟩

/-- So is a request. -/
theorem countedCall_mtCall {groups : List (Option EpSend)} {callId : UInt8}
    {back : Option Draft × EpCounts}
    (ran : countedCall conf left draft counts callId groups = .ok back) :
    mtCall conf.order draft callId (fun draft => mtosendMsg conf left draft
      (groups.map (Option.map Prod.snd))) = .ok back.1 := by
  obtain ⟨request, requestIs, ran⟩ := bind_eq_ok.mp ran
  obtain ⟨sent, sentIs, made⟩ := bind_eq_ok.mp ran
  cases made
  exact bind_eq_ok.mpr ⟨request, requestIs,
    bind_eq_ok.mpr ⟨sent.1, countedMtosend_mtosendMsg sentIs, rfl⟩⟩

end

namespace CountSys

variable {conf : SendConf} {left : Leftover} {sys next : CountSys} {event : CountEvent}

/-- The counters are those of the sends so far. -/
def Tallied (sys : CountSys) : Prop := sys.counts = tallied (fun _ _ => 0) sys.sends

/-- Sends that are added to the counters are counted. -/
theorem Tallied.sent {counts : EpCounts} {sends : List EpSend} (holds : sys.Tallied)
    -- Counting is adding, so what was counted before is added first.
    (added : counts = tallied sys.counts sends) : (sys.sent counts sends).Tallied := by
  change counts = tallied (fun _ _ => 0) (sys.sends ++ sends)
  rw [added, ← tallied_tallied, ← holds]

/-- Each event that counts what it sends leaves the counters right. -/
theorem step_tallied (holds : sys.Tallied) (told : Told conf sys event)
    (stepped : step conf left sys event = .ok next) : next.Tallied := by
  cases event with
  | ensure name =>
    cases stepped
    exact holds
  | send draft groups =>
    obtain ⟨back, backIs, made⟩ := bind_eq_ok.mp stepped
    cases made
    exact holds.sent (countedSend_tallied told backIs)
  | rts draft srcLinked ipLinked result =>
    obtain ⟨back, backIs, made⟩ := bind_eq_ok.mp stepped
    cases made
    -- Looking up the target may make an endpoint known, which counts nothing.
    have found : Tallied { sys with
      known := (rtsAim conf.order sys.known draft.msg srcLinked ipLinked).known } := holds
    exact found.sent (countedRts_tallied told backIs)
  | call draft groups =>
    obtain ⟨back, backIs, made⟩ := bind_eq_ok.mp stepped
    cases made
    exact holds.sent (countedCall_tallied told backIs)
  | mtCall draft callId groups =>
    rw [step] at stepped
    by_cases refused : maxCallId < callId ∨ callId < 2
    · rw [if_pos refused] at stepped
      cases stepped
      -- A call id out of range turns the call down before anything is sent.
      exact holds
    · rw [if_neg refused] at stepped
      obtain ⟨low, high⟩ := not_or.mp refused
      obtain ⟨back, backIs, made⟩ := bind_eq_ok.mp stepped
      cases made
      have asked : FanTold true draft.msg.state groups :=
        told (Int.not_lt.mp high) (Int.not_lt.mp low)
      exact holds.sent (countedCall_tallied asked backIs)
  | whCall draft callId ep wormhole =>
    obtain ⟨back, -, made⟩ := bind_eq_ok.mp stepped
    cases made
    cases wormhole with
    | noneOpen => exact holds.sent rfl
    | invalid => exact holds.sent rfl
    -- A call through a wormhole sends without counting, so this event was not told.
    | open_ result => exact told.elim

/-- Counters that are those of the sends tell what was sent. -/
theorem Tallied.tells (holds : sys.Tallied) : sys.Tells where
  each := by
    -- The counters start from zero.
    intro ep counter
    rw [holds]
    exact Nat.zero_add _
  total := by
    intro ep
    rw [holds]
    exact tallied_total sys.sends ep

/-- In a run where each event counts what it sends, the counters of every endpoint tell what was
sent to it, by what that came to, and their sum is the number of sends. -/
theorem run_tells (conf : SendConf) (left : Leftover) (known : CStr → Bool)
    (events : List CountEvent)
    (told : Along (step conf left) (Told conf) (init known) events)
    (ran : run conf left known events = .ok sys) : sys.Tells := by
  -- The counters are those of no sends to begin with, and each step keeps that up.
  have start : (init known).Tallied := rfl
  have holds : sys.Tallied := Along.keeps step_tallied start told ran
  exact holds.tells

/-- Sends to groups, a return to an endpoint that is known, and a call that fails. -/
def fewSends (draft : Draft) : List CountEvent :=
  [.send draft [some ("b".toList, .ok), none, some ("c".toList, .failed)], .ensure "a".toList,
    .rts draft true false .blocked, .call draft [some ("c".toList, .failed)]]

/-- All of them are counted. -/
theorem run_tells_few :
    Yields (fun draft => Along (step SendConf.plain fun _ _ => 0) (Told SendConf.plain)
          (init fun _ => false) (fewSends draft) ∧
        Yields (fun sys => sys.sends.length = 4 ∧ sys.Tells)
          (run SendConf.plain (fun _ _ => 0) (fun _ => false) (fewSends draft)))
      (compose SendConf.plain (fun _ _ => 0) (.alloc 100) []) := by
  -- What is told of each send is decided along the run.
  have facts : Yields (fun draft => Along (step SendConf.plain fun _ _ => 0) (Told SendConf.plain)
          (init fun _ => false) (fewSends draft) ∧
        Yields (fun sys => sys.sends.length = 4)
          (run SendConf.plain (fun _ _ => 0) (fun _ => false) (fewSends draft)))
      (compose SendConf.plain (fun _ _ => 0) (.alloc 100) []) := by
    decide +kernel
  obtain ⟨draft, composed, told, sends⟩ := facts.exists
  obtain ⟨sys, ran, four⟩ := sends.exists
  exact Yields.intro composed ⟨told, Yields.intro ran ⟨four,
    run_tells SendConf.plain (fun _ _ => 0) (fun _ => false) (fewSends draft) told ran⟩⟩

/-- Counters that are not those of the sends do not tell what was sent. -/
theorem yields_untold {sends : List EpSend} {ep : CStr} {counted : Nat}
    {ran : Except Fault CountSys}
    (facts : Yields (fun sys => sys.sends = sends ∧ sys.counts ep .good = counted) ran)
    (wrong : (sends.countP fun send => decide (send.1 = ep ∧ send.2.counter = .good)) ≠ counted) :
    Yields (fun sys => sys.sends = sends ∧ sys.counts ep .good = counted ∧ ¬ sys.Tells) ran := by
  -- The number that is counted is not that of the sends.
  obtain ⟨sys, is, sendsIs, countIs⟩ := facts.exists
  refine Yields.intro is ⟨sendsIs, countIs, fun tells => wrong ?_⟩
  rw [← countIs, tells.each, sendsIs]

/-- A send to a group that fails is counted as good if another group follows, and a call that goes
well, a return to an endpoint that is new, and a call through a wormhole are not counted. -/
theorem run_miscounts :
    Yields (fun draft =>
        Yields (fun sys => sys.sends = [("b".toList, .failed), ("c".toList, .ok)] ∧
            sys.counts "b".toList .good = 1 ∧ ¬ sys.Tells)
          (run SendConf.plain (fun _ _ => 0) (fun _ => true)
            [.send draft [some ("b".toList, .failed), some ("c".toList, .ok)]]) ∧
        Yields (fun sys => sys.sends = [("b".toList, .ok)] ∧ sys.counts "b".toList .good = 0 ∧
            ¬ sys.Tells)
          (run SendConf.plain (fun _ _ => 0)
            (fun _ => true) [.call draft [some ("b".toList, .ok)]]) ∧
        Yields (fun sys => sys.sends = [("a".toList, .ok)] ∧ sys.counts "a".toList .good = 0 ∧
            ¬ sys.Tells)
          (run SendConf.plain (fun _ _ => 0) (fun _ => false) [.rts draft true false .ok]) ∧
        Yields (fun sys => sys.sends = [("b".toList, .ok)] ∧ sys.counts "b".toList .good = 0 ∧
            ¬ sys.Tells)
          (run SendConf.plain (fun _ _ => 0) (fun _ => true)
            [.whCall draft 2 "b".toList (.open_ .ok)]))
      (compose SendConf.plain (fun _ _ => 0) (.alloc 100) []) := by
  -- Each of the four runs is evaluated: its counters differ from what was sent.
  have facts : Yields (fun draft =>
        Yields (fun sys => sys.sends = [("b".toList, .failed), ("c".toList, .ok)] ∧
            sys.counts "b".toList .good = 1)
          (run SendConf.plain (fun _ _ => 0) (fun _ => true)
            [.send draft [some ("b".toList, .failed), some ("c".toList, .ok)]]) ∧
        Yields (fun sys => sys.sends = [("b".toList, .ok)] ∧ sys.counts "b".toList .good = 0)
          (run SendConf.plain (fun _ _ => 0)
            (fun _ => true) [.call draft [some ("b".toList, .ok)]]) ∧
        Yields (fun sys => sys.sends = [("a".toList, .ok)] ∧ sys.counts "a".toList .good = 0)
          (run SendConf.plain (fun _ _ => 0) (fun _ => false) [.rts draft true false .ok]) ∧
        Yields (fun sys => sys.sends = [("b".toList, .ok)] ∧ sys.counts "b".toList .good = 0)
          (run SendConf.plain (fun _ _ => 0) (fun _ => true)
            [.whCall draft 2 "b".toList (.open_ .ok)]))
      (compose SendConf.plain (fun _ _ => 0) (.alloc 100) []) := by
    decide +kernel
  obtain ⟨draft, composed, failed, called, returned, direct⟩ := facts.exists
  refine Yields.intro composed ⟨?_, ?_, ?_, ?_⟩
  · exact yields_untold failed (by decide)
  · exact yields_untold called (by decide)
  · exact yields_untold returned (by decide)
  · exact yields_untold direct (by decide)

end CountSys

end Rmr
