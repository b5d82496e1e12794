import Rmr.Proofs.Receive.Chute

/-! A call returns the answer that came in time: every answer is returned that is put into a chute
where the call is about to look, and that no other message is put over. -/

namespace Rmr

/-- How a call ended whose request was sent. -/
structure CallEnd where
  /-- The messages with the transaction id of the request that were put into the chute in time. -/
  came : List Mbuf
  returned : Option Mbuf
  /-- The time is over, or the wait failed for another reason than an interruption. -/
  timeUp : Bool
  /-- There is a message with the transaction id of the request in the chute. -/
  stays : Bool

/-- A call, and what is known of it from outside. -/
structure Watch where
  run : CallRun
  /-- The time of the call in progress is over, or its wait failed. -/
  expired : Bool
  came : List Mbuf
  ends : List CallEnd

/-- What happens, with the time that passes. -/
inductive WatchEvent where
  | chute (event : CallEvent)
  | expire

/-- The places where the call is about to clear the chute. -/
def CallPc.clearing : CallPc → Bool
  | .clearTest | .clearFree | .clearNil | .dropFree | .dropNil | .takeNil => true
  | _ => false

/-- The places from a wait to the next one, or to the end. -/
def CallPc.looping : CallPc → Bool
  | .loopTest | .wakeTest | .compare | .exitTest => true
  | _ => false

/-- The message in the chute has the transaction id of the request. -/
def CallRun.Holds (run : CallRun) : Prop :=
  run.mbuf.map Mbuf.xaction = some run.request.xaction

instance CallRun.decidableHolds (run : CallRun) : Decidable run.Holds :=
  inferInstanceAs (Decidable (_ = _))

namespace Watch
variable {watch : Watch}

/-- Nobody has called. -/
def init (msg : Mbuf) : Watch := ⟨CallRun.init msg, false, [], []⟩

/-- The messages that came, after an event. -/
def noted (watch : Watch) : CallEvent → List Mbuf
  | .call _ => if watch.run.pc = .idle then [] else watch.came
  | .store msg =>
    if watch.run.storing = false ∧ watch.run.pc ≠ .idle ∧ watch.expired = false ∧
        msg.xaction = watch.run.request.xaction then watch.came ++ [msg]
    else watch.came
  | _ => watch.came

/-- Whether the time is over after an event. -/
def late (watch : Watch) : CallEvent → Bool
  | .call _ => if watch.run.pc = .idle then false else watch.expired
  | .caller _ wait => if watch.run.pc = .wait ∧ wait = .failed then true else watch.expired
  | _ => watch.expired

/-- The end of a call, if an event is that. -/
def ended (watch : Watch) : CallEvent → List CallEnd
  | .caller _ _ =>
    match watch.run.pc with
    | .exitTest =>
      if watch.run.failed then [⟨watch.came, none, watch.run.errno, watch.run.Holds⟩] else []
    | .takeNil => [⟨watch.came, watch.run.taken, watch.run.errno, watch.run.Holds⟩]
    | _ => []
  | _ => []

/-- One event. -/
def step (watch : Watch) : WatchEvent → Watch
  | .expire => { watch with expired := true }
  | .chute event => {
      run := watch.run.step event
      expired := watch.late event
      came := watch.noted event
      ends := watch.ends ++ watch.ended event }

/-- Every call that ended has returned the message that came in time; and it has returned nothing
only after the time was over, with no such message in the chute. -/
def Complete (watch : Watch) : Prop :=
  ∀ end_ ∈ watch.ends, (∀ msg ∈ end_.came, end_.returned = some msg) ∧
    (end_.returned = none → end_.timeUp = true ∧ end_.stays = false)

/-- A message does not come over one with the transaction id of the request; one with that id does
not come where the chute is about to be cleared, or between a wait that failed and the next one; and
no message comes right before the loop starts over after an interruption. -/
def Comes (run : CallRun) (msg : Mbuf) : Prop :=
  ¬ run.Holds ∧
  (msg.xaction = run.request.xaction →
    run.pc.clearing = false ∧ (run.pc.looping = true → run.failed = false)) ∧
  (run.pc = .loopTest → run.failed = true → run.errno = true)

/-- What is asked of an event: a message comes where it may, and no wait fails, or is interrupted,
with the answer in the chute. -/
def Prompt (watch : Watch) (event : WatchEvent) : Prop :=
  match event with
  | .chute (.store msg) =>
    watch.run.storing = false → watch.run.pc ≠ .idle → Comes watch.run msg
  | .chute (.caller _ wait) => watch.run.pc = .wait → wait ≠ .posted → ¬ watch.run.Holds
  | _ => True

/-- What came is what is in the chute. -/
def Kept (run : CallRun) (came : List Mbuf) : Prop :=
  ∀ msg ∈ came, run.mbuf = some msg ∧ msg.xaction = run.request.xaction

/-- The transaction id to wait for is that of the request. -/
def Expects (run : CallRun) : Prop := run.expect = run.request.xaction

/-- What holds at each place of the call. -/
def Here (run : CallRun) (came : List Mbuf) : Prop :=
  match run.pc with
  | .idle => True
  | .clearTest | .clearFree | .clearNil => came = []
  | .expect => Kept run came
  | .send => Kept run came ∧ Expects run
  | .loopTest => Kept run came ∧ Expects run ∧ (run.errno = true → run.failed = true) ∧
    (run.failed = true → ¬ run.Holds ∧ (run.errno = true ∨ run.mbuf = none))
  | .wait => Kept run came ∧ Expects run ∧ run.errno = false ∧
    (run.mbuf ≠ none → run.storing = true ∨ 0 < run.barrier)
  | .wakeTest | .compare => Kept run came ∧ Expects run ∧
    (run.errno = true → run.failed = true) ∧ (run.failed = true → ¬ run.Holds)
  | .dropFree | .dropNil => came = [] ∧ Expects run
  | .exitTest => Kept run came ∧ (run.failed = true → run.errno = true ∧ ¬ run.Holds) ∧
    (run.failed = false → run.mbuf ≠ none)
  | .take => Kept run came ∧ run.mbuf ≠ none
  | .takeNil => (∀ msg ∈ came, run.taken = some msg) ∧ run.taken ≠ none

/-- What holds at all times. -/
structure Inv (watch : Watch) : Prop where
  here : Here watch.run watch.came
  complete : watch.Complete

/-- No call was made. -/
theorem init_inv (msg : Mbuf) : (init msg).Inv where
  here := trivial
  complete := fun _ among => absurd among List.not_mem_nil

variable {run : CallRun} {came : List Mbuf}

/-- An answer that was kept is in the chute. -/
theorem Kept.holds (kept : Kept run came) {msg : Mbuf} (among : msg ∈ came) : run.Holds := by
  obtain ⟨is, same⟩ := kept msg among
  rw [CallRun.Holds, is]
  exact congrArg some same

/-- Where no answer is in the chute, none came. -/
theorem Kept.nothing (kept : Kept run came) (empty : ¬ run.Holds) : came = [] :=
  List.eq_nil_iff_forall_not_mem.mpr fun _ among => empty (kept.holds among)

/-- Where none came, there is none to keep. -/
theorem Kept.of_nil (none_ : came = []) : Kept run came := by
  rw [none_]
  exact fun _ among => absurd among List.not_mem_nil

/-- What is returned at the end of a call is as it should be. -/
theorem Inv.ended (inv : watch.Inv) (event : CallEvent) :
    ∀ end_ ∈ watch.ended event, (∀ msg ∈ end_.came, end_.returned = some msg) ∧
      (end_.returned = none → end_.timeUp = true ∧ end_.stays = false) := by
  have here := inv.here
  cases event with
  | caller sent wait =>
    intro end_ among
    unfold Watch.ended at among
    dsimp only at among
    split at among
    · -- The loop was left with the last wait failed.
      rename_i pc
      rw [Here, pc] at here
      obtain ⟨kept, out, _⟩ := here
      split at among
      · rename_i failed
        obtain ⟨errno, empty⟩ := out failed
        rw [List.mem_singleton] at among
        rw [among]
        refine ⟨?_, fun _ => ⟨errno, decide_eq_false empty⟩⟩
        show ∀ msg ∈ watch.came, _
        rw [kept.nothing empty]
        exact fun _ among => absurd among List.not_mem_nil
      · cases among
    · -- The message was taken out of the chute.
      rename_i pc
      rw [Here, pc] at here
      obtain ⟨taken, some_⟩ := here
      rw [List.mem_singleton] at among
      rw [among]
      exact ⟨taken, fun nothing => absurd nothing some_⟩
    · cases among
  | call request =>
    intro end_ among
    cases among
  | store msg =>
    intro end_ among
    cases among
  | post =>
    intro end_ among
    cases among

/-- The call goes on from where it is. -/
theorem Here.caller (here : Here run came) (sent : Bool) (wait : WaitRet)
    (prompt : run.pc = .wait → wait ≠ .posted → ¬ run.Holds) :
    Here (run.caller sent wait) came := by
  obtain ⟨mbuf, expect, barrier, pc, request, failed, errno, taken, storing, answers⟩ := run
  cases pc with
  | idle => trivial
  | clearTest =>
    -- With nothing in the chute, the call goes on at once.
    cases mbuf with
    | none => exact Kept.of_nil here
    | some old => exact here
  | clearFree => exact here
  | clearNil => exact Kept.of_nil here
  | expect => exact ⟨here, rfl⟩
  | send =>
    cases sent with
    | true => exact ⟨here.1, here.2, fun is => absurd is Bool.false_ne_true,
        fun is => absurd is Bool.false_ne_true⟩
    | false => trivial
  | loopTest =>
    obtain ⟨kept, expects, errs, quits⟩ := here
    cases mbuf with
    | none =>
      cases errno with
      | false => exact ⟨kept, expects, rfl, fun some_ => absurd rfl some_⟩
      | true =>
        -- A wait has failed, and nothing came.
        have fails : failed = true := errs rfl
        refine ⟨kept, fun _ => ⟨rfl, (quits fails).1⟩, fun is => ?_⟩
        rw [show failed = false from is] at fails
        cases fails
    | some msg =>
      refine ⟨kept, fun is => ⟨?_, (quits is).1⟩, fun _ => nofun⟩
      exact (quits is).2.resolve_right nofun
  | wait =>
    obtain ⟨kept, expects, errs, wakes⟩ := here
    cases wait with
    | posted =>
      cases barrier with
      | zero => exact ⟨kept, expects, errs, wakes⟩
      | succ count =>
        refine ⟨kept, expects, fun is => ?_, fun is => absurd is Bool.false_ne_true⟩
        exact absurd (errs.symm.trans is) Bool.false_ne_true
    | interrupted => exact ⟨kept, expects, fun _ => rfl, fun _ => prompt rfl nofun⟩
    | failed => exact ⟨kept, expects, fun _ => rfl, fun _ => prompt rfl nofun⟩
  | wakeTest =>
    obtain ⟨kept, expects, errs, empty⟩ := here
    cases mbuf with
    | none => exact ⟨kept, expects, errs, fun is => ⟨empty is, .inr rfl⟩⟩
    | some msg => exact ⟨kept, expects, errs, empty⟩
  | compare =>
    obtain ⟨kept, expects, errs, empty⟩ := here
    have expects : expect = request.xaction := expects
    unfold CallRun.caller
    dsimp only
    by_cases same : mbuf.map Mbuf.xaction = some expect
    · -- It is the answer, so the last wait did not fail.
      rw [if_pos same]
      exact ⟨kept, expects, errs, fun is => absurd (expects ▸ same) (empty is)⟩
    · rw [if_neg same]
      exact ⟨kept.nothing (expects ▸ same), expects⟩
  | dropFree => exact here
  | dropNil =>
    obtain ⟨none_, expects⟩ := here
    exact ⟨Kept.of_nil none_, expects,
      fun is => absurd is Bool.false_ne_true, fun _ => ⟨nofun, .inr rfl⟩⟩
  | exitTest =>
    obtain ⟨kept, out, in_⟩ := here
    cases failed with
    | true => trivial
    | false => exact ⟨kept, in_ rfl⟩
  | take =>
    obtain ⟨kept, some_⟩ := here
    exact ⟨fun msg among => (kept msg among).1, some_⟩
  | takeNil => trivial

/-- A message comes, and is noted if it is the answer. -/
theorem Here.store (here : Here run came) {msg : Mbuf} {next : List Mbuf} (comes : Comes run msg)
    (busy : run.pc ≠ .idle)
    (noted : next = came ∨ next = came ++ [msg] ∧ msg.xaction = run.request.xaction) :
    Here { run with mbuf := some msg, storing := true } next := by
  obtain ⟨alone, fits, starts⟩ := comes
  -- Nothing came before, so that what is noted is this message.
  have keeps : came = [] → Kept { run with mbuf := some msg, storing := true } next := by
    intro none_ noted_ among
    rcases noted with same | ⟨same, answers⟩
    · rw [same, none_] at among
      cases among
    · rw [same, none_, List.nil_append, List.mem_singleton] at among
      rw [among]
      exact ⟨rfl, answers⟩
  -- Where the chute is about to be cleared, it is not the answer, and not noted.
  have drops : run.pc.clearing = true → next = came := by
    intro clearing
    rcases noted with same | ⟨_, answers⟩
    · exact same
    · rw [(fits answers).1] at clearing
      cases clearing
  -- Where the last wait failed, it is not the answer either.
  have fails : run.pc.looping = true → run.failed = true →
      ¬ ({ run with mbuf := some msg, storing := true } : CallRun).Holds := by
    intro looping failed holds
    have answers : msg.xaction = run.request.xaction := Option.some.inj holds
    rw [(fits answers).2 looping] at failed
    cases failed
  obtain ⟨mbuf, expect, barrier, pc, request, failed, errno, taken, storing, answers⟩ := run
  cases pc with
  | idle => exact absurd rfl busy
  | clearTest => exact (drops rfl).trans here
  | clearFree => exact (drops rfl).trans here
  | clearNil => exact (drops rfl).trans here
  | expect => exact keeps (here.nothing alone)
  | send => exact ⟨keeps (here.1.nothing alone), here.2⟩
  | loopTest =>
    obtain ⟨kept, expects, errs, _⟩ := here
    exact ⟨keeps (kept.nothing alone), expects, errs,
      fun is => ⟨fails rfl is, .inl (starts rfl is)⟩⟩
  | wait =>
    obtain ⟨kept, expects, errs, _⟩ := here
    exact ⟨keeps (kept.nothing alone), expects, errs, fun _ => .inl rfl⟩
  | wakeTest =>
    obtain ⟨kept, expects, errs, _⟩ := here
    exact ⟨keeps (kept.nothing alone), expects, errs, fails rfl⟩
  | compare =>
    obtain ⟨kept, expects, errs, _⟩ := here
    exact ⟨keeps (kept.nothing alone), expects, errs, fails rfl⟩
  | dropFree => exact ⟨(drops rfl).trans here.1, here.2⟩
  | dropNil => exact ⟨(drops rfl).trans here.1, here.2⟩
  | exitTest =>
    obtain ⟨kept, out, _⟩ := here
    exact ⟨keeps (kept.nothing alone), fun is => ⟨(out is).1, fails rfl is⟩, fun _ => nofun⟩
  | take => exact ⟨keeps (here.1.nothing alone), nofun⟩
  | takeNil =>
    have same : next = came := drops rfl
    rw [same]
    exact here

/-- The post that follows a message changes the semaphore only. -/
theorem Here.post (here : Here run came) :
    Here { run with barrier := run.barrier + 1, storing := false } came := by
  -- Only a caller that waits looks at the semaphore, and finds it posted now.
  obtain ⟨mbuf, expect, barrier, pc, request, failed, errno, taken, storing, answers⟩ := run
  cases pc with
  | wait =>
    obtain ⟨kept, expects, errs, _⟩ := here
    exact ⟨kept, expects, errs, fun _ => .inr (Nat.succ_pos barrier)⟩
  | _ => exact here

/-- Every event keeps what holds, if it is one that is asked for. -/
theorem Inv.step (inv : watch.Inv) {event : WatchEvent} (prompt : watch.Prompt event) :
    (watch.step event).Inv := by
  -- One case for each event, in the places where the caller may be then.
  cases event with
  | expire => exact ⟨inv.here, inv.complete⟩
  | chute event =>
    refine ⟨?_, ?_⟩
    · show Here (watch.run.step event) (watch.noted event)
      cases event with
      | call request =>
        unfold CallRun.step Watch.noted
        dsimp only
        by_cases idle : watch.run.pc = .idle
        · rw [if_pos idle, if_pos idle]
          exact rfl
        · rw [if_neg idle, if_neg idle]
          exact inv.here
      | caller sent wait => exact inv.here.caller sent wait prompt
      | store msg =>
        unfold CallRun.step Watch.noted
        dsimp only
        by_cases storing : watch.run.storing = true
        · rw [if_pos storing,
            if_neg (by rw [storing]; exact fun is => absurd is.1.symm Bool.false_ne_true)]
          exact inv.here
        · rw [if_neg storing]
          by_cases idle : watch.run.pc = .idle
          · rw [if_neg fun is => is.2.1 idle, Here]
            dsimp only
            rw [idle]
            trivial
          · refine inv.here.store (prompt (Bool.eq_false_of_not_eq_true storing) idle) idle ?_
            split
            · rename_i is
              exact .inr ⟨rfl, is.2.2.2⟩
            · exact .inl rfl
      | post =>
        unfold CallRun.step
        dsimp only
        split
        · exact inv.here.post
        · exact inv.here
    · intro end_ among
      rcases List.mem_append.mp among with before | new
      · exact inv.complete end_ before
      · exact inv.ended event end_ new

/-- A call goes on for a number of steps, and is not kept from sending or interrupted. -/
def onwards (count : Nat) (run : CallRun) : CallRun :=
    (fun run => run.caller true .posted)^[count] run

/-- A call that is over does not go on. -/
theorem onwards_idle (count : Nat) {run : CallRun} (idle : run.pc = .idle) :
    (onwards count run).pc = .idle := by
  -- A call that is over is where it was after any number of steps.
  have stays : run.caller true .posted = run := by
    unfold CallRun.caller
    rw [idle]
  rw [onwards, Function.iterate_fixed stays]
  exact idle

/-- The comparison finds the answer. -/
theorem compare_answer (same : run.mbuf.map Mbuf.xaction = some run.expect)
    (pc : run.pc = .compare) :
    run.caller true .posted = { run with pc := .loopTest } := by
  unfold CallRun.caller
  rw [pc]
  dsimp only
  rw [if_pos same]

/-- From a comparison with the answer, the call is over in five steps. -/
theorem soon_compared (run : CallRun) (same : run.mbuf.map Mbuf.xaction = some run.expect)
    (pc : run.pc = .compare) (failed : run.failed = false) : (onwards 5 run).pc = .idle := by
  -- The first step takes the message, and each of the others leads on to the next place.
  show (onwards 4 (run.caller true .posted)).pc = .idle
  rw [compare_answer same pc]
  obtain ⟨mbuf, expect, barrier, pc, request, failed, errno, taken, storing, answers⟩ := run
  cases failed
  cases mbuf with
  | none => cases same
  | some msg => rfl

/-- Once the answer is in the chute and was posted, the call is over in seven steps. -/
theorem Here.soon (here : Here run came) (kept : came ≠ []) (posted : run.storing = false) :
    (onwards 7 run).pc = .idle := by
  obtain ⟨msg, rest, is⟩ := List.exists_cons_of_ne_nil kept
  have among : msg ∈ came := is ▸ List.mem_cons_self
  obtain ⟨mbuf, expect, barrier, pc, request, failed, errno, taken, storing, answers⟩ := run
  cases pc with
  | idle => rfl
  | clearTest => exact absurd here kept
  | clearFree => exact absurd here kept
  | clearNil => exact absurd here kept
  | expect =>
    cases (here msg among).1
    rfl
  | send =>
    cases (here.1 msg among).1
    rfl
  | loopTest =>
    obtain ⟨kept, _, _, quits⟩ := here
    cases (kept msg among).1
    cases failed with
    | false => rfl
    | true => exact absurd (kept.holds among) (quits rfl).1
  | wait =>
    obtain ⟨kept, expects, _, wakes⟩ := here
    have same : mbuf.map Mbuf.xaction = some expect :=
      (kept.holds among).trans (congrArg some expects.symm)
    cases (kept msg among).1
    cases barrier with
    | zero =>
      -- The post came after the message, and only this call takes it.
      rcases wakes nofun with storing_ | positive
      · exact absurd (storing_.symm.trans posted) nofun
      · exact absurd positive (Nat.lt_irrefl 0)
    | succ count => exact soon_compared _ same rfl rfl
  | wakeTest =>
    obtain ⟨kept, expects, _, empty⟩ := here
    have same : mbuf.map Mbuf.xaction = some expect :=
      (kept.holds among).trans (congrArg some expects.symm)
    cases (kept msg among).1
    cases failed with
    | false => exact onwards_idle 1 (soon_compared
      ⟨some msg, expect, barrier, .compare, request, false,
        errno, taken, storing, answers⟩ same rfl rfl)
    | true => exact absurd (kept.holds among) (empty rfl)
  | compare =>
    obtain ⟨kept, expects, _, empty⟩ := here
    have same : mbuf.map Mbuf.xaction = some expect :=
      (kept.holds among).trans (congrArg some expects.symm)
    cases failed with
    | false => exact onwards_idle 2 (soon_compared _ same rfl rfl)
    | true => exact absurd (kept.holds among) (empty rfl)
  | dropFree => exact absurd here.1 kept
  | dropNil => exact absurd here.1 kept
  | exitTest =>
    obtain ⟨kept, out, _⟩ := here
    cases failed with
    | false => rfl
    | true => exact absurd (kept.holds among) (out rfl).2
  | take => rfl
  | takeNil => rfl

/-- In every interleaving of calls with the thread that puts messages into the chute and the time
that passes, as long as each event is one that is asked for: the answer that came in time is
returned, and nothing is returned only after the time was over with no answer in the chute; and a
call is over in seven more steps when the answer is there and was posted. -/
theorem run_complete (msg : Mbuf) (events : List WatchEvent)
    (prompt : Throughout step Prompt (init msg) events) :
    (events.foldl step (init msg)).Complete ∧
      ((events.foldl step (init msg)).came ≠ [] →
        (events.foldl step (init msg)).run.storing = false →
        (onwards 7 (events.foldl step (init msg)).run).pc = .idle) := by
  -- By the invariant, which every event that is in time keeps.
  have inv : (events.foldl step (init msg)).Inv :=
    prompt.keeps (fun inv meets => inv.step meets) (init_inv msg)
  exact ⟨inv.complete, inv.here.soon⟩

instance decidableComes (run : CallRun) (msg : Mbuf) : Decidable (Comes run msg) :=
  inferInstanceAs (Decidable (_ ∧ _ ∧ _))

instance decidablePrompt (watch : Watch) : (event : WatchEvent) → Decidable (watch.Prompt event)
  | .expire => .isTrue trivial
  | .chute (.call _) => .isTrue trivial
  | .chute (.caller _ _) => inferInstanceAs (Decidable (_ → _ → ¬ _))
  | .chute (.store _) => inferInstanceAs (Decidable (_ → _ → _))
  | .chute .post => .isTrue trivial

/-- The call goes on as often as given. -/
def goesOn (count : Nat) : List WatchEvent :=
  List.replicate count (.chute (.caller true .posted))

/-- A call is interrupted while nothing is there, then finds a late answer to another call, and at
last its own one. -/
def slowAnswer : List WatchEvent :=
  [.chute (.call (CallRun.msgWith 1))] ++ goesOn 4 ++
    [.chute (.caller true .interrupted)] ++ goesOn 2 ++
    [.chute (.store (CallRun.msgWith 2)), .chute .post] ++ goesOn 6 ++
    [.chute (.store (CallRun.msgWith 1)), .chute .post, .expire] ++ goesOn 7

/-- It returns that. -/
theorem run_complete_slow :
    Throughout step Prompt (init (CallRun.msgWith 0)) slowAnswer ∧
      ((slowAnswer.foldl step (init (CallRun.msgWith 0))).ends.map fun end_ => end_.came.length) =
        [1] ∧
      (slowAnswer.foldl step (init (CallRun.msgWith 0))).Complete := by
  have prompt : Throughout step Prompt (init (CallRun.msgWith 0)) slowAnswer := by decide +kernel
  exact ⟨prompt, by decide +kernel, (run_complete (CallRun.msgWith 0) slowAnswer prompt).1⟩

/-- A call is interrupted, and the answer comes before it sees if the chute is empty. -/
def interruptedAnswer : List WatchEvent :=
  [.chute (.call (CallRun.msgWith 1))] ++ goesOn 4 ++
    [.chute (.caller true .interrupted), .chute (.store (CallRun.msgWith 1)), .chute .post] ++
      goesOn 4

/-- It returns nothing, though it has just compared the answer. -/
theorem answer_not_returned :
    ¬ (interruptedAnswer.foldl step (init (CallRun.msgWith 0))).Complete := by
  -- The run is evaluated: a call ends with nothing, and not for the time being up.
  intro complete
  have lost : ∃ end_ ∈ (interruptedAnswer.foldl step (init (CallRun.msgWith 0))).ends,
      end_.returned = none ∧ end_.timeUp = false := by decide +kernel
  obtain ⟨end_, among, nothing, early⟩ := lost
  have timeUp : end_.timeUp = true := ((complete end_ among).2 nothing).1
  rw [early] at timeUp
  cases timeUp

end Watch

end Rmr
