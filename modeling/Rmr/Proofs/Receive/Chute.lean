import Rmr.Lib.Run
import Rmr.Receive.Chute

/-! The response that a call returns: it answers the request if every message does that comes when
the call does not look at it any more. -/

namespace Rmr

/-- What is in the chute is not looked at before it is returned: the chute was cleared and the loop
is not entered yet, or the loop is about to be left. -/
def CallPc.blind : CallPc → Bool
  | .expect => true
  | .send => true
  | .loopTest => true
  | .exitTest => true
  | .take => true
  | _ => false

/-- The transaction id to wait for was copied. -/
def CallPc.expecting : CallPc → Bool
  | .idle => false
  | .clearTest => false
  | .clearFree => false
  | .clearNil => false
  | .expect => false
  | _ => true

namespace CallRun

variable {run : CallRun}

/-- All responses that were returned have the transaction id of their request. -/
def Answered (run : CallRun) : Prop :=
  ∀ answer ∈ run.answers, answer.2.xaction = answer.1.xaction

/-- A message that comes where the call does not look at it has the transaction id of the request.
-/
def Fitting (run : CallRun) (event : CallEvent) : Prop :=
  match event with
  | .store msg => run.pc.blind = true → msg.xaction = run.request.xaction
  | _ => True

/-- What holds where the call is. -/
structure Inv (run : CallRun) : Prop where
  stored : run.pc.blind = true → ∀ msg ∈ run.mbuf, msg.xaction = run.request.xaction
  expect : run.pc.expecting = true → run.expect = run.request.xaction
  taken : run.pc = .takeNil → ∀ msg ∈ run.taken, msg.xaction = run.request.xaction
  answered : run.Answered

/-- Nothing was put into the chute, and nobody waits at it. -/
theorem init_inv (msg : Mbuf) : (init msg).Inv where
  stored := fun is => by cases is
  expect := fun is => by cases is
  taken := fun is => by cases is
  answered := fun _ among => absurd among List.not_mem_nil

/-- The call goes on. -/
theorem Inv.caller (inv : run.Inv) (sent : Bool) (wait : WaitRet) : (run.caller sent wait).Inv := by
  obtain ⟨stored, expect, taken, answered⟩ := inv
  unfold CallRun.caller
  cases pc : run.pc with
  | idle => exact ⟨stored, expect, taken, answered⟩
  | clearTest =>
    dsimp only
    split
    · -- With nothing in the chute, the call goes on at once.
      rename_i none
      exact ⟨fun _ msg among => by simp [none] at among, nofun,
        nofun, answered⟩
    · exact ⟨nofun, nofun, nofun, answered⟩
  | clearFree =>
    exact ⟨nofun, nofun, nofun, answered⟩
  | clearNil =>
    exact ⟨fun _ msg among => absurd among (Option.not_mem_none msg), nofun, nofun, answered⟩
  | expect =>
    rw [pc] at stored
    exact ⟨fun _ => stored rfl, fun _ => rfl, nofun, answered⟩
  | send =>
    rw [pc] at stored expect
    dsimp only
    split
    · exact ⟨fun _ => stored rfl, fun _ => expect rfl, nofun, answered⟩
    · exact ⟨nofun, nofun, nofun, answered⟩
  | loopTest =>
    rw [pc] at stored expect
    dsimp only
    split
    · exact ⟨nofun, fun _ => expect rfl, nofun, answered⟩
    · exact ⟨fun _ => stored rfl, fun _ => expect rfl, nofun, answered⟩
  | wait =>
    have known := expect
    rw [pc] at known
    dsimp only
    split
    · split
      · exact ⟨stored, expect, taken, answered⟩
      · exact ⟨nofun, fun _ => known rfl, nofun, answered⟩
    · exact ⟨nofun, fun _ => known rfl, nofun, answered⟩
    · exact ⟨nofun, fun _ => known rfl, nofun, answered⟩
  | wakeTest =>
    rw [pc] at expect
    dsimp only
    split
    · rename_i none
      exact ⟨fun _ msg among => by simp [none] at among, fun _ => expect rfl, nofun,
        answered⟩
    · exact ⟨nofun, fun _ => expect rfl, nofun, answered⟩
  | compare =>
    rw [pc] at expect
    dsimp only
    split
    · -- What was compared is what the loop is left with.
      rename_i same
      refine ⟨fun _ msg among => ?_, fun _ => expect rfl, nofun, answered⟩
      dsimp only at among ⊢
      rw [Option.mem_def] at among
      rw [among] at same
      exact (Option.some.inj same).trans (expect rfl)
    · exact ⟨nofun, fun _ => expect rfl, nofun, answered⟩
  | dropFree =>
    rw [pc] at expect
    exact ⟨nofun, fun _ => expect rfl, nofun, answered⟩
  | dropNil =>
    rw [pc] at expect
    exact ⟨fun _ msg among => absurd among (Option.not_mem_none msg), fun _ => expect rfl, nofun,
      answered⟩
  | exitTest =>
    rw [pc] at stored expect
    dsimp only
    split
    · exact ⟨nofun, nofun, nofun, answered⟩
    · exact ⟨fun _ => stored rfl, fun _ => expect rfl, nofun, answered⟩
  | take =>
    rw [pc] at stored expect
    exact ⟨nofun, fun _ => expect rfl, fun _ => stored rfl, answered⟩
  | takeNil =>
    rw [pc] at taken
    refine ⟨nofun, nofun, nofun, ?_⟩
    intro answer among
    rcases List.mem_append.mp among with before | new
    · exact answered answer before
    · cases what : run.taken with
      | none => simp [what] at new
      | some msg =>
        have is : answer = (run.request, msg) := by simpa [what] using new
        rw [is]
        exact taken rfl msg what

/-- Each event keeps the invariant, if the message that it may bring is a fitting one. -/
theorem Inv.step (inv : run.Inv) {event : CallEvent} (fitting : run.Fitting event) :
    (run.step event).Inv := by
  -- One case for each event; a message is only put in where it fits.
  cases event with
  | call request =>
    unfold CallRun.step
    dsimp only
    split
    · exact ⟨nofun, nofun, nofun, inv.answered⟩
    · exact inv
  | caller sent wait => exact inv.caller sent wait
  | store msg =>
    unfold CallRun.step
    dsimp only
    split
    · exact inv
    · refine ⟨fun blind msg' among => ?_, inv.expect, inv.taken, inv.answered⟩
      cases among
      exact fitting blind
  | post =>
    unfold CallRun.step
    dsimp only
    split
    · exact ⟨inv.stored, inv.expect, inv.taken, inv.answered⟩
    · exact inv

/-- In every interleaving of calls with the thread that puts messages into the chute, as long as
each message that comes where the call does not look at it is a fitting one, every response has the
transaction id of the request that it is returned for. -/
theorem run_answered (msg : Mbuf) (events : List CallEvent)
    (fitting : Throughout step Fitting (init msg) events) : (CallRun.run msg events).Answered := by
  -- By the invariant, which every event that fits keeps.
  have inv : (CallRun.run msg events).Inv :=
    fitting.keeps (fun inv meets => inv.step meets) (init_inv msg)
  exact inv.answered

instance (run : CallRun) (event : CallEvent) : Decidable (run.Fitting event) :=
  match event with
  | .store msg =>
    inferInstanceAs (Decidable (run.pc.blind = true → msg.xaction = run.request.xaction))
  | .call _ => isTrue trivial
  | .caller _ _ => isTrue trivial
  | .post => isTrue trivial

/-- A message whose transaction id has the same byte throughout. -/
def msgWith (byte : UInt8) : Mbuf := Mbuf.alloc ⟨330, fun _ => byte⟩ .ok

/-- The caller goes on as often as given, with what it sends sent. -/
def callerOn (count : Nat) : List CallEvent := List.replicate count (.caller true .posted)

/-- A late answer to another call comes while the call waits, and then its own one. -/
def lateAnswer : List CallEvent :=
  [.call (msgWith 1)] ++ callerOn 4 ++ [.store (msgWith 2), .post] ++ callerOn 6 ++
    [.store (msgWith 1), .post] ++ callerOn 7

/-- The late answer is dropped, and the other one returned. -/
theorem run_answered_late :
    ((CallRun.run (msgWith 0) lateAnswer).answers.map fun answer => answer.2.xaction) =
        [(msgWith 1).xaction] ∧
      (CallRun.run (msgWith 0) lateAnswer).Answered :=
  ⟨by decide, run_answered (msgWith 0) lateAnswer (by decide)⟩

/-- A late answer to another call comes after the request was sent, and before the call waits. -/
def earlyAnswer : List CallEvent :=
  [.call (msgWith 1)] ++ callerOn 3 ++ [.store (msgWith 2), .post] ++ callerOn 4

/-- It is returned as the response. -/
theorem answer_not_compared : ¬ (CallRun.run (msgWith 0) earlyAnswer).Answered := by
  -- The answer that is returned has another transaction id than the request.
  intro answered
  have returned : (CallRun.run (msgWith 0) earlyAnswer).answers = [(msgWith 1, msgWith 2)] := rfl
  have same := answered (msgWith 1, msgWith 2) (by rw [returned]; exact List.mem_singleton.mpr rfl)
  exact absurd same (by decide)

end CallRun

end Rmr
