import Rmr.Message.Retry
import Rmr.Proofs.Message.Capacity

/-! How the retry loop of a send ends, and when the state that it reports is right. -/

namespace Rmr

variable {rets : Nat → SiReturn} {retries : Int}

/-- A blocked send wrote nothing. -/
theorem siSendt_blocked {open_ : Bool} {poll : Poll} {sends : List SendRet} {ubuf : List UInt8}
    {result : SiResult} (returned : siSendt open_ poll sends ubuf = some result)
    (blocked : result.ret = .blocked) : result.written = [] := by
  -- The loop itself does not report that it is blocked.
  have loop : ∀ (sends : List SendRet) (call : Sending), siSendLoop call sends = some result →
      result.ret ≠ .blocked := by
    intro sends
    induction sends with
    | nil => intro call nothing; cases nothing
    | cons ret sends ih =>
      intro call left
      unfold siSendLoop at left
      dsimp only at left
      split at left
      · exact ih _ left
      all_goals
        obtain rfl := Option.some.inj left
        nofun
  unfold siSendt at returned
  split at returned
  · obtain rfl := Option.some.inj returned
    rfl
  · split at returned
    · obtain rfl := Option.some.inj returned
      rfl
    · obtain rfl := Option.some.inj returned
      rfl
    · split at returned
      · obtain rfl := Option.some.inj returned
        rfl
      · exact absurd blocked (loop _ _ returned)

namespace SendTry

/-- What the loop is left with after a call that was not blocked. -/
def after (ret : SiReturn) : SendResult :=
  match ret with
  | .ok => .ok
  | .blocked => .blocked
  | .error errno => if errno = .eagain then .blocked else .failed

/-- How a loop ends that may make so many calls: with the first one that is not blocked, or with the
last one that it may make. -/
def Ends (rets : Nat → SiReturn) (calls most : Nat) (result : SendResult) (made : Nat) : Prop :=
  ∃ more < most, made = calls + more + 1 ∧ (∀ before < more, rets (calls + before) = .blocked) ∧
    result = after (rets (calls + more)) ∧ (rets (calls + more) = .blocked → more + 1 = most)

/-- A loop that may retry ends, and as soon as a call is not blocked. -/
theorem loop_ends (rets : Nat → SiReturn) (most : Nat) (calls : Nat) (this : SendTry)
    (retried : 0 < this.retries) (spins : 0 < this.spinRetries)
    (left : (most : Int) = (this.retries - 1) * 1000 + this.spinRetries) :
    ∃ last made, (∀ fuel, most ≤ fuel → loop rets fuel calls this = some (last, made)) ∧
      Ends rets calls most last.result made := by
  -- The induction is on the number of calls that may still be made.
  induction most generalizing calls this with
  | zero =>
    have nothing : 0 < (this.retries - 1) * 1000 + this.spinRetries := by omega
    omega
  | succ most ih =>
    obtain ⟨ret, retIs⟩ : ∃ ret, ret = rets calls := ⟨_, rfl⟩
    -- A call that is not blocked is the last one.
    have stops : (this.pass ret).blocked = false → (this.pass ret).result = after ret →
        ret ≠ .blocked → ∃ last made, (∀ fuel, most + 1 ≤ fuel →
          loop rets fuel calls this = some (last, made)) ∧
          Ends rets calls (most + 1) last.result made := by
      intro over_ result moves
      refine ⟨this.pass ret, calls + 1, ?_, 0, Nat.succ_pos _, rfl, by simp, ?_, ?_⟩
      · intro fuel enough
        obtain ⟨fuel, rfl⟩ : ∃ less, fuel = less + 1 := ⟨fuel - 1, by omega⟩
        simp [loop, ← retIs, over_]
      · rw [Nat.add_zero, ← retIs]
        exact result
      · rw [Nat.add_zero, ← retIs]
        exact fun blocked => absurd blocked moves
    cases ret with
    | ok => exact stops rfl rfl nofun
    | error errno => exact stops rfl (by simp [pass, result, after]) nofun
    | blocked =>
      obtain ⟨next, nextIs⟩ : ∃ next, next = this.pass .blocked := ⟨_, rfl⟩
      have passed : next.blocked = true ∧ next.msgOk = false ∧
          (most : Int) = (next.retries - 1) * 1000 + next.spinRetries ∧
          0 < next.spinRetries := by
        rw [nextIs]
        unfold pass
        dsimp only
        rw [if_pos retried]
        split
        · exact ⟨rfl, rfl, by dsimp only; omega, by dsimp only; omega⟩
        · exact ⟨rfl, rfl, by dsimp only; omega, by dsimp only; omega⟩
      obtain ⟨blocked, failed, fewer, spins⟩ := passed
      by_cases again : 0 < next.retries
      · -- The loop goes on with one call less.
        obtain ⟨last, made, runs, more, below, count, before, result, whole⟩ :=
          ih (calls + 1) next again spins fewer
        refine ⟨last, made, ?_, more + 1, Nat.succ_lt_succ below, by omega, ?_, ?_, ?_⟩
        · intro fuel enough
          obtain ⟨fuel, rfl⟩ : ∃ less, fuel = less + 1 := ⟨fuel - 1, by omega⟩
          rw [loop, ← retIs, ← nextIs]
          simp only [blocked, again, and_self, if_true]
          exact runs fuel (by omega)
        · intro idx inside
          cases idx with
          | zero => exact retIs.symm
          | succ idx =>
            rw [show calls + (idx + 1) = calls + 1 + idx by omega]
            exact before idx (by omega)
        · rw [show calls + (more + 1) = calls + 1 + more by omega]
          exact result
        · rw [show calls + (more + 1) = calls + 1 + more by omega]
          intro blocked
          rw [whole blocked]
      · -- No call is left, and the last one was blocked.
        have none_ : most = 0 := by
          have zero : next.retries ≤ 0 := Int.not_lt.mp again
          by_contra some_
          have spun : next.spinRetries = 1000 ∨ next.retries = this.retries := by
            rw [nextIs]
            unfold pass
            dsimp only
            rw [if_pos retried]
            split
            · exact Or.inl rfl
            · exact Or.inr rfl
          rcases spun with spun | same
          · omega
          · omega
        subst none_
        refine ⟨next, calls + 1, ?_, 0, Nat.one_pos, rfl, by simp, ?_, fun _ => rfl⟩
        · intro fuel enough
          obtain ⟨fuel, rfl⟩ : ∃ less, fuel = less + 1 := ⟨fuel - 1, by omega⟩
          simp [loop, ← retIs, ← nextIs, again]
        · rw [Nat.add_zero, ← retIs]
          simp [result, failed, blocked, after]

end SendTry

/-- The state that a call calls for, when it is the last one. -/
def SiReturn.rightState : SiReturn → MsgState
  | .ok => .ok
  | .blocked => .retry
  | .error _ => .sendFailed

/-- When only the last call may be anything but blocked, the state is right if it is right for that
call. -/
theorem classifies_iff {results : Nat → SiResult} {state : MsgState} {more : Nat}
    (before : ∀ call < more, (results call).ret = .blocked)
    (clean : ∀ call, (results call).ret = .blocked → (results call).written = []) :
    Classifies results state (more + 1) ↔ state = (results more).ret.rightState := by
  constructor
  · intro classifies
    have success := classifies.success
    have retry := classifies.retry
    have failed := classifies.failed
    rw [Nat.add_sub_cancel] at retry failed
    cases is : (results more).ret with
    | ok => exact success.mpr ⟨more, Nat.lt_succ_self more, is⟩
    | blocked => exact retry.mpr is
    | error errno => exact failed.mpr ⟨errno, is⟩
  · intro right
    -- A call that went well is the last one.
    have last : ∀ call < more + 1, (results call).ret = .ok → call = more := by
      intro call inside sent
      by_contra other
      have blocked := before call (by omega)
      rw [sent] at blocked
      cases blocked
    constructor
    · rw [right]
      constructor
      · intro sent
        refine ⟨more, Nat.lt_succ_self more, ?_⟩
        cases is : (results more).ret with
        | ok => rfl
        | blocked => rw [is] at sent; cases sent
        | error errno => rw [is] at sent; cases sent
      · rintro ⟨call, inside, sent⟩
        rw [← last call inside sent, sent]
        rfl
    · intro call inside sent
      rw [last call inside sent]
    · rw [right, Nat.add_sub_cancel]
      cases (results more).ret with
      | ok => simp [SiReturn.rightState]
      | blocked => simp [SiReturn.rightState]
      | error errno => simp [SiReturn.rightState]
    · rw [right]
      intro again call inside
      apply clean
      by_cases same : call = more
      · subst same
        cases is : (results call).ret with
        | ok => rw [is] at again; cases again
        | blocked => rfl
        | error errno => rw [is] at again; cases again
      · exact before call (by omega)
    · rw [right, Nat.add_sub_cancel]
      cases (results more).ret with
      | ok => simp [SiReturn.rightState]
      | blocked => simp [SiReturn.rightState]
      | error errno => simp [SiReturn.rightState]

/-- The state reported after a call that was not blocked, or with retries, is right unless the error
was `EAGAIN`. -/
theorem after_right (ret : SiReturn) :
    (SendTry.after ret).state = ret.rightState ↔ ret ≠ .error .eagain := by
  -- One case for each outcome; a failure that left `EAGAIN` in `errno` is reported as a retry.
  cases ret with
  | ok => simp [SendTry.after, SendResult.state, SiReturn.rightState]
  | blocked => simp [SendTry.after, SendResult.state, SiReturn.rightState]
  | error errno =>
    cases errno with
    | eintr => simp [SendTry.after, SendResult.state, SiReturn.rightState]
    | eagain => simp [SendTry.after, SendResult.state, SiReturn.rightState]
    | other => simp [SendTry.after, SendResult.state, SiReturn.rightState]

/-- With retries the loop ends with the first call that is not blocked, or with the last one. -/
theorem sendTries_retried (rets : Nat → SiReturn) (some_ : 0 ≤ retries) :
    ∃ result made, (∀ fuel, triesFor retries ≤ fuel →
      sendTries retries rets fuel = some (result.state, made)) ∧
      SendTry.Ends rets 0 (triesFor retries) result made := by
  -- The counters at the entry of the loop make up the number of tries that are left.
  have entered : 0 < (SendTry.enter retries).retries ∧ 0 < (SendTry.enter retries).spinRetries ∧
      (triesFor retries : Int) = ((SendTry.enter retries).retries - 1) * 1000 +
        (SendTry.enter retries).spinRetries := by
    unfold SendTry.enter triesFor
    dsimp only
    rw [if_neg (by omega : ¬ retries < 0)]
    by_cases zero : retries = 0
    · rw [if_pos zero, if_pos zero, if_pos zero]
      omega
    · rw [if_neg zero, if_neg zero, if_neg zero]
      omega
  obtain ⟨last, made, runs, ends⟩ := SendTry.loop_ends rets (triesFor retries) 0
    (SendTry.enter retries) entered.1 entered.2.1 entered.2.2
  exact ⟨last.result, made, fun fuel enough => by rw [sendTries, runs fuel enough]; rfl, ends⟩

/-- Without retries there is one call, after which a message that was blocked has failed. -/
theorem sendTries_once (rets : Nat → SiReturn) (none_ : retries < 0) (fuel : Nat)
    (enough : 1 ≤ fuel) : sendTries retries rets fuel =
      some ((if rets 0 = .blocked then .failed else SendTry.after (rets 0)).state, 1) := by
  -- Below zero retries the loop is left after its first pass, whatever that call came to.
  obtain ⟨fuel, rfl⟩ : ∃ less, fuel = less + 1 := ⟨fuel - 1, by omega⟩
  have entered : SendTry.enter retries = ⟨retries, 1000, false, true, .other⟩ := by
    unfold SendTry.enter
    rw [if_neg (by omega : ¬ retries = 0), if_neg (by omega : ¬ retries = 0)]
  have never : ¬ 0 < retries := by omega
  unfold sendTries
  rw [entered, SendTry.loop]
  cases rets 0 with
  | ok => simp [SendTry.pass, SendTry.result, SendTry.after]
  | blocked => simp [SendTry.pass, SendTry.result, never]
  | error errno => simp [SendTry.pass, SendTry.result, SendTry.after]

/-- The retry loop of a send ends after so many calls at most, and the state that it reports is
right exactly when no error says `EAGAIN` and a send without retries is not blocked. -/
theorem sendTries_classifies_iff (retries : Int) (ubuf : List UInt8) (results : Nat → SiResult)
    (returned : ∀ call, ∃ open_ poll sends, siSendt open_ poll sends ubuf = some (results call)) :
    ∃ state made, (∀ fuel, triesFor retries ≤ fuel →
      sendTries retries (fun call => (results call).ret) fuel = some (state, made)) ∧
      (Classifies results state made ↔ TellsApart retries fun call => (results call).ret) := by
  have clean : ∀ call, (results call).ret = .blocked → (results call).written = [] := by
    intro call blocked
    obtain ⟨open_, poll, sends, result⟩ := returned call
    exact siSendt_blocked result blocked
  by_cases none_ : retries < 0
  · have one : triesFor retries = 1 := by rw [triesFor, if_pos none_]
    refine ⟨_, 1, fun fuel enough => sendTries_once _ none_ fuel (one ▸ enough), ?_⟩
    rw [← Nat.zero_add 1, classifies_iff (by simp) clean]
    by_cases blocked : (results 0).ret = .blocked
    · -- The only call was blocked, which is reported as a failure.
      rw [if_pos blocked, blocked]
      constructor
      · nofun
      · intro apart
        exact absurd blocked (apart.retried none_)
    · rw [if_neg blocked, after_right]
      constructor
      · intro soft
        refine ⟨fun _ => blocked, ?_⟩
        intro call inside _
        obtain rfl : call = 0 := by omega
        exact soft
      · intro apart
        exact apart.hard 0 (one ▸ Nat.one_pos) (by simp)
  · obtain ⟨result, made, runs, more, below, count, before, is, whole⟩ :=
      sendTries_retried (fun call => (results call).ret) (Int.not_lt.mp none_)
    simp only [Nat.zero_add] at count before is whole
    refine ⟨result.state, made, runs, ?_⟩
    rw [count, classifies_iff before clean, is, after_right]
    constructor
    · intro soft
      refine ⟨fun negative => absurd negative none_, ?_⟩
      intro call inside blocked
      -- The call is one that was made.
      rcases Nat.lt_trichotomy call more with earlier | rfl | later
      · rw [before call earlier]
        nofun
      · exact soft
      · have last := whole (blocked more later)
        omega
    · intro apart
      exact apart.hard more below before

/-- A message that is blocked twice and then sent. -/
theorem sendTries_classifies_third : ∃ state made,
    (∀ fuel, triesFor 1 ≤ fuel → sendTries 1 (fun call => if call = 2 then .ok else .blocked) fuel =
      some (state, made)) ∧
    Classifies (fun call => if call = 2 then ⟨.ok, [7]⟩ else ⟨.blocked, []⟩) state made := by
  -- The third call is the one that is sent, and every one before it finds a busy connection.
  obtain ⟨state, made, runs, right⟩ := sendTries_classifies_iff 1 [7]
    (fun call => if call = 2 then ⟨.ok, [7]⟩ else ⟨.blocked, []⟩) (by
      intro call
      by_cases third : call = 2
      · exact ⟨true, .writable, [.taken 1], by rw [if_pos third]; rfl⟩
      · exact ⟨true, .busy, [], by rw [if_neg third]; rfl⟩)
  have same : (fun call => (if call = 2 then (⟨.ok, [7]⟩ : SiResult) else ⟨.blocked, []⟩).ret) =
      fun call => if call = 2 then .ok else .blocked := by
    funext call
    split
    · rfl
    · rfl
  rw [same] at runs right
  refine ⟨state, made, runs, right.mpr ⟨nofun, ?_⟩⟩
  intro call _ _
  split
  · nofun
  · nofun

/-- A send without retries that is blocked fails, and one that fails for lack of room after a part
was written is to be tried again. -/
theorem sendTries_misreported :
    (∃ results : Nat → SiResult, (∀ call, siSendt true .busy [] [7] = some (results call)) ∧
      sendTries (-1) (fun call => (results call).ret) 1 = some (.sendFailed, 1) ∧
      ¬ Classifies results .sendFailed 1) ∧
    (∃ results : Nat → SiResult,
      (∀ call, siSendt true .writable [.taken 1, .failed .eagain] [7, 8] =
        some (results call)) ∧ (results 0).written = [7] ∧
      sendTries 1 (fun call => (results call).ret) 1000 = some (.retry, 1) ∧
      ¬ Classifies results .retry 1) := by
  -- A blocked call without retries, and a failed one after a part was taken, are the two slips.
  constructor
  · refine ⟨fun _ => ⟨.blocked, []⟩, fun _ => rfl, rfl, ?_⟩
    intro classifies
    exact nomatch classifies.retry.mpr rfl
  · refine ⟨fun _ => ⟨.error .eagain, [7]⟩, fun _ => rfl, rfl, rfl, ?_⟩
    intro classifies
    exact nomatch classifies.retry.mp rfl

/-- A message that was allocated has the state that was asked for. -/
theorem allocZcmsg_state {conf : SendConf} {left : Leftover} {allocs : Nat} {msg : Option Mbuf}
    {size trlo : Int} {state : MsgState} {draft : Draft}
    (made : allocZcmsg conf left allocs msg size state trlo = .ok draft) :
    draft.msg.state = state := by
  obtain ⟨tpBuf, mlen, is, -⟩ := allocZcmsg_made made
  rw [is]
  rfl

/-- What `send_msg` returns has the state that the loop reports, or it is nothing after a success.
-/
theorem trySend_state {conf : SendConf} {left : Leftover} {draft : Draft} {result : SendResult}
    {sent : Option Draft} (tried : trySend conf left draft result = .ok sent) :
    (sent = none → result = .ok ∧ draft.msg.noAlloc = true) ∧
      ∀ next ∈ sent, next.msg.state = result.state := by
  obtain ⟨bytes, _, tried⟩ := bind_eq_ok.mp tried
  cases result with
  | ok =>
    dsimp only at tried
    split at tried
    · -- Nothing is wanted back.
      rename_i flagged
      obtain rfl := Except.ok.inj tried
      refine ⟨fun _ => ⟨rfl, flagged⟩, ?_⟩
      intro other same
      cases same
    · obtain ⟨next, nextIs, made⟩ := bind_eq_ok.mp tried
      obtain rfl := Except.ok.inj made
      refine ⟨nofun, ?_⟩
      intro other same
      obtain rfl := Option.some.inj same
      exact allocZcmsg_state nextIs
  | blocked =>
    obtain rfl := Except.ok.inj tried
    refine ⟨nofun, ?_⟩
    intro other same
    obtain rfl := Option.some.inj same
    rfl
  | failed =>
    obtain rfl := Except.ok.inj tried
    refine ⟨nofun, ?_⟩
    intro other same
    obtain rfl := Option.some.inj same
    rfl

end Rmr
