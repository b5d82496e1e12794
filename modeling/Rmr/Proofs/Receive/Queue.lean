import Rmr.Lib.Run
import Rmr.Lib.Threads
import Rmr.Receive.Queue

/-! The count of the semaphore is the number of queued messages, if nobody takes a message or a
count that somebody else is about to take. -/

namespace Rmr

/-- A thread that has a message and has yet to pop the count for it. -/
def MtRcvPc.popping : MtRcvPc → Bool
  | .pop _ => true
  | _ => false

/-- A thread that has a count and has yet to extract the message for it. -/
def MtRcvPc.extracting : MtRcvPc → Bool
  | .extract _ => true
  | _ => false

/-- A thread that is not called, or that waits. -/
def MtRcvPc.settled : MtRcvPc → Bool
  | .idle => true
  | .wait _ _ => true
  | _ => false

namespace NormalQueue
variable {queue next : NormalQueue}

/-- How many satisfied waits have a message to extract. -/
def owed (queue : NormalQueue) : Nat := queue.threads.countP MtRcvPc.extracting

/-- A message that was queued and has yet to be posted. -/
def unposted (queue : NormalQueue) : Nat := if queue.posting then 1 else 0

/-- Nobody is in the middle of anything, though threads may wait. -/
def Settled (queue : NormalQueue) : Prop :=
  queue.posting = false ∧ ∀ pc ∈ queue.threads, pc.settled = true

/-- What is asked of a thread that goes on from a place. -/
def FairAt (queue : NormalQueue) (ret : SemRet) : MtRcvPc → Prop
  -- A poll leaves the messages that satisfied waits have yet to extract.
  | .poll _ => queue.mring ≠ [] → queue.owed < queue.mring.length
  -- The count for the message of a poll is there.
  | .pop _ => 0 < queue.barrier
  -- A wait is satisfied by a count that there is a message for.
  | .wait _ _ => ret = .ok → 0 < queue.barrier → queue.owed < queue.mring.length
  | _ => True

/-- What is asked of an event. -/
def Fair (queue : NormalQueue) (event : QueueEvent) : Prop :=
  match event with
  | .receiver thread ret => ∀ pc ∈ queue.threads[thread]?, queue.FairAt ret pc
  | _ => True

/-- What holds of the queue at all times. -/
structure Inv (queue : NormalQueue) : Prop where
  counted : queue.mring.length + queue.threads.countP MtRcvPc.popping =
    queue.barrier + queue.unposted + queue.owed
  owed : queue.owed ≤ queue.mring.length
  /-- No satisfied wait has come up empty. -/
  answered : ∀ received ∈ queue.received, received.waited = true → received.fresh = true

/-- An empty queue is as it should be. -/
theorem init_inv (threads : Nat) : (init threads).Inv := by
  -- Every thread is idle, so that none owes a message.
  have none_ : ∀ counts : MtRcvPc → Bool, counts .idle = false →
      (init threads).threads.countP counts = 0 := by
    intro counts no
    rw [List.countP_eq_zero]
    intro pc among
    rw [List.eq_of_mem_replicate among, no]
    exact Bool.false_ne_true
  refine ⟨?_, ?_, fun received among => absurd among List.not_mem_nil⟩
  · rw [NormalQueue.owed, none_ _ rfl, none_ _ rfl]
    rfl
  · rw [NormalQueue.owed, none_ _ rfl]
    exact Nat.zero_le _

/-- What a step of a receiving thread does to the message and the count. -/
structure Moves (queue next : NormalQueue) (thread : Nat) (pc nextPc : MtRcvPc) : Prop where
  at_ : queue.threads[thread]? = some pc
  threads : next.threads = queue.threads.set thread nextPc
  posting : next.posting = queue.posting
  counted : next.mring.length + queue.barrier +
      ((if nextPc.popping then 1 else 0) + if pc.extracting then 1 else 0) =
    queue.mring.length + next.barrier +
      ((if pc.popping then 1 else 0) + if nextPc.extracting then 1 else 0)
  owed : queue.owed + (if nextPc.extracting then 1 else 0) ≤
    next.mring.length + if pc.extracting then 1 else 0
  answered : ∀ received ∈ next.received, received ∈ queue.received ∨
    (received.waited = true → received.fresh = true)

/-- Such a step keeps what holds of the queue. -/
theorem Inv.moves (inv : queue.Inv) (next : NormalQueue) {thread : Nat} {pc nextPc : MtRcvPc}
    (moves : Moves queue next thread pc nextPc) : next.Inv := by
  -- One thread moves, which changes the counts of the places it leaves and goes to.
  obtain ⟨at_, threads, posting, counted, owed, answered⟩ := moves
  have popping := countP_moved nextPc at_ MtRcvPc.popping
  have extracting := countP_moved nextPc at_ MtRcvPc.extracting
  have before := inv.counted
  have unposted : next.unposted = queue.unposted := by rw [unposted, unposted, posting]
  have owes : next.owed = (queue.threads.set thread nextPc).countP MtRcvPc.extracting := by
    rw [NormalQueue.owed, threads]
  have owed_ : queue.owed = queue.threads.countP MtRcvPc.extracting := rfl
  refine ⟨?_, ?_, ?_⟩
  · rw [threads, unposted, owes]
    omega
  · omega
  · intro received among
    rcases answered received among with old | good
    · exact inv.answered received old
    · exact good

/-- A receiving thread keeps what holds of the queue, if it takes nothing that another one is about
to take. -/
theorem Inv.receiver (inv : queue.Inv) {thread : Nat} {pc : MtRcvPc} (ret : SemRet)
    (at_ : queue.threads[thread]? = some pc) (fair : queue.FairAt ret pc) :
    (queue.receiver thread ret pc).Inv := by
  -- What is returned last is what was received before, and one more.
  have last : ∀ {out : Received}, (out.waited = true → out.fresh = true) →
      ∀ received ∈ queue.received ++ [out], received ∈ queue.received ∨
        (received.waited = true → received.fresh = true) := by
    intro out good received among
    rcases List.mem_append.mp among with old | new
    · exact .inl old
    · rw [List.mem_singleton.mp new]
      exact .inr good
  have owed := inv.owed
  cases pc with
  | idle => exact inv
  | poll ombuf =>
    unfold NormalQueue.receiver
    cases is : queue.mring with
    | nil => exact inv.moves _ ⟨at_, rfl, rfl, rfl, owed, last nofun⟩
    | cons mbuf mring =>
      -- There is one message less, and a count to pop for it.
      have more : queue.owed < queue.mring.length := fair (by simp [is])
      have length : queue.mring.length = mring.length + 1 := by rw [is, List.length_cons]
      refine inv.moves _ ⟨at_, rfl, rfl, ?_, ?_, fun _ => .inl⟩
      · show mring.length + queue.barrier + (1 + 0) = queue.mring.length + queue.barrier + (0 + 0)
        omega
      · show queue.owed + 0 ≤ mring.length + 0
        omega
  | pop mbuf =>
    have positive : 0 < queue.barrier := fair
    refine inv.moves _ ⟨at_, rfl, rfl, ?_, owed, last fun _ => rfl⟩
    show queue.mring.length + queue.barrier + (0 + 0) =
      queue.mring.length + (queue.barrier - 1) + (1 + 0)
    omega
  | wait timed ombuf =>
    unfold NormalQueue.receiver
    cases ret with
    | ok =>
      dsimp only
      by_cases zero : queue.barrier = 0
      · rw [if_pos zero]
        exact inv
      · -- The count is taken, and the message is owed from now on.
        rw [if_neg zero]
        have more : queue.owed < queue.mring.length := fair rfl (Nat.pos_of_ne_zero zero)
        refine inv.moves _ ⟨at_, rfl, rfl, ?_, ?_, fun _ => .inl⟩
        · show queue.mring.length + queue.barrier + (0 + 0) =
            queue.mring.length + (queue.barrier - 1) + (0 + 1)
          omega
        · show queue.owed + 1 ≤ queue.mring.length + 0
          omega
    | interrupted => exact inv
    | timedOut =>
      dsimp only
      split
      · exact inv.moves _ ⟨at_, rfl, rfl, rfl, owed, last nofun⟩
      · exact inv
  | extract ombuf =>
    -- This thread is one of those that a message is owed to, so there is one.
    have waits : 0 < queue.owed := countP_pos_of_at at_ rfl
    unfold NormalQueue.receiver
    cases is : queue.mring with
    | nil =>
      rw [is] at owed
      exact absurd owed (by simp only [List.length_nil]; omega)
    | cons mbuf mring =>
      have length : queue.mring.length = mring.length + 1 := by rw [is, List.length_cons]
      refine inv.moves _ ⟨at_, rfl, rfl, ?_, ?_, last fun _ => rfl⟩
      · show mring.length + queue.barrier + (0 + 1) = queue.mring.length + queue.barrier + (0 + 0)
        omega
      · show queue.owed + 0 ≤ mring.length + 1
        omega

/-- The thread that queues messages keeps what holds of the queue. -/
theorem Inv.queued (inv : queue.Inv) (next : NormalQueue) (threads : next.threads = queue.threads)
    (received : next.received = queue.received) (more : queue.mring.length ≤ next.mring.length)
    (counted : next.mring.length + queue.barrier + queue.unposted =
      queue.mring.length + next.barrier + next.unposted) : next.Inv := by
  -- The messages queued and the posts to come make up for each other.
  have before := inv.counted
  have owed := inv.owed
  have same : next.owed = queue.owed := by rw [NormalQueue.owed, threads, NormalQueue.owed]
  refine ⟨?_, by omega, received ▸ inv.answered⟩
  rw [same, threads]
  omega

/-- Every event keeps what holds of the queue, if it is a fair one. -/
theorem Inv.step (inv : queue.Inv) {event : QueueEvent} (fair : queue.Fair event) :
    (queue.step event).Inv := by
  -- One case for each event: queueing, posting, and each place of a receiver.
  cases event with
  | queue mbuf =>
    unfold NormalQueue.step
    dsimp only
    split
    · rename_i room
      refine inv.queued _ rfl rfl (by simp) ?_
      simp only [unposted, room.1, List.length_append, List.length_singleton, if_true,
        Bool.false_eq_true, if_false]
      omega
    · exact inv
  | post =>
    unfold NormalQueue.step
    dsimp only
    split
    · rename_i posting
      refine inv.queued _ rfl rfl le_rfl ?_
      simp only [unposted, posting, if_true, Bool.false_eq_true, if_false]
      omega
    · exact inv
  | mtRcv thread mbuf maxWait =>
    unfold NormalQueue.step
    dsimp only
    split
    · rename_i at_
      have popping : (entry mbuf maxWait).popping = false := by
        unfold entry
        split <;> rfl
      have extracting : (entry mbuf maxWait).extracting = false := by
        unfold entry
        split <;> rfl
      refine inv.moves _ ⟨at_, rfl, rfl, ?_, ?_, fun _ => .inl⟩
      · rw [popping, extracting]
        rfl
      · rw [extracting]
        exact inv.owed
    · exact inv
  | receiver thread ret =>
    unfold NormalQueue.step
    dsimp only
    split
    · rename_i pc at_
      exact inv.receiver ret at_ (fair pc at_)
    · exact inv

/-- In every interleaving of the thread that queues messages with any number of threads that
receive, as long as all are fair: the count is the number of messages when nobody is in the middle
of anything, so that no thread waits for a message that is there, and no satisfied wait returns
without a message. -/
theorem run_agrees (threads : Nat) (events : List QueueEvent)
    (fair : Throughout step Fair (init threads) events) :
    ((run threads events).Settled →
        (run threads events).barrier = (run threads events).mring.length) ∧
      ∀ received ∈ (run threads events).received, received.waited = true →
        received.fresh = true := by
  have inv : (run threads events).Inv :=
    fair.keeps (fun inv fair => inv.step fair) (init_inv threads)
  refine ⟨fun ⟨posted, settled⟩ => ?_, inv.answered⟩
  -- A thread that is not called or waits is counted nowhere.
  have none_ : ∀ counts : MtRcvPc → Bool, (∀ pc, pc.settled = true → counts pc = false) →
      (run threads events).threads.countP counts = 0 := by
    intro counts no
    rw [List.countP_eq_zero]
    intro pc among
    rw [no pc (settled pc among)]
    exact Bool.false_ne_true
  have counted := inv.counted
  rw [NormalQueue.owed, none_ _ (by intro pc is; cases pc <;> first | rfl | cases is),
    none_ _ (by intro pc is; cases pc <;> first | rfl | cases is), unposted, posted] at counted
  exact counted.symm

instance decidableFairAt (queue : NormalQueue) (ret : SemRet) :
    (pc : MtRcvPc) → Decidable (queue.FairAt ret pc)
  | .idle => .isTrue trivial
  | .poll _ =>
    decidable_of_iff (queue.mring.isEmpty = true ∨ queue.owed < queue.mring.length)
      (by simp [FairAt, imp_iff_not_or])
  | .pop _ => inferInstanceAs (Decidable (_ < _))
  | .wait _ _ => inferInstanceAs (Decidable (_ → _ → _ < _))
  | .extract _ => .isTrue trivial

instance decidableFair (queue : NormalQueue) : (event : QueueEvent) → Decidable (queue.Fair event)
  | .queue _ => .isTrue trivial
  | .post => .isTrue trivial
  | .mtRcv _ _ _ => .isTrue trivial
  | .receiver thread ret =>
    inferInstanceAs (Decidable (∀ pc ∈ queue.threads[thread]?, queue.FairAt ret pc))

/-- Any message. -/
def someMsg : Mbuf := Mbuf.alloc ⟨330, fun _ => 0⟩ .ok

/-- One thread waits and another one polls, while two messages are queued. -/
def waitAndPoll : List QueueEvent :=
  [.mtRcv 0 none (-1), .queue someMsg, .post, .queue someMsg, .post, .receiver 0 .ok,
    .mtRcv 1 none 0, .receiver 1 .ok, .receiver 0 .ok, .receiver 1 .ok, .queue someMsg, .post]

/-- Both threads have a message, and the third one is queued and counted. -/
theorem run_agrees_wait_and_poll :
    Throughout step Fair (init 2) waitAndPoll ∧ (run 2 waitAndPoll).mring.length = 1 ∧
      ((run 2 waitAndPoll).Settled →
          (run 2 waitAndPoll).barrier = (run 2 waitAndPoll).mring.length) ∧
      ∀ received ∈ (run 2 waitAndPoll).received, received.waited = true →
        received.fresh = true := by
  have fair : Throughout step Fair (init 2) waitAndPoll := by decide +kernel
  exact ⟨fair, by decide +kernel, run_agrees 2 waitAndPoll fair⟩

/-- A poll extracts a message that was inserted and not yet posted: its pop fails, the count stays
for good, and the next wait is satisfied and returns without a message. -/
def pollBeforePost : List QueueEvent :=
  [.mtRcv 0 none 0, .queue someMsg, .receiver 0 .ok, .receiver 0 .ok, .post]

/-- The count is one where there is no message, and a thread that takes it returns without one. -/
theorem counted_but_empty :
    ¬ ((run 1 pollBeforePost).Settled →
        (run 1 pollBeforePost).barrier = (run 1 pollBeforePost).mring.length) ∧
    ¬ ∀ received ∈ (run 1 (pollBeforePost ++
        [.mtRcv 0 none (-1), .receiver 0 .ok, .receiver 0 .ok])).received,
      received.waited = true → received.fresh = true := by
  -- The count is one and the ring is empty, after which a thread comes back with nothing.
  constructor
  · intro agrees
    have same := agrees ⟨rfl, by decide +kernel⟩
    exact absurd same (by decide +kernel)
  · decide +kernel

end NormalQueue

end Rmr
