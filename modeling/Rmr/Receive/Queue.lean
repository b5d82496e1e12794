import Rmr.Receive.Deliver

/-! Threads that receive at the ring of normal messages, beside the thread that queues messages
there. -/

namespace Rmr

/-- What waiting at a semaphore comes to. -/
inductive SemRet where
  /-- It goes on as soon as the count is positive. -/
  | ok
  /-- `EINTR`. -/
  | interrupted
  /-- The time is over, and the count is still zero. -/
  | timedOut
  deriving DecidableEq

/-- The next thing that `rmr_mt_rcv` does, with the buffer that the caller passed in. -/
inductive MtRcvPc where
  /-- It is not called. -/
  | idle
  /-- With no time to wait: extract at once. -/
  | poll (ombuf : Option Mbuf)
  /-- Pop the count for the message that was extracted. -/
  | pop (mbuf : Mbuf)
  /-- Wait at the semaphore, with a time limit or without. -/
  | wait (timed : Bool) (ombuf : Option Mbuf)
  /-- The wait was satisfied: extract. -/
  | extract (ombuf : Option Mbuf)

/-- What `rmr_mt_rcv` returned. -/
structure Received where
  /-- Its wait at the semaphore was satisfied. -/
  waited : Bool
  /-- There was a message; otherwise it is the buffer that the caller passed in. -/
  fresh : Bool
  mbuf : Option Mbuf

/-- `mring`, and the semaphore `barrier` of chute 0. -/
structure NormalQueue where
  /-- The oldest first. -/
  mring : List Mbuf
  barrier : Nat
  /-- The receive thread has inserted a message that it did not post yet. -/
  posting : Bool
  threads : List MtRcvPc
  received : List Received

/-- What happens at the queue. -/
inductive QueueEvent where
  /-- `queue_normal`, up to the post. -/
  | queue (mbuf : Mbuf)
  /-- `sem_post`. -/
  | post
  /-- An application calls, with -1 for a wait without a time limit. -/
  | mtRcv (thread : Nat) (mbuf : Option Mbuf) (maxWait : Int)
  /-- A thread that receives goes on; what its wait comes to if that is next. -/
  | receiver (thread : Nat) (ret : SemRet)

/-- The buffer that is returned when no message came in time. -/
def Mbuf.timedOut (mbuf : Mbuf) : Mbuf := { mbuf with state := .timeout, len := 0 }

/-- The source is put in should the application send this buffer. -/
def Mbuf.addsSrc (mbuf : Mbuf) : Mbuf := { mbuf with addSrc := true }

namespace NormalQueue

/-- Nothing is queued. -/
def init (threads : Nat) : NormalQueue where
  mring := []
  barrier := 0
  posting := false
  threads := List.replicate threads .idle
  received := []

/-- The queue with a thread at another place. -/
def goTo (queue : NormalQueue) (thread : Nat) (pc : MtRcvPc) : NormalQueue :=
  { queue with threads := queue.threads.set thread pc }

/-- The call returns. -/
def answer (queue : NormalQueue) (thread : Nat) (received : Received) : NormalQueue :=
  { queue with received := queue.received ++ [received] }.goTo thread .idle

/-- A thread that receives goes on from where it is. -/
def receiver (queue : NormalQueue) (thread : Nat) (ret : SemRet) : MtRcvPc → NormalQueue
  | .idle => queue
  | .poll ombuf =>
    match queue.mring with
    | [] => queue.answer thread ⟨false, false, ombuf.map fun mbuf => mbuf.timedOut.addsSrc⟩
    | mbuf :: mring => { queue with mring := mring }.goTo thread (.pop mbuf)
  -- The time is over from the start: a count that is positive is popped, and a failure is ignored.
  | .pop mbuf =>
    { queue with barrier := queue.barrier - 1 }.answer thread ⟨false, true, some mbuf.addsSrc⟩
  | .wait timed ombuf =>
    match ret with
    | .ok =>
      if queue.barrier = 0 then queue
      else { queue with barrier := queue.barrier - 1 }.goTo thread (.extract ombuf)
    | .interrupted => queue
    | .timedOut =>
      if timed ∧ queue.barrier = 0 then queue.answer thread ⟨false, false, ombuf⟩ else queue
  | .extract ombuf =>
    match queue.mring with
    | [] => queue.answer thread ⟨true, false, ombuf⟩
    | mbuf :: mring =>
      { queue with mring := mring }.answer thread
        ⟨true, true, some { mbuf.addsSrc with state := .ok }⟩

/-- Where a call starts. -/
def entry (mbuf : Option Mbuf) (maxWait : Int) : MtRcvPc :=
  if maxWait = 0 then .poll mbuf else .wait (0 < maxWait) (mbuf.map Mbuf.timedOut)

/-- One event. -/
def step (queue : NormalQueue) : QueueEvent → NormalQueue
  | .queue mbuf =>
    -- A message is dropped when the ring is full, and nothing is posted then.
    if queue.posting = false ∧ queue.mring.length < mringRoom then
      { queue with mring := queue.mring ++ [mbuf], posting := true }
    else queue
  | .post =>
    if queue.posting then { queue with barrier := queue.barrier + 1, posting := false } else queue
  | .mtRcv thread mbuf maxWait =>
    match queue.threads[thread]? with
    | some .idle => queue.goTo thread (entry mbuf maxWait)
    | _ => queue
  | .receiver thread ret =>
    match queue.threads[thread]? with
    | some pc => queue.receiver thread ret pc
    | none => queue

/-- Events one after the other. -/
def run (threads : Nat) (events : List QueueEvent) : NormalQueue := events.foldl step (init threads)

end NormalQueue

end Rmr
