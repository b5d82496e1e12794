import Rmr.Receive.Queue

/-! The ring of normal messages with a record of what went in, who took it out and what was
returned. -/

namespace Rmr

/-- The message that a thread took out of the ring and has yet to return. -/
def MtRcvPc.hand : MtRcvPc → List Mbuf
  | .pop mbuf => [mbuf]
  | _ => []

/-- What a thread took out, where it is this one. -/
def takenBy (thread : Nat) (one : Nat × Mbuf) : Option Mbuf :=
  if one.1 = thread then some one.2 else none

/-- The message that was returned, if there was one. -/
def Received.msg (received : Received) : Option Mbuf :=
  if received.fresh = true then received.mbuf else none

/-- The message that was returned to a thread, where it is this one. -/
def returnedTo (thread : Nat) (one : Nat × Received) : Option Mbuf :=
  if one.1 = thread then one.2.msg else none

namespace NormalQueue

/-- What an event puts into the ring. -/
def puts (queue : NormalQueue) : QueueEvent → List Mbuf
  | .queue mbuf =>
    if queue.posting = false ∧ queue.mring.length < mringRoom then [mbuf] else []
  | _ => []

/-- What a thread takes out of the ring. -/
def takes (queue : NormalQueue) : QueueEvent → List (Nat × Mbuf)
  | .receiver thread _ =>
    match queue.threads[thread]? with
    | some (.poll _) => (queue.mring.take 1).map fun mbuf => (thread, mbuf)
    | some (.extract _) => (queue.mring.take 1).map fun mbuf => (thread, mbuf)
    | _ => []
  | _ => []

/-- What `rmr_mt_rcv` returns to a thread. -/
def returns (queue : NormalQueue) (event : QueueEvent) : List (Nat × Received) :=
  match event with
  | .receiver thread _ =>
    ((queue.step event).received.drop queue.received.length).map fun received => (thread, received)
  | _ => []

/-- What a thread has in its hand. -/
def inHand (queue : NormalQueue) (thread : Nat) : List Mbuf :=
  queue.threads[thread]?.elim [] MtRcvPc.hand

end NormalQueue

/-- The ring, and what happened at it. -/
structure Inbox where
  queue : NormalQueue
  /-- What went in. -/
  kept : List Mbuf
  /-- What was taken out, and by which thread. -/
  taken : List (Nat × Mbuf)
  /-- What was returned, and to which thread. -/
  returned : List (Nat × Received)

namespace Inbox

/-- Nothing is queued. -/
def init (threads : Nat) : Inbox := ⟨.init threads, [], [], []⟩

/-- One event. -/
def step (inbox : Inbox) (event : QueueEvent) : Inbox where
  queue := inbox.queue.step event
  kept := inbox.kept ++ inbox.queue.puts event
  taken := inbox.taken ++ inbox.queue.takes event
  returned := inbox.returned ++ inbox.queue.returns event

end Inbox

end Rmr
