import Mathlib.Data.List.Basic

/-! The ring that pointers are queued on, with the counter of the descriptor that can be polled. -/

namespace Rmr

/-- The largest value that the counter of an eventfd can have. -/
def eventfdMax : Nat := 18446744073709551614

/-- The next thing that the one thread does that inserts. -/
inductive InsertPc (α : Type*) where
  | idle
  | store (newData : α)
  /-- Advance the head. -/
  | advance
  /-- Count the element in the descriptor. -/
  | write
  deriving DecidableEq

/-- The next thing that a thread does that extracts. -/
inductive ExtractPc where
  | idle
  /-- The ring is not empty at first sight; get the read lock. -/
  | lock
  /-- Ensure that the ring did not go empty while waiting. -/
  | recheck
  /-- Advance the tail. -/
  | advance
  /-- Read the descriptor, without blocking. -/
  | read (ti : Nat)
  /-- Secure the pointer, and clear it in the ring. -/
  | take (ti : Nat)
  | unlock
  deriving DecidableEq

/-- `ring_t`, with a read lock and no write lock, and the threads that use it. -/
structure Ring (α : Type*) where
  data : Nat → Option α
  head : Nat
  tail : Nat
  nelements : Nat
  /-- The counter of the eventfd `pfd`, which is in semaphore mode and does not block. -/
  pfd : Nat
  /-- `rgate`: the thread that has the read lock. -/
  rgate : Option Nat
  inserter : InsertPc α
  extractors : List ExtractPc
  /-- The pointers that were returned, the oldest first. -/
  extracted : List (Option α)

/-- What happens at a ring. -/
inductive RingEvent (α : Type*) where
  /-- `uta_ring_insert`. -/
  | insert (newData : α)
  /-- The thread that inserts goes on. -/
  | inserter
  /-- `uta_ring_extract`. -/
  | extract (thread : Nat)
  /-- A thread that extracts goes on. -/
  | extractor (thread : Nat)

namespace Ring
variable {α : Type*}

/-- `uta_mk_ring`, for a number of elements that is an unsigned short. -/
def mkRing (α : Type*) (size : Nat) (threads : Nat) : Ring α where
  data := fun _ => none
  head := 0
  tail := 0
  -- At most one less than an index can say, because there is always an empty element.
  nelements := (if 65535 ≤ size then size - 1 else size) % 65536
  pfd := 0
  rgate := none
  inserter := .idle
  extractors := List.replicate threads .idle
  extracted := []

/-- An index after it was advanced. -/
def next (ring : Ring α) (index : Nat) : Nat := if ring.nelements ≤ index + 1 then 0 else index + 1

/-- There is no room for another element. -/
def isFull (ring : Ring α) : Prop :=
  ring.head + 1 = ring.tail ∨ ring.nelements ≤ ring.head + 1 ∧ ring.tail = 0

instance decidableIsFull (ring : Ring α) : Decidable ring.isFull :=
  inferInstanceAs (Decidable (_ ∨ _))

/-- The ring with an extracting thread at another place. -/
def goTo (ring : Ring α) (thread : Nat) (pc : ExtractPc) : Ring α :=
  { ring with extractors := ring.extractors.set thread pc }

/-- The thread that inserts goes on. -/
def insertOn (ring : Ring α) : Ring α :=
  match ring.inserter with
  | .idle => ring
  | .store newData =>
    { ring with data := Function.update ring.data ring.head (some newData), inserter := .advance }
  | .advance => { ring with head := ring.next ring.head, inserter := .write }
  | .write =>
    -- A counter that can get no larger is left as it is.
    { ring with pfd := if ring.pfd < eventfdMax then ring.pfd + 1 else ring.pfd, inserter := .idle }

/-- A thread that extracts goes on from where it is. -/
def extractOn (ring : Ring α) (thread : Nat) : ExtractPc → Ring α
  | .idle => ring
  | .lock =>
    if ring.rgate = none then { ring with rgate := some thread }.goTo thread .recheck else ring
  | .recheck =>
    if ring.tail = ring.head then { ring with rgate := none }.goTo thread .idle
    else ring.goTo thread .advance
  | .advance => { ring with tail := ring.next ring.tail }.goTo thread (.read ring.tail)
  -- With the counter at zero the read fails, which nobody looks at.
  | .read ti => { ring with pfd := ring.pfd - 1 }.goTo thread (.take ti)
  | .take ti =>
    { ring with
      data := Function.update ring.data ti none
      extracted := ring.extracted ++ [ring.data ti] }.goTo thread .unlock
  | .unlock => { ring with rgate := none }.goTo thread .idle

/-- One event. -/
def step (ring : Ring α) : RingEvent α → Ring α
  | .insert newData =>
    match ring.inserter with
    | .idle => if ring.isFull then ring else { ring with inserter := .store newData }
    | _ => ring
  | .inserter => ring.insertOn
  | .extract thread =>
    if ring.extractors[thread]? = some .idle ∧ ring.tail ≠ ring.head then ring.goTo thread .lock
    else ring
  | .extractor thread =>
    match ring.extractors[thread]? with
    | some pc => ring.extractOn thread pc
    | none => ring

/-- Events one after the other, on a ring that was just made. -/
def run (α : Type*) (size threads : Nat) (events : List (RingEvent α)) : Ring α :=
  events.foldl step (mkRing α size threads)

end Ring

end Rmr
