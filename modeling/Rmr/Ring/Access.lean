import Rmr.Ring.Ring

/-! The ring with every access to its indices and slots as a step of its own. -/

namespace Rmr

/-- The next access of the one thread that inserts, without a lock. -/
inductive InsertAt (α : Type*) where
  | idle
  /-- Read the head, for the first test of a full ring. -/
  | fullHead (newData : α)
  /-- Read the tail, which the first test compares with it. -/
  | fullTail (newData : α) (head : Nat)
  /-- Read the head, for the second test. -/
  | endHead (newData : α)
  /-- Read the tail, for the second test. -/
  | endTail (newData : α)
  /-- Read the head, for the slot to fill. -/
  | slotHead (newData : α)
  | store (newData : α) (head : Nat)
  /-- Read the head that is to be advanced. -/
  | readHead
  | advance (head : Nat)
  /-- Read the head, for the test of the end of the slots. -/
  | testHead
  | wrap
  deriving DecidableEq

/-- The next access of a thread that extracts. -/
inductive ExtractAt where
  | idle
  /-- Read the head; the tail was read. -/
  | quickHead (tail : Nat)
  | lock
  /-- Ensure that the ring did not go empty while waiting: read the tail. -/
  | againTail
  /-- Read the head; the tail was read. -/
  | againHead (tail : Nat)
  /-- Read the tail, which is the slot to empty. -/
  | slotTail
  /-- Read the tail that is to be advanced. -/
  | readTail (ti : Nat)
  | advance (ti tail : Nat)
  /-- Read the tail, for the test of the end of the slots. -/
  | testTail (ti : Nat)
  | wrap (ti : Nat)
  /-- Secure the pointer. -/
  | take (ti : Nat)
  /-- Clear it in the ring. -/
  | clear (ti : Nat)
  | unlock
  deriving DecidableEq

/-- `ring_t` with a read lock and no write lock, and the threads that use it. -/
structure AccessRing (α : Type*) where
  data : Nat → Option α
  head : Nat
  tail : Nat
  nelements : Nat
  /-- `rgate`: the thread that has the read lock. -/
  rgate : Option Nat
  inserter : InsertAt α
  extractors : List ExtractAt
  /-- The pointers that were put into slots, the oldest first. The code keeps no such list. -/
  inserted : List α
  /-- The pointers that were taken out of slots, likewise. -/
  extracted : List (Option α)

namespace AccessRing
variable {α : Type*}

/-- `uta_mk_ring`. -/
def mkRing (α : Type*) (size threads : Nat) : AccessRing α where
  data := fun _ => none
  head := 0
  tail := 0
  nelements := (Ring.mkRing α size threads).nelements
  rgate := none
  inserter := .idle
  extractors := List.replicate threads .idle
  inserted := []
  extracted := []

/-- The ring with an extracting thread at another place. -/
def goTo (ring : AccessRing α) (thread : Nat) (pc : ExtractAt) : AccessRing α :=
  { ring with extractors := ring.extractors.set thread pc }

/-- The thread that inserts goes on. -/
def insertOn (ring : AccessRing α) : AccessRing α :=
  match ring.inserter with
  | .idle => ring
  | .fullHead newData => { ring with inserter := .fullTail newData ring.head }
  | .fullTail newData head =>
    { ring with inserter := if head + 1 = ring.tail then .idle else .endHead newData }
  | .endHead newData =>
    { ring with
      inserter := if ring.nelements ≤ ring.head + 1 then .endTail newData else .slotHead newData }
  | .endTail newData =>
    { ring with inserter := if ring.tail = 0 then .idle else .slotHead newData }
  | .slotHead newData => { ring with inserter := .store newData ring.head }
  | .store newData head =>
    { ring with
      data := Function.update ring.data head (some newData)
      inserter := .readHead
      inserted := ring.inserted ++ [newData] }
  | .readHead => { ring with inserter := .advance ring.head }
  -- An index is an unsigned short.
  | .advance head => { ring with head := (head + 1) % 65536, inserter := .testHead }
  | .testHead =>
    { ring with inserter := if ring.nelements ≤ ring.head then .wrap else .idle }
  | .wrap => { ring with head := 0, inserter := .idle }

/-- A thread that extracts goes on from where it is. -/
def extractOn (ring : AccessRing α) (thread : Nat) : ExtractAt → AccessRing α
  | .idle => ring
  | .quickHead tail => ring.goTo thread (if tail = ring.head then .idle else .lock)
  | .lock =>
    if ring.rgate = none then { ring with rgate := some thread }.goTo thread .againTail else ring
  | .againTail => ring.goTo thread (.againHead ring.tail)
  | .againHead tail => ring.goTo thread (if tail = ring.head then .unlock else .slotTail)
  | .slotTail => ring.goTo thread (.readTail ring.tail)
  | .readTail ti => ring.goTo thread (.advance ti ring.tail)
  | .advance ti tail => { ring with tail := (tail + 1) % 65536 }.goTo thread (.testTail ti)
  | .testTail ti =>
    ring.goTo thread (if ring.nelements ≤ ring.tail then .wrap ti else .take ti)
  | .wrap ti => { ring with tail := 0 }.goTo thread (.take ti)
  | .take ti =>
    { ring with extracted := ring.extracted ++ [ring.data ti] }.goTo thread (.clear ti)
  | .clear ti => { ring with data := Function.update ring.data ti none }.goTo thread .unlock
  | .unlock => { ring with rgate := none }.goTo thread .idle

/-- One event: a call, or the next access of a thread. -/
def step (ring : AccessRing α) : RingEvent α → AccessRing α
  | .insert newData =>
    match ring.inserter with
    | .idle => { ring with inserter := .fullHead newData }
    | _ => ring
  | .inserter => ring.insertOn
  | .extract thread =>
    if ring.extractors[thread]? = some .idle then ring.goTo thread (.quickHead ring.tail) else ring
  | .extractor thread =>
    match ring.extractors[thread]? with
    | some pc => ring.extractOn thread pc
    | none => ring

/-- Events one after the other, on a ring that was just made. -/
def run (α : Type*) (size threads : Nat) (events : List (RingEvent α)) : AccessRing α :=
  events.foldl step (mkRing α size threads)

/-- The pointers that were extracted. -/
def pointers (ring : AccessRing α) : List α := ring.extracted.filterMap id

/-- How many elements the indices denote. An index that was advanced past the slots and not yet set
back stands for the first slot. -/
def denoted (ring : AccessRing α) : Nat :=
  let head := if ring.nelements ≤ ring.head then 0 else ring.head
  let tail := if ring.nelements ≤ ring.tail then 0 else ring.tail
  if tail ≤ head then head - tail else head + ring.nelements - tail

/-- The slot that an access picks. -/
def picks (ring : AccessRing α) : RingEvent α → Option Nat
  | .inserter =>
    match ring.inserter with
    | .store _ head => some head
    | _ => none
  | .extractor thread =>
    match ring.extractors[thread]? with
    | some (.take ti) => some ti
    | some (.clear ti) => some ti
    | _ => none
  | _ => none

/-- What the ring is for. -/
structure Linear (ring : AccessRing α) : Prop where
  /-- No pointer is lost, extracted twice or out of order. -/
  order : ring.pointers <+: ring.inserted
  count : ring.denoted + ring.pointers.length ≤ ring.inserted.length
  slots : ∀ event index, ring.picks event = some index → index < ring.nelements

/-- The condition for an event: the head that a thread with the lock compares is not one that was
advanced past the slots and not yet set back, if the tail is the first slot. -/
def Apart (ring : AccessRing α) : RingEvent α → Prop
  | .extractor thread =>
    ring.extractors[thread]? = some (.againHead 0) → ring.head ≠ ring.nelements
  | _ => True

instance decidableApart (ring : AccessRing α) : (event : RingEvent α) → Decidable (ring.Apart event)
  | .extractor _ => inferInstanceAs (Decidable (_ → _))
  | .insert _ | .inserter | .extract _ => isTrue trivial

end AccessRing

end Rmr
