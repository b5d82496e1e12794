import Rmr.Lib.Bounded
import Rmr.Lib.CInt
import Rmr.Lib.Circular
import Rmr.Ring.Ring

/-! The ring as calls use it that come one at a time. -/

namespace Rmr

/-- A mutex that need not be there, and whether it is locked. -/
abbrev Mutex := Option Bool

namespace Mutex

/-- `pthread_mutex_lock` of a mutex that is there. With calls one at a time nobody would unlock it.
-/
def lock : Mutex → Except Fault Mutex
  | none => .ok none
  | some false => .ok (some true)
  | some true => .error .spin

/-- `pthread_mutex_unlock` of a mutex that is there. -/
def unlock : Mutex → Mutex
  | none => none
  | some _ => some false

end Mutex

/-- `ring_t`. -/
structure RingT (α : Type) where
  head : Nat
  tail : Nat
  nelements : Nat
  data : Nat → Option α
  /-- The counter of the eventfd, which is in semaphore mode and does not block. -/
  pfd : Nat
  /-- `RING_FL_FLOCK`: a lock is tried for once. -/
  flock : Bool
  rgate : Mutex
  wgate : Mutex

/-- What `uta_ring_insert` returns: 1, or 0 with `errno`. -/
inductive InsertRc where
  | ok
  | exfull
  deriving DecidableEq

/-- `uta_mk_ring`, which gets the memory and the descriptor that it asks for. -/
def utaMkRing (α : Type) (size : Int) : Option (RingT α) :=
  if size ≤ 0 then none
  else
    let max : Int := 65535
    let size := if max ≤ size then size - 1 else size
    some {
      head := 0
      tail := 0
      nelements := (size % 65536).toNat
      data := fun _ => none
      pfd := 0
      flock := false
      rgate := none
      wgate := none }

namespace RingT
variable {α : Type}

/-- `uta_ring_config`, which gets the memory that it asks for. -/
def utaRingConfig (r : RingT α) (options : Nat) : RingT α :=
  let wlock := options.testBit 1
  let rlock := options.testBit 0
  let frlock := options.testBit 2
  let r := if wlock ∧ r.wgate = none then { r with wgate := some false } else r
  if rlock ∨ frlock then
    let r := if r.rgate = none then { r with rgate := some false } else r
    if frlock then { r with flock := true } else r
  else r

/-- There is no room. -/
def isFull (r : RingT α) : Prop :=
  r.head + 1 = r.tail ∨ r.nelements ≤ r.head + 1 ∧ r.tail = 0

instance decidableIsFull (r : RingT α) : Decidable r.isFull :=
  inferInstanceAs (Decidable (_ ∨ _))

/-- `uta_ring_insert`, of a pointer that is not nil. -/
def utaRingInsert (r : RingT α) (newData : α) : Except Fault (RingT α × InsertRc) := do
  let r := { r with wgate := ← r.wgate.lock }
  if r.isFull then return ({ r with wgate := r.wgate.unlock }, .exfull)
  let r := { r with data := Function.update r.data r.head (some newData) }
  -- An index is an unsigned short.
  let r := { r with head := (r.head + 1) % 65536 }
  let r := if r.nelements ≤ r.head then { r with head := 0 } else r
  let r := { r with pfd := if r.pfd < eventfdMax then r.pfd + 1 else r.pfd }
  return ({ r with wgate := r.wgate.unlock }, .ok)

/-- The part of `uta_ring_extract` that takes the element at the tail, with the lock if there is
one. -/
def extractTail (r : RingT α) : RingT α × Option α :=
  let ti := r.tail
  let r := { r with tail := (r.tail + 1) % 65536 }
  let r := if r.nelements ≤ r.tail then { r with tail := 0 } else r
  let r := { r with pfd := r.pfd - 1 }
  let data := r.data ti
  let r := { r with data := Function.update r.data ti none }
  ({ r with rgate := r.rgate.unlock }, data)

/-- `uta_ring_extract`. -/
def utaRingExtract (r : RingT α) : Except Fault (RingT α × Option α) := do
  if r.tail = r.head then return (r, none)
  -- A fast lock is tried for once.
  if r.flock ∧ r.rgate = some true then return (r, none)
  let r := { r with rgate := ← r.rgate.lock }
  if r.rgate ≠ none ∧ r.tail = r.head then return ({ r with rgate := r.rgate.unlock }, none)
  return r.extractTail

/-- A call, and what it answers. -/
def call (r : RingT α) : QueueCall α → Except Fault (RingT α × QueueAnswer α)
  | .insert newData => do
    match ← r.utaRingInsert newData with
    | (r, .ok) => return (r, .inserted)
    | (r, .exfull) => return (r, .full)
  | .extract => do
    let (r, data) ← r.utaRingExtract
    return (r, .extracted data)

/-- A ring whose elements are those of a queue. -/
structure Queues (r : RingT α) (queue : List α) : Prop where
  positive : 1 ≤ r.nelements
  small : r.nelements ≤ 65535
  tail : r.tail < r.nelements
  /-- The head is behind the last element. -/
  head : r.head = turn r.nelements (r.tail + queue.length)
  room : queue.length < r.nelements
  laid : Laid r.data r.nelements r.tail queue
  pfd : r.pfd = queue.length
  rgate : r.rgate ≠ some true
  wgate : r.wgate ≠ some true

end RingT

/-- The ring that a call finds which comes while no other thread is in one. -/
def Ring.alone {α : Type} (ring : Ring α) : RingT α where
  head := ring.head
  tail := ring.tail
  nelements := ring.nelements
  data := ring.data
  pfd := ring.pfd
  flock := false
  rgate := some ring.rgate.isSome
  wgate := none

end Rmr
