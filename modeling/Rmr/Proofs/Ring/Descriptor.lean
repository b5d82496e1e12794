import Rmr.Lib.Run
import Rmr.Lib.Threads
import Rmr.Ring.Ring

/-! The counter of the descriptor is the number of elements, if no element is extracted before it
was counted. -/

namespace Rmr

/-- A thread that has the read lock. -/
def ExtractPc.gated : ExtractPc → Bool
  | .idle | .lock => false
  | .recheck | .advance | .read _ | .take _ | .unlock => true

/-- A thread that has advanced the tail and not yet read the descriptor. -/
def ExtractPc.reading : ExtractPc → Bool
  | .read _ => true
  | _ => false

namespace Ring
variable {α : Type*} {ring : Ring α}

/-- How many elements there are. -/
def held (ring : Ring α) : Nat :=
  if ring.tail ≤ ring.head then ring.head - ring.tail
  else ring.nelements - ring.tail + ring.head

/-- An element that was added and not yet counted. -/
def writing (ring : Ring α) : Nat :=
  match ring.inserter with
  | .write => 1
  | _ => 0

/-- There was room for the element that is being added. -/
def filling (ring : Ring α) : Prop :=
  match ring.inserter with
  | .store _ => True
  | .advance => True
  | _ => False

/-- Nobody is in the middle of anything. -/
def Quiet (ring : Ring α) : Prop := ring.inserter = .idle ∧ ∀ pc ∈ ring.extractors, pc = .idle

/-- A thread that reads the descriptor finds the counter positive. -/
def Backed (ring : Ring α) (event : RingEvent α) : Prop :=
  match event with
  | .extractor thread => ∀ pc ∈ ring.extractors[thread]?, pc.reading = true → 0 < ring.pfd
  | _ => True

/-- What holds of a ring at all times. -/
structure Inv (ring : Ring α) : Prop where
  small : ring.nelements < 65536
  head : ring.head < max 1 ring.nelements
  tail : ring.tail < max 1 ring.nelements
  room : ring.filling → ring.held + 1 < ring.nelements
  /-- The read lock is held by the thread that is about to extract. -/
  gate : ∀ thread pc, ring.extractors[thread]? = some pc → pc.gated = true →
    ring.rgate = some thread
  /-- The tail is advanced over an element only. -/
  ready : ∀ (thread : Nat) pc, ring.extractors[thread]? = some pc → pc = .advance → 0 < ring.held
  counted : ring.pfd + ring.writing = ring.held + ring.extractors.countP ExtractPc.reading

/-- A ring that was just made is empty. -/
theorem mkRing_inv (size threads : Nat) : (mkRing α size threads).Inv := by
  -- All threads are idle.
  have idle : ∀ (thread : Nat) (pc : ExtractPc),
      (List.replicate threads ExtractPc.idle)[thread]? = some pc → pc = .idle := by
    intro thread pc is
    exact List.eq_of_mem_replicate (List.mem_of_getElem? is)
  exact {
    small := Nat.mod_lt _ (by decide)
    head := by
      show 0 < max 1 _
      omega
    tail := by
      show 0 < max 1 _
      omega
    room := fun filling => filling.elim
    gate := by
      intro thread pc is gated
      rw [idle thread pc is] at gated
      cases gated
    ready := by
      intro thread pc is advance
      rw [idle thread pc is] at advance
      cases advance
    counted := by
      show 0 + 0 = (mkRing α size threads).held +
        (List.replicate threads ExtractPc.idle).countP ExtractPc.reading
      rw [List.countP_replicate]
      rfl }

/-- The head was advanced where there was room: there is one element more. -/
theorem held_advance_head (next : Ring α) (head : ring.head < max 1 ring.nelements)
    (tail : ring.tail < max 1 ring.nelements) (room : ring.held + 1 < ring.nelements)
    (nelements : next.nelements = ring.nelements) (headIs : next.head = ring.next ring.head)
    (tailIs : next.tail = ring.tail) :
    next.held = ring.held + 1 ∧ next.head < max 1 next.nelements := by
  -- The head is in front of the tail, or behind it; both may wrap by the step.
  unfold held at room ⊢
  rw [headIs, tailIs, nelements, Ring.next]
  split at room
  all_goals
    split
    all_goals
      constructor
      · split <;> omega
      · omega

/-- The tail was advanced over an element: there is one element less. -/
theorem held_advance_tail (next : Ring α) (head : ring.head < max 1 ring.nelements)
    (tail : ring.tail < max 1 ring.nelements) (some_ : 0 < ring.held)
    (nelements : next.nelements = ring.nelements) (tailIs : next.tail = ring.next ring.tail)
    (headIs : next.head = ring.head) :
    next.held + 1 = ring.held ∧ next.tail < max 1 next.nelements := by
  -- The head is in front of the tail, or behind it; both may wrap by the step.
  unfold held at some_ ⊢
  rw [headIs, tailIs, nelements, Ring.next]
  split at some_
  all_goals
    split
    all_goals
      constructor
      · split <;> omega
      · omega

/-- An empty ring is one whose indexes are the same. -/
theorem held_pos (head : ring.head < max 1 ring.nelements)
    (tail : ring.tail < max 1 ring.nelements) :
    0 < ring.held ↔ ring.tail ≠ ring.head := by
  unfold held
  split <;> omega

/-- A ring that is not full has room for one more, and is not empty after that. -/
theorem room_of_not_full (head : ring.head < max 1 ring.nelements)
    (tail : ring.tail < max 1 ring.nelements) (room : ¬ ring.isFull) :
    ring.held + 1 < ring.nelements := by
  -- By whether the head has wrapped around.
  unfold isFull at room
  unfold held
  split <;> omega

/-- One thread at most is about to read the descriptor. -/
theorem Inv.reading_le_one (inv : ring.Inv) : ring.extractors.countP ExtractPc.reading ≤ 1 := by
  -- A thread that reads has the read lock, which is one thread's only.
  have gated : ∀ pc : ExtractPc, pc.reading = true → pc.gated = true := by
    intro pc reading
    cases pc with
    | read ti => rfl
    | _ => cases reading
  refine countP_le_one fun one other pc next is reads also too => ?_
  have mine := inv.gate one pc is (gated pc reads)
  have its := inv.gate other next also (gated next too)
  rw [mine] at its
  exact Option.some.inj its

/-- There are fewer elements than the ring has places. -/
theorem held_lt (head : ring.head < max 1 ring.nelements) : ring.held < max 1 ring.nelements := by
  unfold held
  split <;> omega

/-- The thread that inserts keeps what holds of the ring. -/
theorem Inv.insertOn (inv : ring.Inv) : ring.insertOn.Inv := by
  have counted := inv.counted
  unfold Ring.insertOn
  cases pc : ring.inserter with
  | idle => exact inv
  | store newData =>
    have filling : ring.filling := by rw [Ring.filling, pc]; trivial
    have nothing : ring.writing = 0 := by rw [writing, pc]
    rw [nothing] at counted
    exact ⟨inv.small, inv.head, inv.tail, fun _ => inv.room filling, inv.gate, inv.ready, counted⟩
  | advance =>
    -- The element is there from now on, and is yet to be counted.
    have filling : ring.filling := by rw [Ring.filling, pc]; trivial
    have nothing : ring.writing = 0 := by rw [writing, pc]
    rw [nothing] at counted
    obtain ⟨more, head⟩ :=
      held_advance_head { ring with head := ring.next ring.head, inserter := .write }
      inv.head inv.tail (inv.room filling) rfl rfl rfl
    refine ⟨inv.small, head, inv.tail, fun filling => filling.elim, inv.gate, ?_, ?_⟩
    · intro thread pc is advance
      have := inv.ready thread pc is advance
      rw [more]
      omega
    · rw [more]
      show ring.pfd + 1 = ring.held + 1 + ring.extractors.countP ExtractPc.reading
      omega
  | write =>
    have one_ : ring.writing = 1 := by rw [writing, pc]
    rw [one_] at counted
    -- The counter is nowhere near the largest one.
    have small := inv.small
    have few := held_lt inv.head
    have one := inv.reading_le_one
    have low : ring.pfd < eventfdMax := by
      simp only [eventfdMax]
      omega
    refine ⟨inv.small, inv.head, inv.tail, fun filling => filling.elim, inv.gate, inv.ready, ?_⟩
    show (if ring.pfd < eventfdMax then ring.pfd + 1 else ring.pfd) + 0 =
      ring.held + ring.extractors.countP ExtractPc.reading
    rw [if_pos low]
    exact counted

/-- Only one thread has the read lock. -/
theorem Inv.alone (inv : ring.Inv) {thread other : Nat} {pc otherPc : ExtractPc}
    (at_ : ring.extractors[thread]? = some pc) (gated : pc.gated = true)
    (is : ring.extractors[other]? = some otherPc) (also : otherPc.gated = true) :
    other = thread := by
  -- Whoever passed the gate is the one that has it.
  have mine := inv.gate thread pc at_ gated
  rw [inv.gate other otherPc is also] at mine
  exact Option.some.inj mine

/-- What a step of an extracting thread leaves as it was, and what holds after it. -/
structure Moves (ring next : Ring α) (thread : Nat) (pc nextPc : ExtractPc) : Prop where
  at_ : ring.extractors[thread]? = some pc
  extractors : next.extractors = ring.extractors.set thread nextPc
  nelements : next.nelements = ring.nelements
  head : next.head = ring.head
  inserter : next.inserter = ring.inserter
  tail : next.tail < max 1 next.nelements
  /-- Only elements are taken. -/
  fewer : next.held ≤ ring.held
  /-- Nobody else is about to extract where the lock is got or the ring is changed. -/
  away : next.rgate = ring.rgate ∧ next.held = ring.held ∨ ring.rgate = none ∨ pc.gated = true
  gate : nextPc.gated = true → next.rgate = some thread
  ready : nextPc = .advance → 0 < next.held
  counted : next.pfd + ring.held + (if pc.reading then 1 else 0) =
    ring.pfd + next.held + (if nextPc.reading then 1 else 0)

/-- Such a step keeps what holds of the ring. -/
theorem Inv.moves (inv : ring.Inv) (next : Ring α) {thread : Nat} {pc nextPc : ExtractPc}
    (moves : Moves ring next thread pc nextPc) : next.Inv := by
  obtain ⟨at_, extractors, nelements, head, inserter, tail, fewer, away, gate, ready, counted⟩ :=
    moves
  -- Where something was changed, no other thread has the lock.
  have others : ∀ other otherPc, other ≠ thread → ring.extractors[other]? = some otherPc →
      otherPc.gated = true → next.rgate = some other ∧ next.held = ring.held := by
    intro other otherPc differs is gated
    have its := inv.gate other otherPc is gated
    rcases away with ⟨same, held⟩ | free | mine
    · exact ⟨same.trans its, held⟩
    · rw [free] at its
      cases its
    · exact absurd (inv.alone at_ mine is gated) differs
  refine ⟨nelements ▸ inv.small, by rw [head, nelements]; exact inv.head, tail, ?_, ?_, ?_, ?_⟩
  · intro filling
    have filling : ring.filling := by
      rw [Ring.filling, inserter] at filling
      exact filling
    have room := inv.room filling
    rw [nelements]
    omega
  · rw [extractors]
    exact forall_moved (fun other pc => pc.gated = true → next.rgate = some other) at_
      (fun other otherPc differs is gated => (others other otherPc differs is gated).1) gate
  · rw [extractors]
    refine forall_moved (fun _ pc => pc = .advance → 0 < next.held) at_ ?_ ready
    intro other otherPc differs is advance
    rw [(others other otherPc differs is (by rw [advance]; rfl)).2]
    exact inv.ready other otherPc is advance
  · have before := inv.counted
    have moved := countP_moved nextPc at_ ExtractPc.reading
    have same : next.writing = ring.writing := by rw [writing, writing, inserter]
    rw [same, extractors]
    omega

/-- A thread that extracts keeps what holds of the ring, if it finds the counter positive when it
reads the descriptor. -/
theorem Inv.extractOn (inv : ring.Inv) {thread : Nat} {pc : ExtractPc}
    (at_ : ring.extractors[thread]? = some pc) (backed : pc.reading = true → 0 < ring.pfd) :
    (ring.extractOn thread pc).Inv := by
  cases pc with
  | idle => exact inv
  | lock =>
    by_cases free : ring.rgate = none
    · rw [Ring.extractOn, if_pos free]
      exact inv.moves _ ⟨at_, rfl, rfl, rfl, rfl, inv.tail, le_rfl, .inr (.inl free), fun _ => rfl,
        nofun, rfl⟩
    · rw [Ring.extractOn, if_neg free]
      exact inv
  | recheck =>
    have mine := inv.gate thread .recheck at_ rfl
    by_cases empty : ring.tail = ring.head
    · rw [Ring.extractOn, if_pos empty]
      exact inv.moves _ ⟨at_, rfl, rfl, rfl, rfl, inv.tail, le_rfl, .inr (.inr rfl),
        nofun, nofun, rfl⟩
    · rw [Ring.extractOn, if_neg empty]
      exact inv.moves _ ⟨at_, rfl, rfl, rfl, rfl, inv.tail, le_rfl, .inr (.inr rfl), fun _ => mine,
        fun _ => (held_pos inv.head inv.tail).mpr empty, rfl⟩
  | advance =>
    -- There is an element less, which has yet to be taken from the counter.
    have mine := inv.gate thread .advance at_ rfl
    have some_ := inv.ready thread .advance at_ rfl
    obtain ⟨less, tail⟩ :=
      held_advance_tail (ring.extractOn thread .advance) inv.head inv.tail some_
      rfl rfl rfl
    refine inv.moves _ ⟨at_, rfl, rfl, rfl, rfl, tail, by omega, .inr (.inr rfl),
      fun _ => mine, nofun, ?_⟩
    show ring.pfd + ring.held + 0 = ring.pfd + (ring.extractOn thread .advance).held + 1
    omega
  | read ti =>
    have mine := inv.gate thread (.read ti) at_ rfl
    have positive := backed rfl
    refine inv.moves _ ⟨at_, rfl, rfl, rfl, rfl, inv.tail, le_rfl, .inr (.inr rfl),
      fun _ => mine, nofun,
      ?_⟩
    show ring.pfd - 1 + ring.held + 1 = ring.pfd + ring.held + 0
    omega
  | take ti =>
    have mine := inv.gate thread (.take ti) at_ rfl
    exact inv.moves _ ⟨at_, rfl, rfl, rfl, rfl, inv.tail, le_rfl, .inr (.inr rfl),
      fun _ => mine, nofun,
      rfl⟩
  | unlock =>
    exact inv.moves _ ⟨at_, rfl, rfl, rfl, rfl, inv.tail, le_rfl, .inr (.inr rfl),
      nofun, nofun, rfl⟩

/-- Every event keeps what holds of the ring, if the descriptor is only read with its counter
positive. -/
theorem Inv.step (inv : ring.Inv) {event : RingEvent α} (backed : ring.Backed event) :
    (ring.step event).Inv := by
  cases event with
  | insert newData =>
    unfold Ring.step
    dsimp only
    split
    · rename_i idle
      split
      · exact inv
      · -- The element will go to a place that is free.
        rename_i room
        have counted := inv.counted
        have nothing : ring.writing = 0 := by rw [writing, idle]
        rw [nothing] at counted
        exact ⟨inv.small, inv.head, inv.tail,
          fun _ => room_of_not_full inv.head inv.tail room, inv.gate,
          inv.ready, counted⟩
    · exact inv
  | inserter => exact inv.insertOn
  | extract thread =>
    unfold Ring.step
    dsimp only
    split
    · rename_i starts
      exact inv.moves _ ⟨starts.1, rfl, rfl, rfl, rfl, inv.tail, le_rfl, .inl ⟨rfl, rfl⟩,
        nofun, nofun,
        rfl⟩
    · exact inv
  | extractor thread =>
    unfold Ring.step
    dsimp only
    split
    · rename_i pc at_
      exact inv.extractOn at_ (backed pc at_)
    · exact inv

/-- In every interleaving of one thread that inserts with any number of threads that extract, as
long as the descriptor is only read with its counter positive, the counter is the number of elements
whenever nobody is in the middle of anything. -/
theorem run_pollable (α : Type*) (size threads : Nat) (events : List (RingEvent α))
    (backed : Throughout step Backed (mkRing α size threads) events)
    (quiet : (run α size threads events).Quiet) :
    (run α size threads events).pfd = (run α size threads events).held ∧
      (0 < (run α size threads events).pfd ↔
        (run α size threads events).tail ≠ (run α size threads events).head) := by
  -- Nobody is writing or reading, so that the count of the invariant is that of the elements.
  have inv : (run α size threads events).Inv :=
    backed.keeps (fun inv backed => inv.step backed) (mkRing_inv size threads)
  have counted := inv.counted
  have nothing : (run α size threads events).writing = 0 := by rw [writing, quiet.1]
  have nobody : (run α size threads events).extractors.countP ExtractPc.reading = 0 := by
    rw [List.countP_eq_zero]
    intro pc among
    rw [quiet.2 pc among]
    exact Bool.false_ne_true
  rw [nothing, nobody] at counted
  have same : (run α size threads events).pfd = (run α size threads events).held := counted
  exact ⟨same, by rw [same]; exact held_pos inv.head inv.tail⟩

instance decidableBacked (ring : Ring α) : (event : RingEvent α) → Decidable (ring.Backed event)
  | .insert _ => .isTrue trivial
  | .inserter => .isTrue trivial
  | .extract _ => .isTrue trivial
  | .extractor thread =>
    inferInstanceAs (Decidable (∀ pc ∈ ring.extractors[thread]?, pc.reading = true → 0 < ring.pfd))

/-- An element goes in, with all that belongs to it. -/
def putIn (newData : α) : List (RingEvent α) := [.insert newData, .inserter, .inserter, .inserter]

/-- An element is extracted by a thread, with all that belongs to it. -/
def takeOut (thread : Nat) : List (RingEvent α) :=
  .extract thread :: List.replicate 6 (.extractor thread)

/-- Two elements go in, one comes out, and the counter tells of the other. -/
theorem run_pollable_two :
    Throughout step Backed (mkRing Nat 4096 2) (putIn 7 ++ putIn 8 ++ takeOut 1) ∧
      (run Nat 4096 2 (putIn 7 ++ putIn 8 ++ takeOut 1)).pfd =
        (run Nat 4096 2 (putIn 7 ++ putIn 8 ++ takeOut 1)).held ∧
      (0 < (run Nat 4096 2 (putIn 7 ++ putIn 8 ++ takeOut 1)).pfd ↔
        (run Nat 4096 2 (putIn 7 ++ putIn 8 ++ takeOut 1)).tail ≠
          (run Nat 4096 2 (putIn 7 ++ putIn 8 ++ takeOut 1)).head) := by
  have backed : Throughout step Backed (mkRing Nat 4096 2) (putIn 7 ++ putIn 8 ++ takeOut 1) := by
    decide +kernel
  exact ⟨backed, run_pollable Nat 4096 2 _ backed ⟨rfl, by decide +kernel⟩⟩

/-- An element is extracted after it was added and before it was counted: the descriptor stays ready
for a ring that is empty. -/
theorem ready_but_empty :
    ¬ ((run Nat 4096 1 ([.insert 7, .inserter, .inserter] ++ takeOut 0 ++ [.inserter])).Quiet →
      (run Nat 4096 1 ([.insert 7, .inserter, .inserter] ++ takeOut 0 ++ [.inserter])).pfd =
        (run Nat 4096 1 ([.insert 7, .inserter, .inserter] ++ takeOut 0 ++ [.inserter])).held) := by
  -- The ring is quiet and the count is one, with no element in it.
  intro counted
  have same := counted ⟨rfl, by decide +kernel⟩
  exact absurd same (by decide +kernel)

end Ring

end Rmr
