import Rmr.Ring.Calls

/-! The ring answers calls as a queue of bounded length does. -/

namespace Rmr

namespace RingT
variable {α : Type} {r next : RingT α} {queue rest : List α} {item : α}

/-- A ring that was just made has at least one element, and as many as an index can tell apart. -/
theorem nelements_utaMkRing {size : Int} (some_ : 1 ≤ size) (most : size ≤ 65536) :
    ∃ r, utaMkRing α size = some r ∧
      (r.nelements : Int) = (if 65535 ≤ size then size - 1 else size) ∧ r.Queues [] := by
  -- The count of elements is one of 16 bits, which the size is cut to.
  unfold utaMkRing
  rw [if_neg (by omega)]
  refine ⟨_, rfl, ?_, ?_⟩
  · simp only
    split <;> omega
  · have positive : 1 ≤ ((if (65535 : Int) ≤ size then size - 1 else size) % 65536).toNat := by
      split <;> omega
    have small : ((if (65535 : Int) ≤ size then size - 1 else size) % 65536).toNat ≤ 65535 := by
      omega
    exact ⟨positive, small, positive, (turn_of_lt positive).symm, positive, laid_nil, rfl, nofun,
      nofun⟩

/-- Locks that are free make no difference to the elements. -/
theorem Queues.gates (queues : r.Queues queue) {rgate wgate : Mutex} (flock : Bool)
    (reading : rgate ≠ some true) (writing : wgate ≠ some true) :
    { r with rgate := rgate, wgate := wgate, flock := flock }.Queues queue :=
  ⟨queues.positive, queues.small, queues.tail, queues.head, queues.room, queues.laid, queues.pfd,
    reading, writing⟩

/-- Options only add locks, which are free. -/
theorem utaRingConfig_eq (r : RingT α) (options : Nat) : ∃ rgate wgate flock,
    r.utaRingConfig options = { r with rgate := rgate, wgate := wgate, flock := flock } ∧
      (r.rgate ≠ some true → rgate ≠ some true) ∧ (r.wgate ≠ some true → wgate ≠ some true) := by
  -- A lock is added where there was none, and is not held.
  have added : ∀ (mutex : Mutex) (ask : Prop) [Decidable ask], mutex ≠ some true →
      (if ask ∧ mutex = none then some false else mutex) ≠ some true := by
    intro mutex ask _ free
    split
    · simp
    · exact free
  refine ⟨if options.testBit 0 ∨ options.testBit 2 then
      if r.rgate = none then some false else r.rgate else r.rgate,
    if options.testBit 1 ∧ r.wgate = none then some false else r.wgate,
    r.flock || options.testBit 2, ?_, ?_, added r.wgate _⟩
  · obtain ⟨head, tail, nelements, data, pfd, flock, rgate, wgate⟩ := r
    simp only [utaRingConfig]
    cases options.testBit 0 <;> cases options.testBit 1 <;> cases options.testBit 2 <;>
      cases rgate <;> cases wgate <;> simp
  · intro free
    split
    · simpa using added r.rgate True free
    · exact free

/-- Options may be set for a ring. -/
theorem Queues.config (queues : r.Queues queue) (options : Nat) :
    (r.utaRingConfig options).Queues queue ∧
      (r.utaRingConfig options).nelements = r.nelements := by
  obtain ⟨rgate, wgate, flock, configured, reading, writing⟩ := r.utaRingConfig_eq options
  rw [configured]
  exact ⟨queues.gates flock (reading queues.rgate) (writing queues.wgate), rfl⟩

/-- A lock that is not held is got. -/
theorem lock_free {mutex : Mutex} (free : mutex ≠ some true) :
    ∃ held, mutex.lock = .ok held ∧ held.unlock = mutex ∧ (held = none ↔ mutex = none) := by
  -- The cases are those of the mutex: none, one that is free, and one that is held.
  cases mutex with
  | none => exact ⟨none, rfl, rfl, Iff.rfl⟩
  | some held =>
    cases held with
    | false => exact ⟨some true, rfl, rfl, by simp⟩
    | true => exact absurd rfl free

/-- The next index is the place behind one. -/
theorem next_index {index : Nat} (inside : index < r.nelements) (small : r.nelements ≤ 65535) :
    (if r.nelements ≤ (index + 1) % 65536 then 0 else (index + 1) % 65536) =
      turn r.nelements (index + 1) := by
  -- The index wraps where it gets to the size, and never at 16 bits before.
  rw [Nat.mod_eq_of_lt (by omega)]
  unfold turn
  split <;> split <;> omega

/-- The ring is full when there is one free element left. -/
theorem Queues.isFull_iff (queues : r.Queues queue) :
    r.isFull ↔ queue.length = r.nelements - 1 := by
  -- Full is when the head would come to the tail with one more element.
  have tail := queues.tail
  have room := queues.room
  have head := queues.head
  unfold isFull
  unfold turn at head
  split at head <;> omega

/-- The ring is empty when the indices are the same. -/
theorem Queues.empty_iff (queues : r.Queues queue) : r.tail = r.head ↔ queue = [] := by
  -- The head is as many places ahead of the tail as there are elements.
  have tail := queues.tail
  have room := queues.room
  have head := queues.head
  rw [← List.length_eq_zero_iff]
  unfold turn at head
  split at head <;> omega

/-- A ring that is full is left as it is. -/
theorem utaRingInsert_full (free : r.wgate ≠ some true) (full : r.isFull) (newData : α) :
    r.utaRingInsert newData = .ok (r, .exfull) := by
  -- The lock is free, and the ring is still full when it was taken.
  obtain ⟨held, locked, unlocked, -⟩ := lock_free free
  have stillFull : { r with wgate := held }.isFull := full
  simp only [utaRingInsert, locked, Bind.bind, Except.bind, if_pos stillFull, unlocked]
  rfl

/-- An element is put into the slot at the head, which is advanced. -/
theorem utaRingInsert_room (free : r.wgate ≠ some true) (room : ¬ r.isFull)
    (inside : r.head < r.nelements) (small : r.nelements ≤ 65535) (newData : α) :
    r.utaRingInsert newData =
      .ok ({ r with
        data := Function.update r.data r.head (some newData)
        head := turn r.nelements (r.head + 1)
        pfd := if r.pfd < eventfdMax then r.pfd + 1 else r.pfd }, .ok) := by
  -- The slot is written before the head is advanced, with the lock held all the time.
  obtain ⟨held, locked, unlocked, -⟩ := lock_free free
  have stillRoom : ¬ { r with wgate := held }.isFull := room
  simp only [utaRingInsert, locked, Bind.bind, Except.bind, if_neg stillRoom,
    ← next_index inside small]
  split <;> simp only [unlocked] <;> rfl

/-- The element in the slot at the tail is taken, and the tail is advanced. -/
theorem utaRingExtract_some (free : r.rgate ≠ some true) (some_ : r.tail ≠ r.head)
    (inside : r.tail < r.nelements) (small : r.nelements ≤ 65535) :
    r.utaRingExtract =
      .ok ({ r with
        tail := turn r.nelements (r.tail + 1)
        pfd := r.pfd - 1
        data := Function.update r.data r.tail none }, r.data r.tail) := by
  -- The quick tests find nothing, and with the lock held the tail is advanced.
  obtain ⟨held, locked, unlocked, -⟩ := lock_free free
  have quick : ¬ (r.flock = true ∧ r.rgate = some true) := fun both => free both.2
  have still : ¬ (held ≠ none ∧ r.tail = r.head) := fun both => some_ both.2
  simp only [utaRingExtract, if_neg some_, if_neg quick, locked, Bind.bind, Except.bind,
    if_neg still, extractTail, ← next_index inside small]
  split <;> simp only [unlocked] <;> rfl

/-- The head is at a slot. -/
theorem Queues.head_lt (queues : r.Queues queue) : r.head < r.nelements := by
  have tail := queues.tail
  have room := queues.room
  rw [queues.head]
  unfold turn
  split <;> omega

/-- An element is inserted behind the others, as long as there is room. -/
theorem Queues.insert (queues : r.Queues queue) (room : queue.length ≠ r.nelements - 1)
    (newData : α) : ∃ next, r.utaRingInsert newData = .ok (next, .ok) ∧
      next.nelements = r.nelements ∧ next.Queues (queue ++ [newData]) := by
  have free := queues.room
  have tail := queues.tail
  have count := queues.pfd
  have small := queues.small
  refine ⟨_, utaRingInsert_room queues.wgate (mt queues.isFull_iff.mp room) queues.head_lt small
    newData, rfl, ?_⟩
  refine ⟨queues.positive, small, tail, ?_, ?_, ?_, ?_, queues.rgate, queues.wgate⟩
  · simp only
    rw [queues.head, turn_turn tail (by omega), List.length_append, List.length_singleton]
  · simp only [List.length_append, List.length_singleton]
    omega
  · -- The slot at the head is not one of those that the queue is in.
    refine (queues.laid.update (some newData) fun i inside => ?_).push ?_
    · rw [queues.head]
      exact fun same => absurd ((turn_inj (by omega) free).mp same) (by omega)
    · simp only [← queues.head, Function.update_self]
  · have counts : r.pfd < eventfdMax := by
      simp only [eventfdMax]
      omega
    rw [List.length_append, List.length_singleton, ← count]
    exact if_pos counts

/-- The first element is extracted, if there is one. -/
theorem Queues.extract (queues : r.Queues (item :: rest)) : ∃ next,
    r.utaRingExtract = .ok (next, some item) ∧ next.nelements = r.nelements ∧ next.Queues rest := by
  have room := queues.room
  have tail := queues.tail
  have count := queues.pfd
  rw [List.length_cons] at room count
  have some_ : r.tail ≠ r.head := mt queues.empty_iff.mp (List.cons_ne_nil item rest)
  obtain ⟨first, behind⟩ := queues.laid.pop tail (by omega)
  have advanced : turn r.nelements (r.tail + 1) < r.nelements := by
    unfold turn
    split <;> omega
  have taken := utaRingExtract_some queues.rgate some_ tail queues.small
  rw [first] at taken
  refine ⟨_, taken, rfl, ?_⟩
  refine ⟨queues.positive, queues.small, advanced, ?_, ?_, ?_, ?_, queues.rgate, queues.wgate⟩
  · simp only
    rw [queues.head, turn_turn tail (by omega), List.length_cons, Nat.add_comm 1]
  · simp only
    omega
  · -- The slot that was emptied is in front of the rest of the queue.
    refine behind.update none fun i inside same => ?_
    rw [turn_turn tail (by omega)] at same
    have start := turn_of_lt tail
    rw [← Nat.add_zero r.tail] at start
    exact absurd ((turn_inj (by omega) (by omega)).mp (same.trans start.symm)) (by omega)
  · simp only
    omega

/-- A call answers what it does of a queue, and leaves the ring with what the queue has then. -/
theorem Queues.call (queues : r.Queues queue) (input : QueueCall α) :
    ∃ next, r.call input = .ok (next, (Bounded.call (r.nelements - 1) queue input).2) ∧
      next.nelements = r.nelements ∧
      next.Queues (Bounded.call (r.nelements - 1) queue input).1 := by
  -- The two calls, each with its two outcomes: full or not, and empty or not.
  have room := queues.room
  cases input with
  | insert item =>
    by_cases full : queue.length = r.nelements - 1
    · refine ⟨r, ?_, rfl, ?_⟩
      · simp only [RingT.call, utaRingInsert_full queues.wgate (queues.isFull_iff.mpr full),
          Bounded.call, if_neg (show ¬ queue.length < r.nelements - 1 by omega)]
        rfl
      · simpa only [Bounded.call, if_neg (show ¬ queue.length < r.nelements - 1 by omega)]
          using queues
    · obtain ⟨next, inserted, same, onward⟩ := queues.insert full item
      refine ⟨next, ?_, same, ?_⟩
      · simp only [RingT.call, inserted, Bounded.call,
          if_pos (show queue.length < r.nelements - 1 by omega)]
        rfl
      · simpa only [Bounded.call, if_pos (show queue.length < r.nelements - 1 by omega)]
          using onward
  | extract =>
    cases queue with
    | nil =>
      refine ⟨r, ?_, rfl, queues⟩
      simp only [RingT.call, utaRingExtract, if_pos (queues.empty_iff.mpr rfl)]
      rfl
    | cons item rest =>
      obtain ⟨next, extracted, same, onward⟩ := queues.extract
      refine ⟨next, ?_, same, onward⟩
      simp only [RingT.call, extracted]
      rfl

/-- Whatever options are set for a ring, its elements stay. -/
theorem Queues.configs (queues : r.Queues queue) (options : List Nat) :
    (options.foldl utaRingConfig r).Queues queue ∧
      (options.foldl utaRingConfig r).nelements = r.nelements := by
  -- By induction on the options; each of them only adds locks.
  induction options generalizing r with
  | nil => exact ⟨queues, rfl⟩
  | cons first options ih =>
    obtain ⟨configured, same⟩ := queues.config first
    obtain ⟨kept, still⟩ := ih configured
    exact ⟨kept, still.trans same⟩

/-- Calls of any number are answered as a queue answers them. -/
theorem Queues.calls (queues : r.Queues queue) (calls : List (QueueCall α)) :
    ∃ final, answersM RingT.call r calls =
        .ok (final, (answers (Bounded.call (r.nelements - 1)) queue calls).2) ∧
      final.Queues (answers (Bounded.call (r.nelements - 1)) queue calls).1 ∧
      final.nelements = r.nelements := by
  -- The number of elements is part of the invariant, as it is the capacity of the queue.
  let Sized := fun (state : RingT α) (seen : List α) =>
    state.Queues seen ∧ state.nelements = r.nelements
  have keeps : ∀ {state : RingT α} {seen : List α} (input : QueueCall α), Sized state seen →
      ∃ next, state.call input = .ok (next, (Bounded.call (r.nelements - 1) seen input).2) ∧
        Sized next (Bounded.call (r.nelements - 1) seen input).1 := by
    intro state seen input related
    obtain ⟨next, called, same, onward⟩ := related.1.call input
    rw [related.2] at called onward same
    exact ⟨next, called, onward, same⟩
  have related : Sized r queue := ⟨queues, rfl⟩
  exact answersM_simulates keeps calls related

/-- A ring that was just made, and was given locks, answers calls of any number as a queue does that
can have one item less than the ring has elements. -/
theorem utaMkRing_refines {size : Int} (some_ : 1 ≤ size) (most : size ≤ 65536)
    (options : List Nat) (calls : List (QueueCall α)) :
    ∃ made r queue outs, utaMkRing α size = some made ∧
      answersM call (options.foldl utaRingConfig made) calls = .ok (r, outs) ∧
      answers (Bounded.call (made.nelements - 1)) [] calls = (queue, outs) ∧
      (made.nelements : Int) = (if 65535 ≤ size then size - 1 else size) ∧
      r.nelements = made.nelements ∧ r.head < r.nelements ∧ r.tail < r.nelements ∧
      r.pfd = queue.length ∧
      Bounded.accepted calls outs = Bounded.delivered outs ++ queue ∧
      (∀ newData, ∃ next rc, r.utaRingInsert newData = .ok (next, rc) ∧
        (rc = .exfull ↔ queue.length = r.nelements - 1) ∧ (rc = .exfull → next = r)) ∧
      (∃ next data, r.utaRingExtract = .ok (next, data) ∧ data = queue.head? ∧
        (data = none ↔ queue = [])) := by
  -- The ring starts as an empty queue, keeps it with its locks, and answers as that does.
  obtain ⟨made, makes, count, empty⟩ := nelements_utaMkRing (α := α) some_ most
  obtain ⟨configured, still⟩ := empty.configs options
  obtain ⟨r, called, queues, same⟩ := configured.calls calls
  rw [still] at called queues same
  have order := Bounded.delivered_append_queue (made.nelements - 1) calls []
  rw [List.nil_append] at order
  refine ⟨made, r, _, _, makes, called, rfl, count, same, queues.head_lt, queues.tail, queues.pfd,
    order.symm, ?_, ?_⟩
  · intro newData
    by_cases full : r.isFull
    · exact ⟨r, .exfull, utaRingInsert_full queues.wgate full newData,
        iff_of_true rfl (queues.isFull_iff.mp full), fun _ => rfl⟩
    · obtain ⟨next, inserted, -⟩ := queues.insert (mt queues.isFull_iff.mpr full) newData
      exact ⟨next, .ok, inserted, iff_of_false (by decide) (mt queues.isFull_iff.mpr full), nofun⟩
  · generalize (answers (Bounded.call (made.nelements - 1)) [] calls).1 = queue at queues
    cases queue with
    | nil => exact ⟨r, none, if_pos (queues.empty_iff.mpr rfl), rfl, iff_of_true rfl rfl⟩
    | cons item rest =>
      obtain ⟨next, extracted, -⟩ := queues.extract
      exact ⟨next, some item, extracted, rfl, by simp⟩

/-- A ring of three elements with a read lock, on which an insert fails when two elements are
queued. -/
theorem utaMkRing_refines_three : ∃ made r queue outs, utaMkRing Nat 3 = some made ∧
    answersM call ([5].foldl utaRingConfig made)
      [.insert 7, .insert 8, .insert 9, .extract, .insert 9] = .ok (r, outs) ∧
    answers (Bounded.call (made.nelements - 1)) []
      [.insert 7, .insert 8, .insert 9, .extract, .insert 9] = (queue, outs) ∧
    r.pfd = queue.length := by
  obtain ⟨made, r, queue, outs, makes, called, seen, -, -, -, -, count, -⟩ :=
    utaMkRing_refines (show (1 : Int) ≤ 3 by decide) (by decide) [5]
      [.insert 7, .insert 8, .insert 9, .extract, .insert 9]
  exact ⟨made, r, queue, outs, makes, called, seen, count⟩

end RingT

namespace Ring
variable {α : Type} {ring : Ring α}

/-- An index that is advanced is the place behind it. -/
theorem next_eq_turn {index : Nat} (inside : index < ring.nelements) :
    ring.next index = turn ring.nelements (index + 1) := by
  unfold next turn
  split <;> split <;> omega

/-- An insert that no other thread comes in between of is a call of its own. -/
theorem insert_alone (idle : ring.inserter = .idle) (inside : ring.head < ring.nelements)
    (small : ring.nelements ≤ 65535) (newData : α) :
    ∃ rc, ring.alone.utaRingInsert newData = .ok
      (((((ring.step (.insert newData)).step .inserter).step .inserter).step .inserter).alone,
        rc) := by
  -- A full ring is left at once; else the four steps are those of the call.
  by_cases full : ring.isFull
  · have stays : (((ring.step (.insert newData)).step .inserter).step .inserter).step .inserter =
        ring := by
      simp [step, insertOn, idle, full]
    rw [stays]
    exact ⟨.exfull, RingT.utaRingInsert_full (by simp [alone]) (r := ring.alone) full newData⟩
  · have after : (((ring.step (.insert newData)).step .inserter).step .inserter).step .inserter =
        { ring with
          data := Function.update ring.data ring.head (some newData)
          head := turn ring.nelements (ring.head + 1)
          pfd := if ring.pfd < eventfdMax then ring.pfd + 1 else ring.pfd } := by
      simp [step, insertOn, idle, full]
      exact next_eq_turn inside
    rw [after]
    exact ⟨.ok, RingT.utaRingInsert_room (r := ring.alone)
      (by simp [alone]) full inside small newData⟩

/-- A thread that extracts goes on from where it is. -/
theorem step_extractor {thread : Nat} {pc : ExtractPc} (at_ : ring.extractors[thread]? = some pc) :
    ring.step (.extractor thread) = ring.extractOn thread pc := by
  simp only [step, at_]

/-- An extract that no other thread comes in between of is a call of its own. -/
theorem extract_alone {thread : Nat} (idle : ring.extractors[thread]? = some .idle)
    (free : ring.rgate = none) (inside : ring.tail < ring.nelements)
    (small : ring.nelements ≤ 65535) :
    ∃ data, ring.alone.utaRingExtract = .ok
      (((((((ring.step (.extract thread)).step (.extractor thread)).step (.extractor thread)).step
        (.extractor thread)).step (.extractor thread)).step (.extractor thread)).step
        (.extractor thread) |>.alone, data) := by
  -- An empty ring is left at once; else the steps are those of the call.
  have unlocked : ring.alone.rgate ≠ some true := by simp [alone, free]
  by_cases empty : ring.tail = ring.head
  · have stays : ring.step (.extract thread) = ring := by simp [step, empty]
    have still : ring.step (.extractor thread) = ring := by
      rw [step_extractor idle]
      rfl
    rw [stays, still, still, still, still, still, still]
    exact ⟨none, if_pos empty⟩
  · obtain ⟨bound, waits⟩ := List.getElem?_eq_some_iff.mp idle
    have after : ((((((ring.step (.extract thread)).step (.extractor thread)).step
        (.extractor thread)).step (.extractor thread)).step (.extractor thread)).step
        (.extractor thread)).step (.extractor thread) =
        { ring with
          tail := turn ring.nelements (ring.tail + 1)
          pfd := ring.pfd - 1
          data := Function.update ring.data ring.tail none
          extracted := ring.extracted ++ [ring.data ring.tail]
          extractors := ring.extractors.set thread .idle } := by
      simp [step, extractOn, goTo, waits, empty, free, bound]
      exact next_eq_turn inside
    rw [after]
    exact ⟨ring.data ring.tail,
      RingT.utaRingExtract_some (r := ring.alone) unlocked empty inside small⟩

end Ring

end Rmr
