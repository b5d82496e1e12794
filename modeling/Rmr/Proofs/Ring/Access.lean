import Rmr.Lib.Circular
import Rmr.Lib.Run
import Rmr.Lib.Threads
import Rmr.Ring.Access

/-! A ring is a queue at every access, as long as nobody trusts a head that is past the slots. -/

namespace Rmr

/-- A thread that has the read lock. -/
def ExtractAt.gated : ExtractAt → Bool
  | .idle | .quickHead _ | .lock => false
  | _ => true

namespace AccessRing
variable {α : Type*} {ring : AccessRing α} {held queue stored : List α}

/-- The number of slots, which is one in a ring that never has an element. -/
def slots (ring : AccessRing α) : Nat := max 1 ring.nelements

/-- Where the thread that inserts is, and what it relies on there. -/
def Inserting (ring : AccessRing α) (queue stored : List α) : InsertAt α → Prop
  | .idle => stored = [] ∧ ring.head < ring.slots
  | .fullHead _ => stored = [] ∧ ring.head < ring.slots
  | .fullTail _ head => stored = [] ∧ ring.head < ring.slots ∧ head = ring.head
  -- A head before the last slot was compared already; for the last one, the tail was not past it.
  | .endHead _ => stored = [] ∧ ring.head < ring.slots ∧
    (ring.head + 1 < ring.slots → queue.length + 2 ≤ ring.slots) ∧
    (ring.head + 1 = ring.slots → ring.tail ≠ ring.slots)
  | .endTail _ => stored = [] ∧ ring.head + 1 = ring.slots ∧ ring.tail ≠ ring.slots
  | .slotHead _ => stored = [] ∧ ring.head < ring.slots ∧ queue.length + 2 ≤ ring.slots
  | .store _ head => stored = [] ∧ ring.head < ring.slots ∧ queue.length + 2 ≤ ring.slots ∧
    head = ring.head
  | .readHead => ring.head < ring.slots ∧ queue.length + 2 ≤ ring.slots ∧
    ∃ item, stored = [item] ∧ ring.data ring.head = some item
  | .advance head => ring.head < ring.slots ∧ queue.length + 2 ≤ ring.slots ∧ head = ring.head ∧
    ∃ item, stored = [item] ∧ ring.data ring.head = some item
  | .testHead => stored = [] ∧ 2 ≤ ring.slots
  | .wrap => stored = [] ∧ ring.head = ring.slots ∧ 2 ≤ ring.slots

/-- A thread has the lock, and has claimed no slot. -/
def Gate (ring : AccessRing α) (held : List α) (thread : Nat) : Prop :=
  ring.rgate = some thread ∧ held = [] ∧ ring.tail < ring.slots

/-- A thread has the lock, and the tail was advanced past the slot that it claimed. -/
def Claimed (ring : AccessRing α) (held : List α) (thread ti : Nat) : Prop :=
  ring.rgate = some thread ∧ ti < ring.slots ∧ 2 ≤ ring.slots ∧
    turn ring.slots (ti + 1) = turn ring.slots ring.tail ∧
    ∃ item, held = [item] ∧ ring.data ti = some item

/-- Where a thread is that extracts, and what it relies on there. -/
def Extracting (ring : AccessRing α) (held queue : List α) (thread : Nat) : ExtractAt → Prop
  | .idle | .quickHead _ | .lock => True
  | .againTail => ring.Gate held thread
  | .againHead tail => ring.Gate held thread ∧ tail = ring.tail
  | .slotTail => ring.Gate held thread ∧ queue ≠ []
  | .readTail ti => ring.Gate held thread ∧ queue ≠ [] ∧ ti = ring.tail
  | .advance ti tail => ring.Gate held thread ∧ queue ≠ [] ∧ ti = ring.tail ∧ tail = ring.tail
  | .testTail ti => ring.Claimed held thread ti
  | .wrap ti => ring.Claimed held thread ti ∧ ring.tail = ring.slots
  | .take ti => ring.Claimed held thread ti ∧ ring.tail < ring.slots
  | .clear ti => ring.Gate held thread ∧ ti < ring.slots ∧ 2 ≤ ring.slots ∧
    turn ring.slots (ti + 1) = ring.tail
  | .unlock => ring.Gate held thread

/-- What holds of a ring at every access. The elements that were put into slots are those extracted,
one that was claimed, those that the indices denote, and one that the head was not advanced past. -/
structure Inv (ring : AccessRing α) (held queue stored : List α) : Prop where
  size : ring.nelements ≤ 65535
  head : ring.head < ring.slots ∨ ring.head = ring.nelements
  tail : ring.tail < ring.slots ∨ ring.tail = ring.nelements
  room : queue.length < ring.slots
  place : turn ring.slots ring.head = turn ring.slots (turn ring.slots ring.tail + queue.length)
  laid : Laid ring.data ring.slots (turn ring.slots ring.tail) queue
  history : ring.inserted = ring.pointers ++ (held ++ (queue ++ stored))
  inserts : ring.Inserting queue stored ring.inserter
  extracts : ∀ thread pc, ring.extractors[thread]? = some pc →
    ring.Extracting held queue thread pc
  gate : ∀ thread, ring.rgate = some thread →
    ∃ pc, ring.extractors[thread]? = some pc ∧ pc.gated = true
  free : ring.rgate = none → held = [] ∧ ring.tail < ring.slots

/-- A ring that was just made has no elements. -/
theorem mkRing_inv (size threads : Nat) : (mkRing α size threads).Inv [] [] [] := by
  -- All threads are idle.
  have idle : ∀ (thread : Nat) (pc : ExtractAt),
      (List.replicate threads ExtractAt.idle)[thread]? = some pc → pc = .idle := by
    intro thread pc is
    exact List.eq_of_mem_replicate (List.mem_of_getElem? is)
  have some_ : 0 < (mkRing α size threads).slots := Nat.lt_of_lt_of_le Nat.one_pos (le_max_left _ _)
  exact {
    size := Nat.le_of_lt_succ (Nat.mod_lt _ (by decide))
    head := .inl some_
    tail := .inl some_
    room := some_
    place := by
      change turn _ 0 = turn _ (turn _ 0 + 0)
      rw [turn_of_lt some_, Nat.add_zero, turn_of_lt some_]
    laid := laid_nil
    history := rfl
    inserts := ⟨rfl, some_⟩
    extracts := by
      intro thread pc is
      rw [idle thread pc is]
      trivial
    gate := by
      intro thread is
      cases is
    free := fun _ => ⟨rfl, some_⟩ }

/-- Whoever has the lock knows whether a slot is claimed. -/
theorem Extracting.rgate {thread : Nat} {pc : ExtractAt}
    (at_ : ring.Extracting held queue thread pc) (gated : pc.gated = true) :
    ring.rgate = some thread := by
  -- Every step under the lock has it noted in what it relies on.
  cases pc with
  | idle | quickHead _ | lock => cases gated
  | againTail | unlock => exact at_.1
  | againHead _ | slotTail | readTail _ | advance _ _ | wrap _ | take _ | clear _ => exact at_.1.1
  | testTail _ => exact at_.1

/-- A thread without the lock relies on nothing. -/
theorem Extracting.of_not_gated {thread : Nat} {pc : ExtractAt} (not : pc.gated = false) :
    ring.Extracting held queue thread pc := by
  -- Only the steps without the lock are left.
  cases pc with
  | idle | quickHead _ | lock => trivial
  | againTail | unlock | againHead _ | slotTail | readTail _ | advance _ _ | wrap _ | take _
  | clear _ | testTail _ => cases not

/-- With two slots, the number of slots is that of elements. -/
theorem slots_eq (ring : AccessRing α) (two : 2 ≤ ring.slots) : ring.slots = ring.nelements := by
  unfold slots at two ⊢
  omega

/-- There is a slot for each element. -/
theorem nelements_le_slots (ring : AccessRing α) : ring.nelements ≤ ring.slots := le_max_right _ _

/-- There is always a slot. -/
theorem one_le_slots (ring : AccessRing α) : 1 ≤ ring.slots := le_max_left _ _

/-- Behind the last slot is the first one. -/
theorem turn_slots (ring : AccessRing α) : turn ring.slots ring.slots = 0 := by
  rw [turn, if_neg (Nat.lt_irrefl _), Nat.sub_self]

/-- The tail is the place of a slot. -/
theorem Inv.tail_place (inv : ring.Inv held queue stored) :
    turn ring.slots ring.tail < ring.slots := by
  -- The tail is a slot, or is past the last one, which is the place of the first.
  have bound := ring.nelements_le_slots
  have some_ := ring.one_le_slots
  unfold turn
  rcases inv.tail with inside | is
  · rw [if_pos inside]
    exact inside
  · split <;> omega

/-- The thread that inserts is at another place. -/
theorem Inv.inserterAt (inv : ring.Inv held queue stored) {pc : InsertAt α}
    (inserts : ring.Inserting queue stored pc) :
    { ring with inserter := pc }.Inv held queue stored :=
  { inv with inserts := inserts }

/-- The other threads do not have the lock. -/
theorem Inv.others (inv : ring.Inv held queue stored) {thread : Nat}
    (has : ring.rgate = some thread)
    {other : Nat} {pc : ExtractAt} (differs : other ≠ thread)
    (at_ : ring.extractors[other]? = some pc) : pc.gated = false := by
  -- Two threads with the lock would be one.
  cases gated : pc.gated with
  | false => rfl
  | true =>
    have too := (inv.extracts other pc at_).rgate gated
    exact absurd (Option.some.inj (too.symm.trans has)) differs

/-- A thread with the lock moves on, and keeps it. -/
theorem gate_moved {thread : Nat} {pc next : ExtractAt} (at_ : ring.extractors[thread]? = some pc)
    (has : ring.rgate = some thread) (gated : next.gated = true) :
    ∀ other, ring.rgate = some other →
      ∃ pc, (ring.extractors.set thread next)[other]? = some pc ∧ pc.gated = true := by
  -- The lock is held by the thread that moves.
  intro other too
  cases has.symm.trans too
  exact ⟨next, by rw [getElem?_moved at_, if_pos rfl], gated⟩

/-- A thread moves on, with or without the lock as before. -/
theorem Inv.goTo (inv : ring.Inv held queue stored) {thread : Nat} {pc next : ExtractAt}
    (at_ : ring.extractors[thread]? = some pc) (same : next.gated = pc.gated)
    (extracts : ring.Extracting held queue thread next) :
    (ring.goTo thread next).Inv held queue stored :=
  -- One thread moves, and keeps the lock that it has or has not.
  { inv with
    extracts := forall_moved (fun other pc => ring.Extracting held queue other pc) at_
      (fun other pc _ is => inv.extracts other pc is) extracts
    gate := by
      intro other has
      obtain ⟨otherPc, is, gated⟩ := inv.gate other has
      change ∃ pc, (ring.extractors.set thread next)[other]? = some pc ∧ _
      rw [getElem?_moved at_]
      by_cases here : other = thread
      · subst here
        cases at_.symm.trans is
        exact ⟨next, if_pos rfl, same.trans gated⟩
      · exact ⟨otherPc, (if_neg here).trans is, gated⟩ }

/-- The head was compared with the tail, which was not behind it: before the last slot there is
room. -/
theorem Inv.room_of_ne (inv : ring.Inv held queue stored) (inside : ring.head < ring.slots)
    (differs : ring.head + 1 ≠ ring.tail) (before : ring.head + 1 < ring.slots) :
    queue.length + 2 ≤ ring.slots := by
  have room := inv.room
  by_contra full
  -- A full queue ends in front of the tail.
  have whole : queue.length + 1 = ring.slots := by omega
  have place := inv.place
  have begins := inv.tail_place
  rw [turn_of_lt inside] at place
  have bound := ring.nelements_le_slots
  have here : ring.head + 1 = turn ring.slots ring.tail := by
    unfold turn at place begins ⊢
    split at place <;> split at place <;> split <;> omega
  rcases inv.tail with inTail | past
  · rw [turn_of_lt inTail] at here
    exact differs here
  · unfold turn at here
    split at here <;> omega

/-- At the last slot, a tail that is not the first slot leaves room. -/
theorem Inv.room_of_last (inv : ring.Inv held queue stored) (last : ring.head + 1 = ring.slots)
    (set : ring.tail ≠ ring.slots) (some_ : ring.tail ≠ 0) : queue.length + 2 ≤ ring.slots := by
  -- Head and tail are both slots, so that their distance is told by which is ahead.
  have place := inv.place
  have room := inv.room
  have bound := ring.nelements_le_slots
  have inTail : ring.tail < ring.slots := by
    rcases inv.tail with inside | is
    · exact inside
    · omega
  rw [turn_of_lt (by omega), turn_of_lt inTail] at place
  unfold turn at place
  split at place <;> omega

/-- A change of the slots or of the queue that leaves what a thread relies on. -/
theorem Extracting.frame {next : AccessRing α} {queue' : List α} {thread : Nat} {pc : ExtractAt}
    (at_ : ring.Extracting held queue thread pc) (rgate : next.rgate = ring.rgate)
    (tail : next.tail = ring.tail) (slots : next.slots = ring.slots)
    (some_ : queue ≠ [] → queue' ≠ [])
    (data : ∀ ti, ring.Claimed held thread ti → next.data ti = ring.data ti) :
    next.Extracting held queue' thread pc := by
  -- One case for each place of an extracting thread, whose slot is not written.
  have gate : ring.Gate held thread → next.Gate held thread := by
    intro gate
    rw [Gate, rgate, tail, slots]
    exact gate
  have claimed : ∀ ti, ring.Claimed held thread ti → next.Claimed held thread ti := by
    intro ti claimed
    rw [Claimed, rgate, tail, slots, data ti claimed]
    exact claimed
  cases pc with
  | idle | quickHead _ | lock => trivial
  | againTail | unlock => exact gate at_
  | againHead _ => exact ⟨gate at_.1, at_.2.trans tail.symm⟩
  | slotTail => exact ⟨gate at_.1, some_ at_.2⟩
  | readTail _ => exact ⟨gate at_.1, some_ at_.2.1, at_.2.2.trans tail.symm⟩
  | advance _ _ =>
    exact ⟨gate at_.1, some_ at_.2.1, at_.2.2.1.trans tail.symm, at_.2.2.2.trans tail.symm⟩
  | testTail _ => exact claimed _ at_
  | wrap _ => exact ⟨claimed _ at_.1, tail.trans (at_.2.trans slots.symm)⟩
  | take _ =>
    refine ⟨claimed _ at_.1, ?_⟩
    rw [tail, slots]
    exact at_.2
  | clear _ =>
    refine ⟨gate at_.1, ?_⟩
    rw [tail, slots]
    exact at_.2

/-- A slot that a thread claimed is not the one to store in. -/
theorem Inv.claimed_ne_head (inv : ring.Inv held queue stored) (inside : ring.head < ring.slots)
    (room : queue.length + 2 ≤ ring.slots) {ti : Nat}
    (before : turn ring.slots (ti + 1) = turn ring.slots ring.tail) : ti ≠ ring.head := by
  -- The claimed slot is right in front of the tail, and two slots at least are free.
  intro same
  have place := inv.place
  rw [turn_of_lt inside] at place
  exact turn_ne_before inv.tail_place (by omega) before (place.symm.trans same.symm)

/-- Storing an element where there is room. -/
theorem Inv.store (inv : ring.Inv held queue []) (inside : ring.head < ring.slots)
    (room : queue.length + 2 ≤ ring.slots) (newData : α) :
    { ring with
      data := Function.update ring.data ring.head (some newData)
      inserter := .readHead
      inserted := ring.inserted ++ [newData] }.Inv held queue [newData] := by
  -- The slot at the head is behind the queue, so that nothing of the queue is in it.
  have place := inv.place
  rw [turn_of_lt inside] at place
  exact { inv with
    laid := by
      refine inv.laid.update _ fun i among same => ?_
      rw [place] at same
      have behind := (turn_inj (by omega) (by omega)).mp same
      omega
    history := by
      change ring.inserted ++ [newData] = ring.pointers ++ (held ++ (queue ++ [newData]))
      rw [inv.history]
      simp
    inserts := ⟨inside, room, newData, rfl, Function.update_self _ _ _⟩
    extracts := by
      intro thread pc is
      refine (inv.extracts thread pc is).frame rfl rfl rfl id fun ti claimed => ?_
      exact Function.update_of_ne (inv.claimed_ne_head inside room claimed.2.2.2.1) _ _ }

/-- Advancing the head over what was stored. -/
theorem Inv.advanceHead {item : α} (inv : ring.Inv held queue [item])
    (inside : ring.head < ring.slots) (room : queue.length + 2 ≤ ring.slots)
    (there : ring.data ring.head = some item) :
    { ring with head := (ring.head + 1) % 65536, inserter := .testHead }.Inv held (queue ++ [item])
      [] := by
  -- The head moves over the slot that was stored to, which is then the queue's last.
  have place := inv.place
  rw [turn_of_lt inside] at place
  have exact_ : ring.slots = ring.nelements := ring.slots_eq (by omega)
  have small := inv.size
  have advanced : (ring.head + 1) % 65536 = ring.head + 1 := Nat.mod_eq_of_lt (by omega)
  exact { inv with
    head := by
      change (ring.head + 1) % 65536 < ring.slots ∨ (ring.head + 1) % 65536 = ring.nelements
      rw [advanced]
      omega
    room := by
      rw [List.length_append, List.length_singleton]
      exact Nat.lt_of_succ_le room
    place := by
      change turn ring.slots ((ring.head + 1) % 65536) = _
      rw [advanced, place, turn_turn inv.tail_place (by omega), List.length_append,
        List.length_singleton]
      rfl
    laid := by
      refine inv.laid.push ?_
      rw [← place]
      exact there
    history := by
      rw [List.append_nil]
      exact inv.history
    inserts := ⟨rfl, Nat.le_of_add_left_le room⟩
    extracts := by
      intro thread pc is
      exact (inv.extracts thread pc is).frame rfl rfl rfl
        (fun _ => List.append_ne_nil_of_right_ne_nil _ (List.cons_ne_nil _ _)) fun _ _ => rfl }

/-- The head is set back to the first slot. -/
theorem Inv.wrapHead (inv : ring.Inv held queue []) (past : ring.head = ring.slots) :
    { ring with head := 0, inserter := .idle }.Inv held queue [] := by
  -- The place after the last slot is the first one, so that nothing moves.
  have some_ := ring.one_le_slots
  exact { inv with
    head := .inl some_
    place := by
      have place := inv.place
      rw [past, turn_slots] at place
      change turn ring.slots 0 = _
      rw [turn_of_lt some_]
      exact place
    inserts := ⟨rfl, some_⟩
    extracts := by
      intro thread pc is
      exact (inv.extracts thread pc is).frame rfl rfl rfl id fun _ _ => rfl }

/-- The thread that inserts goes on. -/
theorem Inv.insertOn (inv : ring.Inv held queue stored) :
    ∃ queue' stored', ring.insertOn.Inv held queue' stored' := by
  -- One case for each place of the inserting thread; the tests say what it relies on.
  have inserts := inv.inserts
  unfold AccessRing.insertOn
  cases at_ : ring.inserter with
  | idle => exact ⟨queue, stored, inv⟩
  | fullHead newData =>
    rw [at_] at inserts
    exact ⟨queue, stored, inv.inserterAt ⟨inserts.1, inserts.2, rfl⟩⟩
  | fullTail newData head =>
    rw [at_] at inserts
    obtain ⟨none_, inside, rfl⟩ := inserts
    refine ⟨queue, stored, inv.inserterAt ?_⟩
    split
    · exact ⟨none_, inside⟩
    · rename_i differs
      exact ⟨none_, inside, inv.room_of_ne inside differs,
        fun last past => differs (last.trans past.symm)⟩
  | endHead newData =>
    rw [at_] at inserts
    obtain ⟨none_, inside, before, last⟩ := inserts
    refine ⟨queue, stored, inv.inserterAt ?_⟩
    by_cases final : ring.head + 1 = ring.slots
    · have bound := ring.nelements_le_slots
      rw [if_pos (by omega)]
      exact ⟨none_, final, last final⟩
    · have room := before (by omega)
      have exact_ := ring.slots_eq (by omega)
      rw [if_neg (by omega)]
      exact ⟨none_, inside, room⟩
  | endTail newData =>
    rw [at_] at inserts
    obtain ⟨none_, last, set⟩ := inserts
    refine ⟨queue, stored, inv.inserterAt ?_⟩
    split
    · exact ⟨none_, by omega⟩
    · rename_i some_
      exact ⟨none_, by omega, inv.room_of_last last set some_⟩
  | slotHead newData =>
    rw [at_] at inserts
    exact ⟨queue, stored, inv.inserterAt ⟨inserts.1, inserts.2.1, inserts.2.2, rfl⟩⟩
  | store newData head =>
    rw [at_] at inserts
    obtain ⟨rfl, inside, room, rfl⟩ := inserts
    exact ⟨queue, [newData], inv.store inside room newData⟩
  | readHead =>
    rw [at_] at inserts
    exact ⟨queue, stored, inv.inserterAt ⟨inserts.1, inserts.2.1, rfl, inserts.2.2⟩⟩
  | advance head =>
    rw [at_] at inserts
    obtain ⟨inside, room, rfl, item, rfl, there⟩ := inserts
    exact ⟨queue ++ [item], [], inv.advanceHead inside room there⟩
  | testHead =>
    rw [at_] at inserts
    obtain ⟨none_, two⟩ := inserts
    refine ⟨queue, stored, inv.inserterAt ?_⟩
    have exact_ := ring.slots_eq two
    rcases inv.head with inside | past
    · rw [if_neg (by omega)]
      exact ⟨none_, inside⟩
    · rw [if_pos (by omega)]
      exact ⟨none_, by omega, two⟩
  | wrap =>
    rw [at_] at inserts
    obtain ⟨rfl, past, two⟩ := inserts
    exact ⟨queue, [], inv.wrapHead past⟩

/-- A change of the slots, of the tail or of the queue that leaves what the inserting thread relies
on. -/
theorem Inserting.frame {next : AccessRing α} {queue' : List α} {pc : InsertAt α}
    (at_ : ring.Inserting queue stored pc) (head : next.head = ring.head)
    (slots : next.slots = ring.slots) (fewer : queue'.length ≤ queue.length)
    (tail : ring.head + 1 = ring.slots → ring.tail ≠ ring.slots → next.tail ≠ ring.slots)
    (data : ring.head < ring.slots → queue.length + 2 ≤ ring.slots →
      next.data ring.head = ring.data ring.head) :
    next.Inserting queue' stored pc := by
  -- One case for each place of the inserting thread; the slot that it writes is not touched.
  cases pc with
  | idle | fullHead _ =>
    simp only [Inserting, head, slots]
    exact at_
  | fullTail _ _ =>
    simp only [Inserting, head, slots]
    exact at_
  | endHead _ =>
    obtain ⟨none_, inside, before, last⟩ := at_
    simp only [Inserting, head, slots]
    exact ⟨none_, inside, fun less => by have room := before less; omega,
      fun final => tail final (last final)⟩
  | endTail _ =>
    obtain ⟨none_, last, set⟩ := at_
    simp only [Inserting, head, slots]
    exact ⟨none_, last, tail last set⟩
  | slotHead _ =>
    obtain ⟨none_, inside, room⟩ := at_
    simp only [Inserting, head, slots]
    exact ⟨none_, inside, by omega⟩
  | store _ _ =>
    obtain ⟨none_, inside, room, is⟩ := at_
    simp only [Inserting, head, slots]
    exact ⟨none_, inside, by omega, is⟩
  | readHead =>
    obtain ⟨inside, room, there⟩ := at_
    simp only [Inserting, head, slots, data inside room]
    exact ⟨inside, by omega, there⟩
  | advance _ =>
    obtain ⟨inside, room, is, there⟩ := at_
    simp only [Inserting, head, slots, data inside room]
    exact ⟨inside, by omega, is, there⟩
  | testHead =>
    simp only [Inserting, slots]
    exact at_
  | wrap =>
    simp only [Inserting, head, slots]
    exact at_

/-- The places of all threads after one of them moved on with the lock. -/
theorem Inv.extracts_moved (inv : ring.Inv held queue stored) {next : AccessRing α}
    {held' queue' : List α} {thread : Nat} {pc pc' : ExtractAt}
    (at_ : ring.extractors[thread]? = some pc) (has : ring.rgate = some thread)
    (here : next.Extracting held' queue' thread pc') :
    ∀ other otherPc, (ring.extractors.set thread pc')[other]? = some otherPc →
      next.Extracting held' queue' other otherPc :=
  forall_moved (fun other otherPc => next.Extracting held' queue' other otherPc) at_
    (fun _ _ differs is => .of_not_gated (inv.others has differs is)) here

variable {thread : Nat}

/-- The lock is there, and a thread gets it. -/
theorem Inv.lock (inv : ring.Inv held queue stored)
    (at_ : ring.extractors[thread]? = some .lock) (open_ : ring.rgate = none) :
    ({ ring with rgate := some thread }.goTo thread .againTail).Inv held queue stored := by
  obtain ⟨none_, inside⟩ := inv.free open_
  exact { inv with
    extracts := by
      refine forall_moved (fun other pc => Extracting _ held queue other pc) at_ ?_
        ⟨rfl, none_, inside⟩
      intro other pc _ is
      refine .of_not_gated ?_
      -- Nobody had the lock.
      cases gated : pc.gated with
      | false => rfl
      | true =>
        have has := (inv.extracts other pc is).rgate gated
        cases open_.symm.trans has
    gate := by
      intro other has
      cases has
      exact ⟨.againTail, by rw [AccessRing.goTo, getElem?_moved at_, if_pos rfl], rfl⟩
    free := by
      intro none_
      cases none_ }

/-- The tail is advanced over the first element, which is claimed. -/
theorem Inv.advanceTail (inv : ring.Inv held queue stored)
    (at_ : ring.extractors[thread]? = some (.advance ring.tail ring.tail))
    (gate : ring.Gate held thread) (some_ : queue ≠ []) :
    ∃ held' queue', ({ ring with tail := (ring.tail + 1) % 65536 }.goTo thread
      (.testTail ring.tail)).Inv held' queue' stored := by
  obtain ⟨has, rfl, inside⟩ := gate
  obtain ⟨item, rest, rfl⟩ := List.exists_cons_of_ne_nil some_
  have room := inv.room
  rw [List.length_cons] at room
  have exact_ : ring.slots = ring.nelements := ring.slots_eq (by omega)
  have small := inv.size
  have advanced : (ring.tail + 1) % 65536 = ring.tail + 1 := Nat.mod_eq_of_lt (by omega)
  have place := inv.place
  have laid := inv.laid
  rw [turn_of_lt inside] at laid place
  obtain ⟨first, behind⟩ := laid.pop inside (by omega)
  refine ⟨[item], rest, { inv with
    tail := ?_
    room := Nat.lt_of_succ_lt room
    place := ?_
    laid := ?_
    history := ?_
    inserts := ?_
    extracts := ?_
    gate := gate_moved at_ has rfl
    free := fun none_ => absurd (has.symm.trans none_) (Option.some_ne_none thread) }⟩
  · change (ring.tail + 1) % 65536 < ring.slots ∨ (ring.tail + 1) % 65536 = ring.nelements
    rw [advanced]
    omega
  · change turn ring.slots ring.head =
      turn ring.slots (turn ring.slots ((ring.tail + 1) % 65536) + rest.length)
    rw [advanced, turn_turn inside (by omega), place, List.length_cons, Nat.add_comm 1]
  · change Laid ring.data ring.slots (turn ring.slots ((ring.tail + 1) % 65536)) rest
    rw [advanced]
    exact behind
  · exact inv.history
  · refine inv.inserts.frame rfl rfl (Nat.le_succ _) ?_ fun _ _ => rfl
    intro last _
    change (ring.tail + 1) % 65536 ≠ ring.slots
    rw [advanced]
    -- A tail at the head would be that of an empty ring.
    intro past
    have together : ring.head = ring.tail := by omega
    rw [together, turn_of_lt inside, List.length_cons] at place
    unfold turn at place
    split at place <;> omega
  · have two : 2 ≤ ring.slots := by omega
    refine inv.extracts_moved at_ has ⟨has, inside, two, ?_, item, rfl, first⟩
    change _ = turn ring.slots ((ring.tail + 1) % 65536)
    rw [advanced]
    rfl

/-- The tail is set back to the first slot. -/
theorem Inv.wrapTail (inv : ring.Inv held queue stored) {ti : Nat}
    (at_ : ring.extractors[thread]? = some (.wrap ti)) (claimed : ring.Claimed held thread ti)
    (past : ring.tail = ring.slots) :
    ({ ring with tail := 0 }.goTo thread (.take ti)).Inv held queue stored := by
  -- The place after the last slot is the first one, so that the queue starts where it did.
  have some_ := ring.one_le_slots
  obtain ⟨has, inside, two, before, there⟩ := claimed
  have start : turn ring.slots 0 = turn ring.slots ring.tail := by
    rw [past, turn_slots, turn_of_lt some_]
  refine { inv with
    tail := .inl some_
    place := ?_
    laid := ?_
    inserts := ?_
    extracts := ?_
    gate := gate_moved at_ has rfl
    free := fun none_ => absurd (has.symm.trans none_) (Option.some_ne_none thread) }
  · change turn ring.slots ring.head = turn ring.slots (turn ring.slots 0 + queue.length)
    rw [start]
    exact inv.place
  · change Laid ring.data ring.slots (turn ring.slots 0) queue
    rw [start]
    exact inv.laid
  · exact inv.inserts.frame rfl rfl (Nat.le_refl _) (fun _ _ => Nat.ne_of_lt some_) fun _ _ => rfl
  · exact inv.extracts_moved at_ has ⟨⟨has, inside, two, before.trans start.symm, there⟩, some_⟩

/-- The element that was claimed is taken. -/
theorem Inv.take (inv : ring.Inv held queue stored) {ti : Nat}
    (at_ : ring.extractors[thread]? = some (.take ti)) (claimed : ring.Claimed held thread ti)
    (inTail : ring.tail < ring.slots) :
    ({ ring with extracted := ring.extracted ++ [ring.data ti] }.goTo thread (.clear ti)).Inv []
      queue
      stored := by
  -- The element was the first one of the queue, and is the next to be extracted.
  obtain ⟨has, inside, two, before, item, rfl, there⟩ := claimed
  rw [turn_of_lt inTail] at before
  exact { inv with
    history := by
      have pointers : (ring.extracted ++ [ring.data ti]).filterMap id = ring.pointers ++
          [item] := by
        rw [there, List.filterMap_append]
        rfl
      change ring.inserted = (ring.extracted ++ [ring.data ti]).filterMap id ++ _
      rw [pointers, inv.history, List.append_assoc]
      rfl
    extracts := inv.extracts_moved at_ has ⟨⟨has, rfl, inTail⟩, inside, two, before⟩
    gate := gate_moved at_ has rfl
    free := fun _ => ⟨rfl, inTail⟩ }

/-- The slot that was emptied is cleared. -/
theorem Inv.clear (inv : ring.Inv held queue stored) {ti : Nat}
    (at_ : ring.extractors[thread]? = some (.clear ti)) (gate : ring.Gate held thread)
    (before : turn ring.slots (ti + 1) = ring.tail) :
    ({ ring with data := Function.update ring.data ti none }.goTo thread .unlock).Inv held queue
      stored := by
  -- The slot is behind the tail, so that nothing of the queue is in it.
  obtain ⟨has, none_, inTail⟩ := gate
  have place := inv.tail_place
  have behind : turn ring.slots (ti + 1) = turn ring.slots ring.tail :=
    before.trans (turn_of_lt inTail).symm
  have room := inv.room
  exact { inv with
    laid := by
      refine inv.laid.update _ fun i among => ?_
      exact turn_ne_before place (by omega) behind
    inserts := by
      refine inv.inserts.frame rfl rfl (Nat.le_refl _) (fun _ => id) fun inside room => ?_
      exact Function.update_of_ne (inv.claimed_ne_head inside room behind).symm _ _
    extracts := inv.extracts_moved at_ has ⟨has, none_, inTail⟩
    gate := gate_moved at_ has rfl }

/-- The lock is given back. -/
theorem Inv.unlock (inv : ring.Inv held queue stored)
    (at_ : ring.extractors[thread]? = some .unlock) (gate : ring.Gate held thread) :
    ({ ring with rgate := none }.goTo thread .idle).Inv held queue stored := by
  -- Nobody else is in the locked part, and the tail is a slot again.
  obtain ⟨has, none_, inTail⟩ := gate
  exact { inv with
    extracts := inv.extracts_moved at_ has trivial
    gate := by
      intro other too
      cases too
    free := fun _ => ⟨none_, inTail⟩ }

/-- The ring is empty only if the thread with the lock sees it, when the head can be trusted. -/
theorem Inv.queue_ne_nil (inv : ring.Inv held queue stored) (inTail : ring.tail < ring.slots)
    (differs : ring.tail ≠ ring.head) (apart : ring.tail = 0 → ring.head ≠ ring.nelements) :
    queue ≠ [] := by
  -- An empty queue has the same place for head and tail, so that only a head past the slots
  -- differs.
  intro none_
  have place := inv.place
  have bound := ring.nelements_le_slots
  rw [none_, List.length_nil, Nat.add_zero, turn_of_lt inTail, turn_of_lt inTail] at place
  unfold turn at place
  split at place
  · exact differs place.symm
  · rcases inv.head with inside | past
    · omega
    · have first : ring.tail = 0 := by omega
      exact apart first past

/-- A thread that extracts goes on. -/
theorem Inv.extractOn (inv : ring.Inv held queue stored) {pc : ExtractAt}
    (at_ : ring.extractors[thread]? = some pc) (apart : ring.Apart (.extractor thread)) :
    ∃ held' queue', (ring.extractOn thread pc).Inv held' queue' stored := by
  -- One case for each place of the extracting thread; two of the tests look at the head.
  have extracts := inv.extracts thread pc at_
  cases pc with
  | idle => exact ⟨held, queue, inv⟩
  | quickHead tail =>
    refine ⟨held, queue, inv.goTo at_ ?_ (.of_not_gated ?_)⟩
    · split <;> rfl
    · split <;> rfl
  | lock =>
    simp only [AccessRing.extractOn]
    split
    · rename_i open_
      exact ⟨held, queue, inv.lock at_ open_⟩
    · exact ⟨held, queue, inv⟩
  | againTail => exact ⟨held, queue, inv.goTo at_ rfl ⟨extracts, rfl⟩⟩
  | againHead tail =>
    obtain ⟨gate, rfl⟩ := extracts
    refine ⟨held, queue, inv.goTo at_ ?_ ?_⟩
    · split <;> rfl
    · split
      · exact gate
      · rename_i differs
        refine ⟨gate, inv.queue_ne_nil gate.2.2 differs fun first => apart ?_⟩
        rw [at_, first]
  | slotTail =>
    obtain ⟨gate, some_⟩ := extracts
    exact ⟨held, queue, inv.goTo at_ rfl ⟨gate, some_, rfl⟩⟩
  | readTail ti =>
    obtain ⟨gate, some_, is⟩ := extracts
    exact ⟨held, queue, inv.goTo at_ rfl ⟨gate, some_, is, rfl⟩⟩
  | advance ti tail =>
    obtain ⟨gate, some_, rfl, rfl⟩ := extracts
    exact inv.advanceTail at_ gate some_
  | testTail ti =>
    have bound := ring.nelements_le_slots
    have exact_ := ring.slots_eq extracts.2.2.1
    refine ⟨held, queue, inv.goTo at_ ?_ ?_⟩
    · split <;> rfl
    · rcases inv.tail with inside | past
      · rw [if_neg (by omega)]
        exact ⟨extracts, inside⟩
      · rw [if_pos (by omega)]
        exact ⟨extracts, by omega⟩
  | wrap ti =>
    obtain ⟨claimed, past⟩ := extracts
    exact ⟨held, queue, inv.wrapTail at_ claimed past⟩
  | take ti =>
    obtain ⟨claimed, inTail⟩ := extracts
    exact ⟨[], queue, inv.take at_ claimed inTail⟩
  | clear ti =>
    obtain ⟨gate, _, _, before⟩ := extracts
    exact ⟨held, queue, inv.clear at_ gate before⟩
  | unlock => exact ⟨held, queue, inv.unlock at_ extracts⟩

/-- An event that meets the condition leaves the ring a queue. -/
theorem Inv.step (inv : ring.Inv held queue stored) {event : RingEvent α}
    (apart : ring.Apart event) :
    ∃ held' queue' stored', (ring.step event).Inv held' queue' stored' := by
  -- One case for each event: a call that starts, or a thread that goes on.
  cases event with
  | insert newData =>
    simp only [AccessRing.step]
    cases at_ : ring.inserter with
    | idle =>
      have inserts := inv.inserts
      rw [at_] at inserts
      exact ⟨held, queue, stored, inv.inserterAt inserts⟩
    | _ => exact ⟨held, queue, stored, inv⟩
  | inserter =>
    obtain ⟨queue', stored', next⟩ := inv.insertOn
    exact ⟨held, queue', stored', next⟩
  | extract thread =>
    simp only [AccessRing.step]
    split
    · rename_i at_
      exact ⟨held, queue, stored, inv.goTo at_ rfl trivial⟩
    · exact ⟨held, queue, stored, inv⟩
  | extractor thread =>
    simp only [AccessRing.step]
    cases at_ : ring.extractors[thread]? with
    | none => exact ⟨held, queue, stored, inv⟩
    | some pc =>
      obtain ⟨held', queue', next⟩ := inv.extractOn at_ apart
      exact ⟨held', queue', stored, next⟩

/-- An index is the place of a slot, once one past the slots is taken for the first one. -/
theorem turn_index {index : Nat} (at_ : index < ring.slots ∨ index = ring.nelements) :
    (if ring.nelements ≤ index then 0 else index) = turn ring.slots index := by
  unfold turn slots at *
  split <;> split <;> omega

/-- A queue is what the ring is for. -/
theorem Inv.linear (inv : ring.Inv held queue stored) : ring.Linear where
  -- The history gives the order, and the distance of the indices gives the count.
  order := by
    rw [inv.history]
    exact List.prefix_append _ _
  count := by
    have some_ := ring.one_le_slots
    have begins := inv.tail_place
    have room := inv.room
    have place := inv.place
    have bound := ring.nelements_le_slots
    have exact_ : ring.denoted ≤ queue.length := by
      simp only [denoted, turn_index inv.head, turn_index inv.tail]
      rw [place]
      generalize turn ring.slots ring.tail = tail at begins ⊢
      unfold turn
      split <;> split <;> omega
    rw [inv.history, List.length_append, List.length_append, List.length_append]
    omega
  slots := by
    intro event index picks
    cases event with
    | insert _ | extract _ => cases picks
    | inserter =>
      have inserts := inv.inserts
      cases at_ : ring.inserter with
      | store newData head =>
        simp only [AccessRing.picks, at_] at picks
        cases picks
        rw [at_] at inserts
        obtain ⟨_, inside, room, rfl⟩ := inserts
        have exact_ := ring.slots_eq (by omega)
        omega
      | _ =>
        simp only [AccessRing.picks, at_] at picks
        cases picks
    | extractor thread =>
      cases at_ : ring.extractors[thread]? with
      | none =>
        simp only [AccessRing.picks, at_] at picks
        cases picks
      | some pc =>
        have extracts := inv.extracts thread pc at_
        cases pc with
        | take ti =>
          simp only [AccessRing.picks, at_] at picks
          cases picks
          have exact_ := ring.slots_eq extracts.1.2.2.1
          exact exact_ ▸ extracts.1.2.1
        | clear ti =>
          simp only [AccessRing.picks, at_] at picks
          cases picks
          have exact_ := ring.slots_eq extracts.2.2.1
          exact exact_ ▸ extracts.2.1
        | _ =>
          simp only [AccessRing.picks, at_] at picks
          cases picks

/-- In a run where no thread with the lock compares a head past the slots with a tail at the first
slot, the pointers extracted are a prefix of those inserted, the indices denote no more than is
left, and only slots are accessed. -/
theorem run_linear (size threads : Nat) (events : List (RingEvent α))
    (apart : Throughout step Apart (mkRing α size threads) events) :
    (run α size threads events).Linear := by
  -- The invariant is that the ring is a queue, with what is in a thread's hand in front of it.
  have step : ∀ {ring : AccessRing α} {event : RingEvent α},
      (∃ held queue stored, ring.Inv held queue stored) → ring.Apart event →
        ∃ held queue stored, (ring.step event).Inv held queue stored := by
    intro ring event some apart
    obtain ⟨held, queue, stored, inv⟩ := some
    exact inv.step apart
  obtain ⟨held, queue, stored, inv⟩ :=
    apart.keeps step ⟨[], [], [], mkRing_inv size threads⟩
  exact inv.linear

/-- Two elements, the second of which is in the last slot, with two threads that extract. -/
theorem run_linear_two : (run Nat 2 2 (List.flatten [[.insert 1], List.replicate 8 .inserter,
    [.extract 0, .extract 1], List.replicate 11 (.extractor 0), [.insert 2],
    List.replicate 10 .inserter, List.replicate 13 (.extractor 1)])).Linear :=
  run_linear 2 2 _ (by decide +kernel)

/-- A head past the slots, when both elements were extracted, makes a ring that is empty look like
one with an element: another is extracted, and the ring is full of nothing. -/
theorem run_not_linear : ¬ ∀ (size threads : Nat) (events : List (RingEvent Nat)),
    (run Nat size threads events).Linear := by
  -- The run is evaluated: the ring counts an element where all were extracted.
  intro linear
  have count := (linear 2 1 (List.flatten [[.insert 1], List.replicate 8 .inserter,
    [.extract 0], List.replicate 11 (.extractor 0), [.insert 2], List.replicate 8 .inserter,
    [.extract 0], List.replicate 12 (.extractor 0), [.extract 0], List.replicate 7 (.extractor 0),
    [.inserter, .inserter]])).count
  revert count
  decide +kernel

end AccessRing

end Rmr
