import Rmr.Lib.Threads
import Rmr.Receive.Inbox

/-! What is put into the ring is taken out in its order, and what a thread takes out is returned to
it. -/

namespace Rmr

/-- The message as it is returned, whichever way it was waited for. -/
def Mbuf.sealed (mbuf : Mbuf) : Mbuf := { mbuf.addsSrc with state := .ok }

namespace NormalQueue

variable {queue : NormalQueue}

/-- Nothing is in the ring but what was put there and not taken out. -/
theorem step_conserves (queue : NormalQueue) (event : QueueEvent) :
    queue.mring ++ queue.puts event =
      (queue.takes event).map Prod.snd ++ (queue.step event).mring := by
  cases event with
  | queue mbuf =>
    unfold puts takes NormalQueue.step
    dsimp only
    split <;> simp
  | post =>
    unfold puts takes NormalQueue.step
    dsimp only
    split <;> simp
  | mtRcv thread mbuf maxWait =>
    unfold puts takes NormalQueue.step
    dsimp only
    split <;> simp [goTo]
  | receiver thread ret =>
    unfold puts takes NormalQueue.step
    dsimp only
    cases queue.threads[thread]? with
    | none => simp
    | some pc =>
      cases pc with
      | idle | pop => simp [NormalQueue.receiver, answer, goTo]
      -- Only these two look at the ring.
      | poll | extract =>
        cases ring : queue.mring <;> simp [NormalQueue.receiver, answer, goTo, ring]
      | wait timed ombuf =>
        simp only [NormalQueue.receiver]
        cases ret <;> dsimp only <;> (try split) <;> simp [answer, goTo]

/-- What threads have in their hands after one of them went on. -/
theorem inHand_moved {next : NormalQueue} {thread other : Nat} {pc nextPc : MtRcvPc}
    (at_ : queue.threads[thread]? = some pc)
    (moved : next.threads = queue.threads.set thread nextPc) :
    next.inHand other = if other = thread then nextPc.hand else queue.inHand other := by
  unfold inHand
  rw [moved, getElem?_moved at_]
  split <;> rfl

/-- What a thread that goes on takes and had is what is returned to it and what it has then. -/
theorem receiver_handles {thread : Nat} {pc : MtRcvPc} (at_ : queue.threads[thread]? = some pc)
    (ret : SemRet) : ∃ nextPc out,
      (queue.receiver thread ret pc).threads = queue.threads.set thread nextPc ∧
      (queue.receiver thread ret pc).received = queue.received ++ out ∧
      (pc.hand ++ (queue.takes (.receiver thread ret)).map Prod.snd).map Mbuf.sealed =
        (out.filterMap Received.msg ++ nextPc.hand).map Mbuf.sealed := by
  have stays : queue.threads = queue.threads.set thread pc := by
    obtain ⟨inside, is⟩ := List.getElem?_eq_some_iff.mp at_
    rw [← is, List.set_getElem_self]
  unfold takes
  simp only [at_]
  cases pc with
  | idle => exact ⟨.idle, [], stays, (List.append_nil _).symm, rfl⟩
  | pop mbuf =>
    exact ⟨.idle, [⟨false, true, some mbuf.addsSrc⟩], rfl, rfl, rfl⟩
  | poll ombuf =>
    -- What a poll takes it has in its hands until it is past the semaphore.
    unfold NormalQueue.receiver
    cases ring : queue.mring with
    | nil => exact ⟨.idle, [⟨false, false, _⟩], rfl, rfl, rfl⟩
    | cons mbuf mring => exact ⟨.pop mbuf, [], rfl, (List.append_nil _).symm, rfl⟩
  | extract ombuf =>
    -- Here it is returned at once.
    unfold NormalQueue.receiver
    cases ring : queue.mring with
    | nil => exact ⟨.idle, [⟨true, false, _⟩], rfl, rfl, rfl⟩
    | cons mbuf mring =>
      exact ⟨.idle, [⟨true, true, some { mbuf.addsSrc with state := .ok }⟩], rfl, rfl, rfl⟩
  | wait timed ombuf =>
    -- A wait takes nothing but a count.
    have waits : ∃ nextPc out, nextPc.hand = [] ∧ out.filterMap Received.msg = [] ∧
        (queue.receiver thread ret (.wait timed ombuf)).threads = queue.threads.set thread nextPc ∧
        (queue.receiver thread ret (.wait timed ombuf)).received = queue.received ++ out := by
      have still : ∃ nextPc out, nextPc.hand = [] ∧ out.filterMap Received.msg = [] ∧
          queue.threads = queue.threads.set thread nextPc ∧
            queue.received = queue.received ++ out :=
        ⟨.wait timed ombuf, [], rfl, rfl, stays, (List.append_nil _).symm⟩
      unfold NormalQueue.receiver
      cases ret with
      | ok =>
        dsimp only
        split
        · exact still
        · exact ⟨.extract ombuf, [], rfl, rfl, rfl, (List.append_nil _).symm⟩
      | interrupted => exact still
      | timedOut =>
        dsimp only
        split
        · exact ⟨.idle, [⟨false, false, ombuf⟩], rfl, rfl, rfl, rfl⟩
        · exact still
    obtain ⟨nextPc, out, empty, nothing, threads, received⟩ := waits
    exact ⟨nextPc, out, threads, received, by rw [empty, nothing]; rfl⟩

/-- What a thread had and takes is what is returned to it and what it has then, whatever happens. -/
theorem step_hands (queue : NormalQueue) (event : QueueEvent) (thread : Nat) :
    (queue.inHand thread ++ (queue.takes event).filterMap (takenBy thread)).map Mbuf.sealed =
      ((queue.returns event).filterMap (returnedTo thread) ++
        (queue.step event).inHand thread).map Mbuf.sealed := by
  cases event with
  | queue mbuf =>
    unfold takes returns NormalQueue.step
    dsimp only
    split <;> simp [inHand]
  | post =>
    unfold takes returns NormalQueue.step
    dsimp only
    split <;> simp [inHand]
  | mtRcv caller mbuf maxWait =>
    unfold takes returns NormalQueue.step
    dsimp only
    split
    · rename_i at_
      -- A call starts with nothing in the hand.
      have starts : (entry mbuf maxWait).hand = [] := by
        unfold entry
        split <;> rfl
      have moved : (queue.goTo caller (entry mbuf maxWait)).inHand thread =
          if thread = caller then (entry mbuf maxWait).hand else queue.inHand thread :=
        inHand_moved at_ rfl
      rw [moved, starts]
      by_cases own : thread = caller
      · subst own
        simp [inHand, at_, MtRcvPc.hand]
      · simp [own]
    · simp
  | receiver caller ret =>
    cases at_ : queue.threads[caller]? with
    | none => simp [takes, returns, NormalQueue.step, at_]
    | some pc =>
      obtain ⟨nextPc, out, threads, received, handles⟩ := receiver_handles at_ ret
      have stepped : queue.step (.receiver caller ret) = queue.receiver caller ret pc := by
        unfold NormalQueue.step
        simp only [at_]
      -- All that is taken with this event is taken by the caller.
      have owned : ∀ one ∈ queue.takes (.receiver caller ret), one.1 = caller := by
        unfold takes
        simp only [at_]
        intro one among
        have tagged : ∀ mbufs : List Mbuf,
            one ∈ mbufs.map (fun mbuf => (caller, mbuf)) → one.1 = caller := by
          intro mbufs among
          obtain ⟨_, _, rfl⟩ := List.mem_map.mp among
          rfl
        cases pc with
        | poll | extract => exact tagged _ among
        | idle | pop | wait => cases among
      unfold returns
      dsimp only
      rw [stepped, received, List.drop_left, inHand_moved at_ threads]
      by_cases own : thread = caller
      · subst own
        have took : (queue.takes (.receiver thread ret)).filterMap (takenBy thread) =
            (queue.takes (.receiver thread ret)).map Prod.snd := by
          rw [← List.filterMap_eq_map]
          refine List.filterMap_congr fun one among => ?_
          simp [takenBy, owned one among]
        have gave : (out.map fun received => (thread, received)).filterMap (returnedTo thread) =
            out.filterMap Received.msg := by
          rw [List.filterMap_map]
          refine List.filterMap_congr fun received _ => ?_
          simp [returnedTo]
        have here : queue.inHand thread = pc.hand := by
          unfold inHand
          rw [at_]
          rfl
        rw [took, gave, here, if_pos rfl]
        exact handles
      · have took : (queue.takes (.receiver caller ret)).filterMap (takenBy thread) = [] := by
          rw [List.filterMap_eq_nil_iff]
          intro one among
          simp [takenBy, owned one among, Ne.symm own]
        have gave : (out.map fun received => (caller, received)).filterMap (returnedTo thread) =
            [] := by
          rw [List.filterMap_map, List.filterMap_eq_nil_iff]
          intro received _
          simp [returnedTo, Ne.symm own]
        rw [took, gave, if_neg own, List.append_nil, List.nil_append]

end NormalQueue

namespace Inbox

variable {inbox : Inbox}

/-- Whatever is put in is taken out in its order, and returned to the thread that took it. -/
structure Inv (inbox : Inbox) : Prop where
  order : inbox.kept = inbox.taken.map Prod.snd ++ inbox.queue.mring
  hands : ∀ thread, (inbox.taken.filterMap (takenBy thread)).map Mbuf.sealed =
    (inbox.returned.filterMap (returnedTo thread) ++ inbox.queue.inHand thread).map Mbuf.sealed

/-- Nothing was queued. -/
theorem init_inv (threads : Nat) : (init threads).Inv := by
  -- Every thread is idle, and has nothing in hand.
  refine ⟨rfl, fun thread => ?_⟩
  have idle : (NormalQueue.init threads).inHand thread = [] := by
    unfold NormalQueue.inHand NormalQueue.init
    dsimp only
    cases at_ : (List.replicate threads MtRcvPc.idle)[thread]? with
    | none => rfl
    | some pc =>
      rw [List.eq_of_mem_replicate (List.mem_of_getElem? at_)]
      rfl
  simp [init, idle]

/-- Each event keeps that. -/
theorem Inv.step (inv : inbox.Inv) (event : QueueEvent) : (inbox.step event).Inv := by
  -- Sources are kept beside the messages, so that each event moves both alike.
  refine ⟨?_, fun thread => ?_⟩
  · have conserves := NormalQueue.step_conserves inbox.queue event
    simp only [Inbox.step, inv.order, List.map_append, List.append_assoc]
    rw [conserves]
  · have hands := NormalQueue.step_hands inbox.queue event thread
    have before := inv.hands thread
    simp only [Inbox.step, List.filterMap_append, List.map_append, List.append_assoc] at *
    rw [before, List.append_assoc, hands]

end Inbox

end Rmr
