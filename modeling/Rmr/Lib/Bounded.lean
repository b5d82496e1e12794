import Rmr.Lib.Run

/-! Queues of bounded length, and what answers calls as such a queue does. -/

namespace Rmr

/-- A call on a queue. -/
inductive QueueCall (α : Type*) where
  | insert (item : α)
  | extract

/-- What a call answers. -/
inductive QueueAnswer (α : Type*) where
  | inserted
  | full
  | extracted (item : Option α)
  deriving DecidableEq

section
universe u
variable {ε ι ω : Type*} {σ : Type u}

/-- Calls one after the other, with what they answer. -/
def answers (call : σ → ι → σ × ω) : σ → List ι → σ × List ω
  | state, [] => (state, [])
  | state, first :: rest =>
    let (next, answer) := call state first
    let (final, more) := answers call next rest
    (final, answer :: more)

/-- Calls one after the other, each of which may end in a fault. -/
def answersM (call : σ → ι → Except ε (σ × ω)) : σ → List ι → Except ε (σ × List ω)
  | state, [] => .ok (state, [])
  | state, first :: rest =>
    match call state first with
    | .error fault => .error fault
    | .ok (next, answer) =>
      match answersM call next rest with
      | .error fault => .error fault
      | .ok (final, more) => .ok (final, answer :: more)

/-- Where each call goes through with the answer of what it is related to, and stays related, calls
of any number do. -/
theorem answersM_simulates {τ : Type*} {call : σ → ι → Except ε (σ × ω)} {view : τ → ι → τ × ω}
    {Rel : σ → τ → Prop}
    (keeps : ∀ {state seen} (input), Rel state seen →
      ∃ next, call state input = .ok (next, (view seen input).2) ∧ Rel next (view seen input).1)
    (inputs : List ι) {start : σ} {seen : τ} (related : Rel start seen) :
    ∃ final, answersM call start inputs = .ok (final, (answers view seen inputs).2) ∧
      Rel final (answers view seen inputs).1 := by
  -- By induction on the inputs: each call answers as the view does, and relates where it leads.
  induction inputs generalizing start seen with
  | nil => exact ⟨start, rfl, related⟩
  | cons input inputs ih =>
    obtain ⟨next, called, onward⟩ := keeps input related
    obtain ⟨final, rest, ends⟩ := ih onward
    refine ⟨final, ?_, ends⟩
    simp only [answersM, called, rest, answers]

end

namespace Bounded
variable {α : Type*}

/-- A call on a queue that may have `capacity` items. -/
def call (capacity : Nat) (queue : List α) : QueueCall α → List α × QueueAnswer α
  | .insert item =>
    if queue.length < capacity then (queue ++ [item], .inserted) else (queue, .full)
  | .extract => (queue.tail, .extracted queue.head?)

/-- The items that calls put into a queue. -/
def accepted : List (QueueCall α) → List (QueueAnswer α) → List α
  | .insert item :: calls, .inserted :: answers => item :: accepted calls answers
  | _ :: calls, _ :: answers => accepted calls answers
  | _, _ => []

/-- The items that calls took out of it. -/
def delivered : List (QueueAnswer α) → List α
  | .extracted (some item) :: answers => item :: delivered answers
  | _ :: answers => delivered answers
  | [] => []

/-- Items come out once each, in the order in which they were put in. -/
theorem delivered_append_queue (capacity : Nat) (calls : List (QueueCall α)) (queue : List α) :
    delivered (answers (call capacity) queue calls).2 ++ (answers (call capacity) queue calls).1 =
      queue ++ accepted calls (answers (call capacity) queue calls).2 := by
  -- Each call moves one item at most, from the calls to the queue or from the queue to the answers.
  induction calls generalizing queue with
  | nil => simp [answers, delivered, accepted]
  | cons first calls ih =>
    cases first with
    | insert item =>
      by_cases room : queue.length < capacity
      · have behind := ih (queue ++ [item])
        simp only [answers, call, if_pos room, delivered, accepted]
        rw [behind, List.append_assoc, List.singleton_append]
      · simpa only [answers, call, if_neg room, delivered, accepted] using ih queue
    | extract =>
      have behind := ih queue.tail
      cases queue with
      | nil => exact behind
      | cons item queue =>
        simp only [answers, call, List.head?_cons, List.tail_cons, delivered, accepted] at behind ⊢
        rw [List.cons_append, behind, List.cons_append]

end Bounded

end Rmr
