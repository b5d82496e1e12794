import Mathlib.Data.List.Basic

/-! Runs of a fallible step function over a list of inputs, and invariants along them. -/

namespace Rmr

section
universe u
variable {ε α : Type*} {σ : Type u} {step : σ → α → Except ε σ}

/-- A computation in sequence succeeds exactly when both of its parts do. -/
theorem bind_eq_ok {mid : Type u} {first : Except ε mid} {next : mid → Except ε σ} {out : σ} :
    first >>= next = .ok out ↔ ∃ value, first = .ok value ∧ next value = .ok out := by
  -- Where the first part fails neither side holds.
  cases first with
  | error fault => simp [Bind.bind, Except.bind]
  | ok mid => simp [Bind.bind, Except.bind]

/-- What comes after a computation that succeeds. -/
theorem ok_bind {mid : Type u} (value : mid) (next : mid → Except ε σ) :
    (Except.ok value : Except ε mid) >>= next = next value := rfl

/-- A run of one input more succeeds through the state after that input. -/
theorem foldlM_cons_ok {input : α} {inputs : List α} {start final : σ} :
    (input :: inputs).foldlM step start = .ok final ↔
      ∃ mid, step start input = .ok mid ∧ inputs.foldlM step mid = .ok final := by
  rw [List.foldlM_cons]
  exact bind_eq_ok

/-- A run of two lists of inputs succeeds through the state between them. -/
theorem foldlM_append_ok {first second : List α} {start final : σ} :
    (first ++ second).foldlM step start = .ok final ↔
      ∃ mid, first.foldlM step start = .ok mid ∧ second.foldlM step mid = .ok final := by
  rw [List.foldlM_append]
  exact bind_eq_ok

/-- What every step preserves holds in every state a run reaches. -/
theorem foldlM_invariant (Inv : σ → Prop)
    (keeps : ∀ {start input next}, Inv start → step start input = .ok next → Inv next)
    {inputs : List α} {start final : σ} (holds : Inv start)
    (ran : inputs.foldlM step start = .ok final) : Inv final := by
  -- By induction on the inputs: the first step hands the invariant to the rest of the run.
  induction inputs generalizing start with
  | nil =>
    cases ran
    exact holds
  | cons input inputs ih =>
    obtain ⟨mid, stepped, rest⟩ := foldlM_cons_ok.mp ran
    exact ih (keeps holds stepped) rest

/-- There is an outcome, and something holds of it. -/
def Yields (Holds : σ → Prop) : Except ε σ → Prop
  | .ok out => Holds out
  | .error _ => False

instance (Holds : σ → Prop) [DecidablePred Holds] (outcome : Except ε σ) :
    Decidable (Yields Holds outcome) :=
  match outcome with
  | .ok out => inferInstanceAs (Decidable (Holds out))
  | .error _ => inferInstanceAs (Decidable False)

/-- What an outcome is known to be yields what holds of it. -/
theorem Yields.of_ok {Holds : σ → Prop} {outcome : Except ε σ} {out : σ}
    (yields : Yields Holds outcome) (is : outcome = .ok out) : Holds out := by
  rw [is] at yields
  exact yields

/-- Where something holds of the outcome, there is one. -/
theorem Yields.exists {Holds : σ → Prop} {outcome : Except ε σ} (yields : Yields Holds outcome) :
    ∃ out, outcome = .ok out ∧ Holds out := by
  cases outcome with
  | ok out => exact ⟨out, rfl, yields⟩
  | error fault => exact yields.elim

/-- What holds of the outcome is yielded. -/
theorem Yields.intro {Holds : σ → Prop} {outcome : Except ε σ} {out : σ} (is : outcome = .ok out)
    (holds : Holds out) : Yields Holds outcome := by
  rw [is]
  exact holds

attribute [irreducible] Yields

/-- A computation ends in a state of which something holds, or with a fault that is allowed for. -/
def Ends (allowed : ε → Prop) (Holds : σ → Prop) : Except ε σ → Prop
  | .ok out => Holds out
  | .error fault => allowed fault

/-- Computations in sequence end as the second one does where the first one leaves off. -/
theorem Ends.bind {mid : Type u} {allowed : ε → Prop} {Mid : mid → Prop} {Holds : σ → Prop}
    {first : Except ε mid} {next : mid → Except ε σ} (begins : Ends allowed Mid first)
    (goesOn : ∀ value, Mid value → Ends allowed Holds (next value)) :
    Ends allowed Holds (first >>= next) := by
  -- The second part is only run where the first one succeeds.
  cases first with
  | error fault => exact begins
  | ok value => exact goesOn value begins

/-- What an end holds may be weakened. -/
theorem Ends.imp {allowed : ε → Prop} {Holds Weaker : σ → Prop} {outcome : Except ε σ}
    (ends : Ends allowed Holds outcome) (weakens : ∀ out, Holds out → Weaker out) :
    Ends allowed Weaker outcome := by
  cases outcome with
  | error fault => exact ends
  | ok out => exact weakens out ends

/-- More faults may be allowed for. -/
theorem Ends.allow {allowed more : ε → Prop} {Holds : σ → Prop} {outcome : Except ε σ}
    (ends : Ends allowed Holds outcome) (allows : ∀ fault, allowed fault → more fault) :
    Ends more Holds outcome := by
  cases outcome with
  | error fault => exact allows fault ends
  | ok out => exact ends

/-- Where no fault is allowed for, there is an outcome. -/
theorem Ends.exists {allowed : ε → Prop} {Holds : σ → Prop} {outcome : Except ε σ}
    (ends : Ends allowed Holds outcome) (never : ∀ fault, ¬ allowed fault) :
    ∃ out, outcome = .ok out ∧ Holds out := by
  cases outcome with
  | error fault => exact absurd ends (never fault)
  | ok out => exact ⟨out, rfl, ends⟩

/-- What every step keeps, a run keeps, unless it ends with a fault that is allowed for. -/
theorem foldlM_ends {allowed : ε → Prop} {Inv : σ → Prop}
    (keeps : ∀ {state} (input), Inv state → Ends allowed Inv (step state input))
    (inputs : List α) {start : σ} (holds : Inv start) :
    Ends allowed Inv (inputs.foldlM step start) := by
  -- By induction on the inputs: one step, and a run from where it leaves off.
  induction inputs generalizing start with
  | nil => exact holds
  | cons input inputs ih =>
    rw [List.foldlM_cons]
    exact (keeps input holds).bind fun next held => ih held

/-- Something holds of every state that a run gets to, with the input that comes next. -/
def Along (step : σ → α → Except ε σ) (Cond : σ → α → Prop) : σ → List α → Prop
  | _, [] => True
  | state, input :: inputs => Cond state input ∧
    match step state input with
    | .ok next => Along step Cond next inputs
    | .error _ => True

instance decidableAlong (step : σ → α → Except ε σ) (Cond : σ → α → Prop)
    [decides : ∀ state input, Decidable (Cond state input)] :
    (state : σ) → (inputs : List α) → Decidable (Along step Cond state inputs)
  | _, [] => isTrue trivial
  | state, input :: inputs =>
    have : Decidable (match step state input with
        | .ok next => Along step Cond next inputs
        | .error _ => True) :=
      match step state input with
      | .ok next => decidableAlong step Cond next inputs
      | .error _ => isTrue trivial
    inferInstanceAs (Decidable (_ ∧ _))

/-- Something holds along a run when it holds at the first step, and along the rest of the run where
that step goes on. -/
theorem along_cons {Cond : σ → α → Prop} {state : σ} {input : α} {inputs : List α} :
    Along step Cond state (input :: inputs) ↔
      Cond state input ∧ ∀ next, step state input = .ok next → Along step Cond next inputs := by
  rw [Along]
  refine and_congr_right fun _ => ?_
  cases step state input with
  | ok next => simp
  | error fault => simp

/-- Where each step that meets the condition goes on and keeps the invariant, a run whose steps all
meet the condition goes through. -/
theorem Along.goes {Cond : σ → α → Prop} {Inv : σ → Prop}
    (keeps : ∀ {state input}, Inv state → Cond state input →
      ∃ next, step state input = .ok next ∧ Inv next)
    {inputs : List α} {start : σ} (holds : Inv start) (along : Along step Cond start inputs) :
    ∃ final, inputs.foldlM step start = .ok final ∧ Inv final := by
  -- By induction on the inputs: the condition met by the first step gives the state to go on from.
  induction inputs generalizing start with
  | nil => exact ⟨start, rfl, holds⟩
  | cons input inputs ih =>
    obtain ⟨meets, rest⟩ := along
    obtain ⟨next, stepped, held⟩ := keeps holds meets
    rw [stepped] at rest
    obtain ⟨final, ran, last⟩ := ih held rest
    exact ⟨final, foldlM_cons_ok.mpr ⟨next, stepped, ran⟩, last⟩

/-- Where each step that meets the condition keeps the invariant, it holds wherever a run gets to
whose steps all meet the condition. -/
theorem Along.keeps {Cond : σ → α → Prop} {Inv : σ → Prop}
    (keeps : ∀ {state input next}, Inv state → Cond state input → step state input = .ok next →
      Inv next)
    {inputs : List α} {start final : σ} (holds : Inv start) (along : Along step Cond start inputs)
    (ran : inputs.foldlM step start = .ok final) : Inv final := by
  -- By induction on the inputs, with the condition of the rest taken along from state to state.
  induction inputs generalizing start with
  | nil =>
    cases ran
    exact holds
  | cons input inputs ih =>
    obtain ⟨meets, rest⟩ := along
    obtain ⟨next, stepped, ran⟩ := foldlM_cons_ok.mp ran
    rw [stepped] at rest
    exact ih (keeps holds meets stepped) rest ran

/-- What the condition gives in every state that the invariant holds of, it gives along a run. -/
theorem Along.imp {Cond Then : σ → α → Prop} {Inv : σ → Prop}
    (keeps : ∀ {state input next}, Inv state → Cond state input → step state input = .ok next →
      Inv next)
    (gives : ∀ {state input}, Inv state → Cond state input → Then state input)
    {inputs : List α} {start : σ} (holds : Inv start) (along : Along step Cond start inputs) :
    Along step Then start inputs := by
  -- By induction on the inputs; a step that fails leaves nothing to show of the rest.
  induction inputs generalizing start with
  | nil => trivial
  | cons input inputs ih =>
    obtain ⟨meets, rest⟩ := along
    refine ⟨gives holds meets, ?_⟩
    cases stepped : step start input with
    | error fault => trivial
    | ok next =>
      rw [stepped] at rest
      exact ih (keeps holds meets stepped) rest

/-- Something holds of every state that a run of steps that cannot fail gets to, with the input that
comes next. -/
def Throughout {τ β : Type*} (step : τ → β → τ) (Cond : τ → β → Prop) : τ → List β → Prop
  | _, [] => True
  | state, input :: inputs => Cond state input ∧ Throughout step Cond (step state input) inputs

instance decidableThroughout {τ β : Type*} (step : τ → β → τ) (Cond : τ → β → Prop)
    [decides : ∀ state input, Decidable (Cond state input)] :
    (state : τ) → (inputs : List β) → Decidable (Throughout step Cond state inputs)
  | _, [] => isTrue trivial
  | state, input :: inputs =>
    have : Decidable (Throughout step Cond (step state input) inputs) :=
      decidableThroughout step Cond (step state input) inputs
    inferInstanceAs (Decidable (_ ∧ _))

/-- Where each step that meets the condition keeps the invariant, it holds wherever a run gets to
whose steps all meet the condition. -/
theorem Throughout.keeps {τ β : Type*} {step : τ → β → τ} {Cond : τ → β → Prop} {Inv : τ → Prop}
    (keeps : ∀ {state input}, Inv state → Cond state input → Inv (step state input))
    {inputs : List β} {start : τ} (holds : Inv start)
    (throughout : Throughout step Cond start inputs) : Inv (inputs.foldl step start) := by
  -- By induction on the inputs; the condition for the rest is about the state after the first step.
  induction inputs generalizing start with
  | nil => exact holds
  | cons input inputs ih =>
    obtain ⟨meets, rest⟩ := throughout
    exact ih (keeps holds meets) rest

/-- A fallible outcome and the one it is an implementation of: both are there and related, or
neither is. -/
inductive Agree {τ : Type*} (Rel : σ → τ → Prop) : Except ε σ → Option τ → Prop where
  | ok {state : σ} {view : τ} (related : Rel state view) : Agree Rel (.ok state) (some view)
  | fault (fault : ε) : Agree Rel (.error fault) none

/-- Runs agree when each step of the one agrees with that of the other. -/
theorem foldlM_agree {τ : Type*} {Rel : σ → τ → Prop} {viewStep : τ → α → Option τ}
    (keeps : ∀ {state view} (input), Rel state view →
      Agree Rel (step state input) (viewStep view input))
    (inputs : List α) {start : σ} {view : τ} (related : Rel start view) :
    Agree Rel (inputs.foldlM step start) (inputs.foldlM viewStep view) := by
  induction inputs generalizing start view with
  | nil => exact .ok related
  | cons input inputs ih =>
    -- The first step either goes on related, or ends both runs.
    rw [List.foldlM_cons, List.foldlM_cons]
    cases first : step start input with
    | ok next =>
      have agree := keeps input related
      rw [first] at agree
      generalize viewStep view input = viewNext at agree
      cases agree with
      | ok onward => exact ih onward
    | error fault =>
      have agree := keeps input related
      rw [first] at agree
      generalize viewStep view input = viewNext at agree
      cases agree with
      | fault => exact .fault fault

/-- Two fallible outcomes that are both there and related, or both not there. -/
inductive Both {τ : Type*} (Rel : σ → τ → Prop) : Except ε σ → Except ε τ → Prop where
  | ok {first : σ} {second : τ} (related : Rel first second) : Both Rel (.ok first) (.ok second)
  | fault (first second : ε) : Both Rel (.error first) (.error second)

/-- Outcomes that implement the same one are both there, or both not. -/
theorem Agree.both {τ : Type*} {Rel : σ → τ → Prop} {first second : Except ε σ}
    {view : Option τ} (firstAgrees : Agree Rel first view) (secondAgrees : Agree Rel second view) :
    Both (fun one other => ∃ shared, Rel one shared ∧ Rel other shared) first second := by
  -- Either both outcomes relate to the value of the view, or the view has none and both are faults.
  cases firstAgrees with
  | ok related =>
    cases secondAgrees with
    | ok otherRelated => exact .ok ⟨_, related, otherRelated⟩
  | fault fault =>
    cases secondAgrees with
    | fault other => exact .fault fault other

/-- What both outcomes are followed by. -/
theorem Both.bind {σ₁ τ τ₁ : Type u} {Rel : σ → τ → Prop} {Rel₁ : σ₁ → τ₁ → Prop}
    {first : Except ε σ} {second : Except ε τ} {next : σ → Except ε σ₁}
    {after : τ → Except ε τ₁} (both : Both Rel first second)
    (keeps : ∀ {one other}, first = .ok one → Rel one other → Both Rel₁ (next one) (after other)) :
    Both Rel₁ (first >>= next) (second >>= after) := by
  -- A fault on both sides ends both.
  cases both with
  | ok related => exact keeps rfl related
  | fault one other => exact .fault one other

/-- Outcomes related in one way are related in any way that follows. -/
theorem Both.imp {τ : Type*} {Rel Rel₁ : σ → τ → Prop} {first : Except ε σ}
    {second : Except ε τ} (both : Both Rel first second)
    (implies : ∀ {one other}, Rel one other → Rel₁ one other) : Both Rel₁ first second := by
  cases both with
  | ok related => exact .ok (implies related)
  | fault one other => exact .fault one other

/-- Runs over inputs that go together stay together when each step does. -/
theorem foldlM_both {τ : Type u} {β : Type*} {Rel : σ → τ → Prop} {InRel : α → β → Prop}
    {otherStep : τ → β → Except ε τ}
    (keeps : ∀ one other input otherInput, Rel one other → InRel input otherInput →
      Both Rel (step one input) (otherStep other otherInput))
    {inputs : List α} {otherInputs : List β} (together : List.Forall₂ InRel inputs otherInputs)
    {start : σ} {otherStart : τ} (related : Rel start otherStart) :
    Both Rel (inputs.foldlM step start) (otherInputs.foldlM otherStep otherStart) := by
  -- By induction on the pairs of inputs: each pair takes related states to related ones.
  induction together generalizing start otherStart with
  | nil => exact .ok related
  | cons first _ ih =>
    rw [List.foldlM_cons, List.foldlM_cons]
    exact (keeps _ _ _ _ related first).bind fun _ onward => ih onward

/-- Two outcomes that are both there and related, or the same fault. -/
inductive Matched {τ : Type*} (Rel : σ → τ → Prop) : Except ε σ → Except ε τ → Prop where
  | ok {first : σ} {second : τ} (related : Rel first second) : Matched Rel (.ok first) (.ok second)
  | fault (fault : ε) : Matched Rel (.error fault) (.error fault)

/-- One computation followed by two that match. -/
theorem matched_bind {mid : Type u} {τ : Type u} {Rel : σ → τ → Prop} (first : Except ε mid)
    {next : mid → Except ε σ} {after : mid → Except ε τ}
    (matched : ∀ value, Matched Rel (next value) (after value)) :
    Matched Rel (first >>= next) (first >>= after) := by
  cases first with
  | error fault => exact .fault fault
  | ok value => exact matched value

/-- Runs over the same inputs stay matched when each step does. -/
theorem foldlM_matched {τ : Type u} {Rel : σ → τ → Prop} {otherStep : τ → α → Except ε τ}
    (keeps : ∀ {one other} (input), Rel one other →
      Matched Rel (step one input) (otherStep other input))
    (inputs : List α) {start : σ} {otherStart : τ} (related : Rel start otherStart) :
    Matched Rel (inputs.foldlM step start) (inputs.foldlM otherStep otherStart) := by
  induction inputs generalizing start otherStart with
  | nil => exact .ok related
  | cons input inputs ih =>
    have first := keeps input related
    rw [List.foldlM_cons, List.foldlM_cons]
    -- The first step either goes on related, or ends both runs with one fault.
    generalize step start input = outcome at first
    generalize otherStep otherStart input = otherOutcome at first
    cases first with
    | ok onward => exact ih onward
    | fault fault => exact .fault fault

end

end Rmr
