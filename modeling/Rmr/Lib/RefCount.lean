import Mathlib.Algebra.BigOperators.Group.Finset.Piecewise

/-! Objects that are shared by containers, each with a count of the containers that refer to it. -/

namespace Rmr

section
variable {ι γ κ : Type*} [DecidableEq ι]

/-- The objects with their keys and counts are exactly those that the containers refer to. -/
structure Exact (containers : Finset γ) (objs : ι → Option (κ × Int))
    (holds : γ → κ → Option ι) : Prop where
  /-- What a container holds under a key is an object with that key. -/
  held : ∀ c ∈ containers, ∀ key id, holds c key = some id → ∃ refs, objs id = some (key, refs)
  /-- The count of an object is that of the containers that hold it, and there is one. -/
  counted : ∀ id key refs, objs id = some (key, refs) →
    0 < refs ∧ refs = ((containers.filter fun c => holds c key = some id).card : Int)

/-- One reference less for each object of a map; the last one frees it. -/
def release (objs : ι → Option (κ × Int)) (map : κ → Option ι) (id : ι) : Option (κ × Int) :=
  (objs id).bind fun obj =>
    if map obj.1 = some id then
      if 0 < obj.2 - 1 then some (obj.1, obj.2 - 1) else none
    else some obj

/-- One reference more for each object of a map. -/
def retain (objs : ι → Option (κ × Int)) (map : κ → Option ι) (id : ι) : Option (κ × Int) :=
  (objs id).map fun obj => if map obj.1 = some id then (obj.1, obj.2 + 1) else obj

/-- A map without the keys of another one. -/
def without (map part : κ → Option ι) (key : κ) : Option ι :=
  if part key = none then map key else none

/-- Giving up a map is giving up one of its keys and then the others. -/
theorem release_first {objs : ι → Option (κ × Int)} {map rest : κ → Option ι} {key : κ} {id : ι}
    {refs : Int} (live : objs id = some (key, refs)) (first : map key = some id)
    (absent : rest key = none) (others : ∀ other, other ≠ key → map other = rest other) :
    release (Function.update objs id (if 0 < refs - 1 then some (key, refs - 1) else none)) rest =
      release objs map := by
  funext other
  by_cases own : other = id
  · -- The object is given up once, as its key does not come again.
    subst own
    by_cases more : 0 < refs - 1
    · rw [if_pos more]
      simp only [release, Function.update_self, live, Option.bind_some, first, absent,
        reduceCtorEq, if_false, if_true, if_pos more]
    · rw [if_neg more]
      simp only [release, Function.update_self, live, Option.bind_some, Option.bind_none, first,
        if_true, if_neg more]
  · rw [release, release, Function.update_of_ne own]
    cases is : objs other with
    | none => rfl
    | some obj =>
      simp only [Option.bind_some]
      by_cases same : obj.1 = key
      · -- Under this key another object is given up.
        have different : ¬ some id = some other := fun equal => own (Option.some.inj equal).symm
        rw [same, absent, first, if_neg (by simp), if_neg different]
      · rw [others _ same]

omit [DecidableEq ι] in
/-- One container that changes changes the count by what it held before and after. -/
theorem card_filter_change [DecidableEq γ] {containers : Finset γ} {c : γ}
    (among : c ∈ containers) (before after : γ → Prop) [DecidablePred before]
    [DecidablePred after] (same : ∀ d ∈ containers, d ≠ c → (after d ↔ before d)) :
    (containers.filter after).card + (if before c then 1 else 0) =
      (containers.filter before).card + (if after c then 1 else 0) := by
  -- Both counts are sums, in which only one term differs.
  rw [Finset.card_filter, Finset.card_filter, ← Finset.add_sum_erase _ _ among,
    ← Finset.add_sum_erase _ _ among]
  have rest : ∑ d ∈ containers.erase c, (if after d then 1 else 0) =
      ∑ d ∈ containers.erase c, (if before d then 1 else 0) := by
    apply Finset.sum_congr rfl
    intro d member
    have apart := Finset.mem_erase.mp member
    simp only [same d apart.2 apart.1]
  rw [rest]
  omega

namespace Exact
variable {containers : Finset γ} {objs : ι → Option (κ × Int)} {holds : γ → κ → Option ι}

variable [DecidableEq γ]

/-- The count of an object after one container changed. -/
theorem card_holders_update (holds : γ → κ → Option ι) {c : γ} (map : κ → Option ι) (key : κ)
    (id : ι) (among : c ∈ containers) :
    (containers.filter fun d => Function.update holds c map d key = some id).card +
        (if holds c key = some id then 1 else 0) =
      (containers.filter fun d => holds d key = some id).card +
        (if map key = some id then 1 else 0) := by
  -- Only the container that changed can be counted in another way.
  have change := card_filter_change among (fun d => holds d key = some id)
    (fun d => Function.update holds c map d key = some id) (by
      intro d _ apart
      rw [Function.update_of_ne apart])
  simpa using change

/-- A container that gives up some of what it holds. -/
theorem release (exact : Exact containers objs holds) {c : γ} (among : c ∈ containers)
    {part : κ → Option ι} (within : ∀ key id, part key = some id → holds c key = some id) :
    Exact containers (Rmr.release objs part)
      (Function.update holds c (without (holds c) part)) := by
  constructor
  · -- What is still held was held before, and more than once if it was also given up.
    intro d member key id still
    have before : holds d key = some id ∧ (d = c → part key = none) := by
      by_cases own : d = c
      · subst own
        rw [Function.update_self] at still
        unfold without at still
        split at still
        · exact ⟨still, fun _ => by assumption⟩
        · simp at still
      · rw [Function.update_of_ne own] at still
        exact ⟨still, fun equal => absurd equal own⟩
    obtain ⟨refs, live⟩ := exact.held d member key id before.1
    obtain ⟨positive, counted⟩ := exact.counted id key refs live
    by_cases given : part key = some id
    · -- Two containers hold the object, so it is not the last reference that goes.
      have apart : c ≠ d := fun equal => by simp [before.2 equal.symm] at given
      have two : 2 ≤ (containers.filter fun e => holds e key = some id).card := by
        have pair : ({c, d} : Finset γ) ⊆ containers.filter fun e => holds e key = some id := by
          intro e member'
          rcases Finset.mem_insert.mp member' with rfl | second
          · exact Finset.mem_filter.mpr ⟨among, within key id given⟩
          · rw [Finset.mem_singleton.mp second]
            exact Finset.mem_filter.mpr ⟨member, before.1⟩
        have := Finset.card_le_card pair
        rwa [Finset.card_pair apart] at this
      refine ⟨refs - 1, ?_⟩
      simp only [Rmr.release, live, Option.bind_some, given, if_true]
      rw [if_pos (by omega)]
    · refine ⟨refs, ?_⟩
      simp [Rmr.release, live, given]
  · intro id key refs live
    have change := card_holders_update holds (without (holds c) part) key id among
    -- The object was live before, with the count that the change takes one from.
    cases was : objs id with
    | none => simp [Rmr.release, was] at live
    | some obj =>
      obtain ⟨key', refs'⟩ := obj
      obtain ⟨positive, counted⟩ := exact.counted id key' refs' was
      simp only [Rmr.release, was, Option.bind_some] at live
      by_cases given : part key' = some id
      · rw [if_pos given] at live
        split at live
        · obtain ⟨rfl, rfl⟩ : key' = key ∧ refs' - 1 = refs := by simpa using live
          have gone : without (holds c) part key' = none := by simp [without, given]
          rw [if_pos (within _ _ given), gone] at change
          simp only [reduceCtorEq, if_false] at change
          omega
        · simp at live
      · rw [if_neg given] at live
        obtain ⟨rfl, rfl⟩ : key' = key ∧ refs' = refs := by simpa using live
        have kept : without (holds c) part key' = some id ↔ holds c key' = some id := by
          unfold without
          split
          · rfl
          · rename_i other
            -- Under this key another object was given up, and that is the one held.
            obtain ⟨gone, is⟩ := Option.ne_none_iff_exists'.mp other
            have held := within _ _ is
            rw [held]
            constructor
            · simp
            · intro equal
              rw [is, equal] at given
              exact absurd rfl given
        simp only [kept] at change
        omega

/-- A container that also holds what others hold. -/
theorem retain (exact : Exact containers objs holds) {c : γ} (among : c ∈ containers)
    {part : κ → Option ι} (live : ∀ key id, part key = some id → ∃ refs, objs id = some (key, refs))
    (free : ∀ key, part key ≠ none → holds c key = none) :
    Exact containers (Rmr.retain objs part)
      (Function.update holds c fun key => (part key).or (holds c key)) := by
  -- Each object of the part has one more reference, and one more container that holds it.
  have held : ∀ id key refs, objs id = some (key, refs) →
      ∃ refs', Rmr.retain objs part id = some (key, refs') := by
    intro id key refs is
    by_cases more : part key = some id
    · exact ⟨refs + 1, by simp [Rmr.retain, is, more]⟩
    · exact ⟨refs, by simp [Rmr.retain, is, more]⟩
  constructor
  · intro d member key id now
    have before : ∃ refs, objs id = some (key, refs) := by
      by_cases own : d = c
      · subst own
        rw [Function.update_self] at now
        cases more : part key with
        | none =>
          rw [more, Option.none_or] at now
          exact exact.held d member key id now
        | some other =>
          rw [more, Option.some_or] at now
          obtain rfl : other = id := by simpa using now
          exact live key other more
      · rw [Function.update_of_ne own] at now
        exact exact.held d member key id now
    obtain ⟨refs, is⟩ := before
    exact held id key refs is
  · intro id key refs is
    have change := card_holders_update holds (fun key => (part key).or (holds c key)) key id among
    cases was : objs id with
    | none => simp [Rmr.retain, was] at is
    | some obj =>
      obtain ⟨key', refs'⟩ := obj
      obtain ⟨positive, counted⟩ := exact.counted id key' refs' was
      simp only [Rmr.retain, was, Option.map_some, Option.some.injEq] at is
      by_cases more : part key' = some id
      · rw [if_pos more] at is
        obtain ⟨rfl, rfl⟩ : key' = key ∧ refs' + 1 = refs := by simpa using is
        have empty := free key' (by simp [more])
        simp only [more, empty, Option.some_or, reduceCtorEq, if_true, if_false] at change
        omega
      · rw [if_neg more] at is
        obtain ⟨rfl, rfl⟩ : key' = key ∧ refs' = refs := by simpa using is
        have kept : (part key').or (holds c key') = some id ↔ holds c key' = some id := by
          cases other : part key' with
          | none => simp
          | some else_ =>
            have empty := free key' (by simp [other])
            rw [other] at more
            simp only [Option.some_or, empty]
            constructor
            · intro equal
              exact absurd equal more
            · simp
        simp only [kept] at change
        omega

/-- A new object that one container holds. -/
theorem fresh [DecidableEq κ] (exact : Exact containers objs holds) {c : γ}
    (among : c ∈ containers) {id : ι}
    (new : objs id = none) {key : κ} (free : holds c key = none) :
    Exact containers (Function.update objs id (some (key, 1)))
      (Function.update holds c (Function.update (holds c) key (some id))) := by
  -- Nothing held the object so far, as it was not there.
  have unheld : ∀ d ∈ containers, ∀ key', holds d key' ≠ some id := by
    intro d member key' is
    obtain ⟨refs, live⟩ := exact.held d member key' id is
    rw [new] at live
    simp at live
  constructor
  · intro d member key' other now
    by_cases own : d = c
    · subst own
      rw [Function.update_self] at now
      by_cases same : key' = key
      · subst same
        rw [Function.update_self] at now
        obtain rfl : id = other := by simpa using now
        exact ⟨1, by rw [Function.update_self]⟩
      · rw [Function.update_of_ne same] at now
        have different : other ≠ id := fun equal => unheld d member key' (equal ▸ now)
        rw [Function.update_of_ne different]
        exact exact.held d member key' other now
    · rw [Function.update_of_ne own] at now
      have different : other ≠ id := fun equal => unheld d member key' (equal ▸ now)
      rw [Function.update_of_ne different]
      exact exact.held d member key' other now
  · intro other key' refs is
    have change := card_holders_update holds (Function.update (holds c) key (some id))
      key' other among
    by_cases own : other = id
    · subst own
      rw [Function.update_self] at is
      obtain ⟨rfl, rfl⟩ : key = key' ∧ 1 = refs := by simpa using is
      have none_ : (containers.filter fun d => holds d key = some other).card = 0 := by
        rw [Finset.card_eq_zero, Finset.filter_eq_empty_iff]
        exact fun d member => unheld d member key
      rw [free, Function.update_self, none_] at change
      simp only [reduceCtorEq, if_false, if_true] at change
      omega
    · rw [Function.update_of_ne own] at is
      obtain ⟨positive, counted⟩ := exact.counted other key' refs is
      have kept : Function.update (holds c) key (some id) key' = some other ↔
          holds c key' = some other := by
        by_cases same : key' = key
        · subst same
          rw [Function.update_self, free]
          constructor
          · intro equal
            exact absurd (Option.some.inj equal).symm own
          · simp
        · rw [Function.update_of_ne same]
      simp only [kept] at change
      omega

/-- A container that holds nothing may be put among the others. -/
theorem join (exact : Exact containers objs holds) {c : γ} {map : κ → Option ι}
    (apart : c ∉ containers) (empty : ∀ key, map key = none) :
    Exact (insert c containers) objs (Function.update holds c map) := by
  -- The new container holds nothing, so that neither the references nor their owners change.
  have others : ∀ d ∈ containers, Function.update holds c map d = holds d := by
    intro d member
    have different : d ≠ c := fun equal => apart (equal ▸ member)
    rw [Function.update_of_ne different]
  constructor
  · intro d member key id now
    rcases Finset.mem_insert.mp member with rfl | earlier
    · rw [Function.update_self, empty] at now
      simp at now
    · rw [others d earlier] at now
      exact exact.held d earlier key id now
  · intro id key refs is
    obtain ⟨positive, counted⟩ := exact.counted id key refs is
    have same : (insert c containers).filter
          (fun d => Function.update holds c map d key = some id) =
        containers.filter fun d => holds d key = some id := by
      rw [Finset.filter_insert, Function.update_self, empty, if_neg (by simp)]
      exact Finset.filter_congr fun d member => by rw [others d member]
    rw [same]
    exact ⟨positive, counted⟩

/-- A container that holds nothing may be left out. -/
theorem leave (exact : Exact containers objs holds) {c : γ} (empty : ∀ key, holds c key = none) :
    Exact (containers.erase c) objs holds := by
  -- What is left out held nothing, so that the count of the owners of an object stays.
  constructor
  · intro d member
    exact exact.held d (Finset.mem_of_mem_erase member)
  · intro id key refs is
    obtain ⟨positive, counted⟩ := exact.counted id key refs is
    have same : (containers.erase c).filter (fun d => holds d key = some id) =
        containers.filter fun d => holds d key = some id := by
      rw [Finset.filter_erase, Finset.erase_eq_of_notMem]
      simp [empty]
    rw [same]
    exact ⟨positive, counted⟩

omit [DecidableEq γ] in
/-- Only what the containers hold matters. -/
theorem congr (exact : Exact containers objs holds) {holds' : γ → κ → Option ι}
    (same : ∀ c ∈ containers, ∀ key, holds' c key = holds c key) :
    Exact containers objs holds' := by
  -- The containers that hold an object are filtered by what they hold, which is the same.
  constructor
  · intro c member key id now
    rw [same c member] at now
    exact exact.held c member key id now
  · intro id key refs is
    obtain ⟨positive, counted⟩ := exact.counted id key refs is
    have equal : containers.filter (fun c => holds' c key = some id) =
        containers.filter fun c => holds c key = some id :=
      Finset.filter_congr fun c member => by rw [same c member]
    rw [equal]
    exact ⟨positive, counted⟩

end Exact

end

end Rmr
