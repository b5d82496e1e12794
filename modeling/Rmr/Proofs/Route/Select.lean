import Rmr.Proofs.Route.Edit
import Rmr.Route.Select

/-! What the round robin selection selects: an endpoint at each call, and each of them in turn. -/

namespace Rmr

variable {rte next : RrEntry} {rrgroups : List (Option RrGroup)} {rrg : RrGroup}
  {group : Nat} {linked : CStr → Bool}

/-- The place that is selected is one of those in use. -/
theorem rrPlace_lt {nused : Nat} (used : 1 ≤ nused) (epIdx : UInt16) :
    rrPlace nused epIdx < nused := by
  -- A single endpoint is at place zero, and a remainder is below the divisor.
  unfold rrPlace
  split
  · omega
  · exact Nat.mod_lt _ used

/-- A good group has an endpoint at each of its places. -/
theorem RrGroup.Good.endpoint (good : rrg.Good) {idx : Nat} (inside : idx < rrg.epts.length) :
    ∃ ep, rrg.epts[idx]? = some (some ep) := by
  -- A nil pointer at the place would be one in the list.
  cases at_ : rrg.epts[idx] with
  | none => exact absurd (at_ ▸ List.getElem_mem inside) good.filled
  | some ep => exact ⟨ep, by rw [List.getElem?_eq_getElem inside, at_]⟩

/-- The counter after a selection in a group. -/
def RrEntry.moved (rte : RrEntry) (group : Nat) (nused : Nat) : RrEntry :=
  if nused = 1 then rte
  else { rte with epIdx := Function.update rte.epIdx group (rte.epIdx group + 1) }

/-- Whether there is something in the slot after a group. -/
def moreAfter (rrgroups : List (Option RrGroup)) (group : Nat) : Bool :=
  ((rrgroups[group + 1]?).getD none).isSome

/-- A selection in a good group. -/
theorem utaEpsockRr_group (rte : RrEntry) (there : rte.rrgroups[group]? = some (some rrg))
    (good : rrg.Good)
    (linked : CStr → Bool) : ∃ ep, rrg.epts[rrPlace rrg.epts.length (rte.epIdx group)]? =
      some (some ep) ∧
      utaEpsockRr rte group linked = .ok (rte.moved group rrg.epts.length,
        ⟨moreAfter rte.rrgroups group, some (rrPlace rrg.epts.length (rte.epIdx group), ep),
          if linked ep then rrPlace rrg.epts.length (rte.epIdx group) + 1 else 0⟩) := by
  obtain ⟨ep, found⟩ := good.endpoint (rrPlace_lt good.used (rte.epIdx group))
  obtain ⟨inside, _⟩ := List.getElem?_eq_some_iff.mp there
  refine ⟨ep, found, ?_⟩
  -- The group number is in range, and the group has endpoints.
  have range : ¬((group : Int) < 0 ∨ (rte.rrgroups.length : Int) ≤ group) := by omega
  have some_ : ¬rrg.epts.length = 0 := Nat.ne_of_gt good.used
  unfold utaEpsockRr
  rw [if_neg range]
  simp only [Int.toNat_natCast, there, if_neg some_, found]
  rfl

/-- A selection in a slot that is nil, or not there. -/
theorem utaEpsockRr_nil (rte : RrEntry) (absent : ∀ rrg, rte.rrgroups[group]? ≠ some (some rrg))
    (linked : CStr → Bool) : utaEpsockRr rte group linked = .ok (rte, ⟨false, none, 0⟩) := by
  unfold utaEpsockRr
  split
  · rfl
  · -- What is in the slot is looked at, and it is no group.
    rw [Int.toNat_natCast]
    cases slot : rte.rrgroups[group]? with
    | none => rfl
    | some what =>
      cases what with
      | none => rfl
      | some rrg => exact absurd slot (absent rrg)

/-- A selection in a group below the first one. -/
theorem utaEpsockRr_negative {group : Int} (negative : group < 0) :
    utaEpsockRr rte group linked = .ok (rte, ⟨false, none, 0⟩) := by
  unfold utaEpsockRr
  rw [if_pos (Or.inl negative)]

section
variable {groups : List RrGroup}

/-- What is in a slot when the groups come first. -/
theorem slot_of_front (more : Nat) (rrg : RrGroup) (group : Nat) :
    (groups.map some ++ List.replicate more none)[group]? = some (some rrg) ↔
      groups[group]? = some rrg := by
  by_cases inside : group < groups.length
  · rw [List.getElem?_append_left (by simpa using inside), List.getElem?_map]
    simp
  · -- Behind the groups all slots are nil.
    rw [List.getElem?_append_right (by simpa using Nat.not_lt.mp inside),
      List.getElem?_replicate, List.getElem?_eq_none (Nat.not_lt.mp inside)]
    split
    · simp
    · simp

/-- There is a later group exactly when the next slot has one. -/
theorem hasLater_front (more group : Nat) :
    HasLater (groups.map some ++ List.replicate more none) group ↔ group + 1 < groups.length := by
  -- The slots hold the groups in front, and nothing behind them.
  constructor
  · rintro ⟨later, rrg, after, slot⟩
    obtain ⟨inside, _⟩ := List.getElem?_eq_some_iff.mp ((slot_of_front more rrg later).mp slot)
    omega
  · intro inside
    exact ⟨group + 1, groups[group + 1], Nat.lt_succ_self group,
      (slot_of_front more _ _).mpr (List.getElem?_eq_getElem inside)⟩

/-- The next slot is not nil exactly when there is a later group. -/
theorem moreAfter_front (more group : Nat) :
    moreAfter (groups.map some ++ List.replicate more none) group = true ↔
      group + 1 < groups.length := by
  unfold moreAfter
  by_cases inside : group + 1 < groups.length
  · rw [(slot_of_front more groups[group + 1] _).mpr (List.getElem?_eq_getElem inside)]
    simp [inside]
  · -- The slot is nil or not there at all.
    cases slot : (groups.map some ++ List.replicate more none)[group + 1]? with
    | none => simp [inside]
    | some what =>
      cases what with
      | none => simp [inside]
      | some rrg =>
        obtain ⟨short, _⟩ := List.getElem?_eq_some_iff.mp ((slot_of_front more rrg _).mp slot)
        exact absurd short inside

end

/-- With good groups a selection does not fail, and leaves the groups as they are. -/
theorem GroupsGood.selects (good : GroupsGood rte.rrgroups) (group : Int) (linked : CStr → Bool) :
    ∃ next answer, utaEpsockRr rte group linked = .ok (next, answer) ∧
      next.rrgroups = rte.rrgroups := by
  by_cases negative : group < 0
  · exact ⟨rte, _, utaEpsockRr_negative negative, rfl⟩
  · obtain ⟨at_, rfl⟩ := Int.eq_ofNat_of_zero_le (Int.not_lt.mp negative)
    by_cases absent : ∀ rrg, rte.rrgroups[at_]? ≠ some (some rrg)
    · exact ⟨rte, _, utaEpsockRr_nil rte absent linked, rfl⟩
    · -- There is a group, and it is one of the good ones.
      push Not at absent
      obtain ⟨rrg, there⟩ := absent
      obtain ⟨groups, more, shape, all⟩ := good
      have one : rrg ∈ groups := by
        rw [shape] at there
        exact List.mem_of_getElem? ((slot_of_front more rrg at_).mp there)
      obtain ⟨ep, _, selected⟩ := utaEpsockRr_group rte there (all rrg one) linked
      refine ⟨_, _, selected, ?_⟩
      unfold RrEntry.moved
      split
      · rfl
      · rfl

/-- With good groups no call fails, however many there are. -/
theorem GroupsGood.runs (rte : RrEntry) (good : GroupsGood rte.rrgroups) (calls : List RrCall) :
    ∃ result, rrRun rte calls = .ok result := by
  -- By induction on the calls: a selection leaves good groups, and the next one has them.
  induction calls generalizing rte with
  | nil => exact ⟨_, rfl⟩
  | cons call calls ih =>
    obtain ⟨next, answer, selected, same⟩ := good.selects call.1 call.2
    obtain ⟨⟨last, answers⟩, rest⟩ := ih next (same ▸ good)
    refine ⟨(last, (call.1, answer) :: answers), bind_eq_ok.mpr ⟨_, selected, ?_⟩⟩
    exact bind_eq_ok.mpr ⟨_, rest, rfl⟩

/-- Good groups serve those who send with them. -/
theorem GroupsGood.serves (good : GroupsGood rrgroups) : Serves rrgroups where
  good := good
  safe := fun epIdx calls => GroupsGood.runs ⟨rrgroups, epIdx⟩ good calls
  promised := by
    intro epIdx group linked result returned
    obtain ⟨groups, more, rfl, all⟩ := good
    rw [hasLater_front]
    by_cases inside : group < groups.length
    · -- There is a group, and the slot after it tells whether there is another one.
      have there := (slot_of_front more groups[group] group).mpr
        (List.getElem?_eq_getElem inside)
      obtain ⟨ep, _, selected⟩ := utaEpsockRr_group
        ⟨groups.map some ++ List.replicate more none, epIdx⟩ there
        (all _ (List.getElem_mem inside)) linked
      rw [selected] at returned
      obtain rfl := Option.some.inj returned
      exact moreAfter_front more group
    · have absent : ∀ rrg, (groups.map some ++ List.replicate more none)[group]? ≠
          some (some rrg) := by
        intro rrg slot
        obtain ⟨short, _⟩ := List.getElem?_eq_some_iff.mp ((slot_of_front more rrg group).mp slot)
        exact inside short
      rw [utaEpsockRr_nil ⟨groups.map some ++ List.replicate more none, epIdx⟩ absent
        linked] at returned
      obtain rfl := Option.some.inj returned
      have short : ¬ group + 1 < groups.length := by omega
      simp [short]
  ended := by
    intro group nil_ later
    obtain ⟨groups, more, rfl, _⟩ := good
    -- A slot with a group after it is among the groups.
    have inside := (hasLater_front more group).mp later
    have there := (slot_of_front more groups[group] group).mpr
      (List.getElem?_eq_getElem (by omega))
    rw [there] at nil_
    cases nil_

section
variable {calls : List RrCall} {answers : List (Int × RrAnswer)}

/-- The places that calls select in a group, from a counter on. -/
theorem rrRun_picks (rte : RrEntry) (there : rte.rrgroups[group]? = some (some rrg))
    (good : rrg.Good) (count : Nat)
    (counter : rrg.epts.length = 1 ∨ rte.epIdx group = UInt16.ofNat count)
    (ran : rrRun rte calls = .ok (next, answers)) :
    picksIn group answers = (List.range' count (calls.countP (·.1 = (group : Int)))).map
      fun k => k % 65536 % rrg.epts.length := by
  induction calls generalizing rte count answers with
  | nil =>
    obtain ⟨rfl, rfl⟩ := Prod.mk.inj (Except.ok.inj ran)
    rfl
  | cons call calls ih =>
    obtain ⟨⟨mid, answer⟩, first, ran⟩ := bind_eq_ok.mp ran
    obtain ⟨⟨last, rest⟩, second, ran⟩ := bind_eq_ok.mp ran
    obtain ⟨rfl, rfl⟩ := Prod.mk.inj (Except.ok.inj ran)
    by_cases own : call.1 = (group : Int)
    · -- A call for the group selects the place that its counter tells, and moves the counter.
      obtain ⟨ep, _, selected⟩ := utaEpsockRr_group rte there good call.2
      rw [own, selected] at first
      obtain ⟨rfl, rfl⟩ := Prod.mk.inj (Except.ok.inj first)
      have place : rrPlace rrg.epts.length (rte.epIdx group) = count % 65536 % rrg.epts.length := by
        unfold rrPlace
        rcases counter with single | counter
        · rw [if_pos single, single, Nat.mod_one]
        · split
          · rename_i single
            rw [single, Nat.mod_one]
          · rw [counter]
            rfl
      have groups : (rte.moved group rrg.epts.length).rrgroups = rte.rrgroups := by
        unfold RrEntry.moved
        split
        · rfl
        · rfl
      have onward := ih _ (groups ▸ there) (count + 1) ?_ second
      · rw [List.countP_cons_of_pos (by simpa using own), List.range'_succ, List.map_cons, ← onward,
          ← place]
        unfold picksIn
        rw [List.filterMap_cons_some (by rw [if_pos own]; rfl)]
      · rcases counter with single | counter
        · exact Or.inl single
        · by_cases single : rrg.epts.length = 1
          · exact Or.inl single
          · rw [RrEntry.moved, if_neg single]
            simp only [Function.update_self, counter]
            exact Or.inr (by rw [UInt16.ofNat_add]; rfl)
    · -- A call for another group leaves the counter alone.
      have kept : mid.rrgroups = rte.rrgroups ∧ mid.epIdx group = rte.epIdx group := by
        unfold utaEpsockRr at first
        split at first
        · obtain ⟨rfl, rfl⟩ := Prod.mk.inj (Except.ok.inj first)
          exact ⟨rfl, rfl⟩
        · rename_i range
          have apart : group ≠ call.1.toNat := by omega
          split at first
          · rename_i other slot
            split at first
            · obtain ⟨rfl, rfl⟩ := Prod.mk.inj (Except.ok.inj first)
              exact ⟨rfl, rfl⟩
            · dsimp only at first
              split at first
              · obtain ⟨rfl, rfl⟩ := Prod.mk.inj (Except.ok.inj first)
                split
                · exact ⟨rfl, rfl⟩
                · exact ⟨rfl, Function.update_of_ne apart _ _⟩
              · cases first
          · obtain ⟨rfl, rfl⟩ := Prod.mk.inj (Except.ok.inj first)
            exact ⟨rfl, rfl⟩
      have onward := ih mid (kept.1 ▸ there) count (kept.2 ▸ counter) second
      rw [List.countP_cons_of_neg (by simpa using own), ← onward]
      unfold picksIn
      rw [List.filterMap_cons_none (by rw [if_neg own])]

/-- The selections in a group since it was made are the turns of its counter. -/
theorem picks_turns (there : rrgroups[group]? = some (some rrg)) (good : rrg.Good)
    (ran : rrRun (RrEntry.made rrgroups) calls = .ok (next, answers)) :
    picksIn group answers =
      turnsOf 65536 rrg.epts.length (calls.countP (·.1 = (group : Int))) := by
  rw [rrRun_picks (RrEntry.made rrgroups) there good 0 (Or.inr rfl) ran, turnsOf,
    List.range_eq_range']

/-- The selections in a group are fair for as long as its counter has not wrapped, or for good where
its size divides the range of the counter. -/
theorem rrRun_fair_iff (there : rrgroups[group]? = some (some rrg)) (good : rrg.Good)
    (ran : rrRun (RrEntry.made rrgroups) calls = .ok (next, answers)) :
    Fair rrg.epts.length (picksIn group answers) ↔
      rrg.epts.length ∣ 65536 ∨ calls.countP (·.1 = (group : Int)) ≤ 65536 := by
  rw [picks_turns there good ran]
  exact fair_turnsOf good.used

/-- Three endpoints, the first of which was selected twice in a row when the counter wrapped. -/
def threeEndpoints : RrGroup where
  epts := [some ['a', ':', '1'], some ['b', ':', '1'], some ['c', ':', '1']]

/-- Each of the three is an endpoint. -/
theorem threeEndpoints_good : threeEndpoints.Good where
  used := by decide
  fits := by decide
  filled := by decide

/-- Four selections of one group are fair while the counter is young. -/
theorem rrRun_fair_young : Fair 3 (picksIn 0
    [(0, ⟨false, some (0, ['a', ':', '1']), 1⟩), (0, ⟨false, some (1, ['b', ':', '1']), 2⟩),
      (0, ⟨false, some (2, ['c', ':', '1']), 3⟩), (0, ⟨false, some (0, ['a', ':', '1']), 1⟩)]) := by
  -- The run is evaluated, and its picks are fair as the counter has not wrapped.
  have there : [some threeEndpoints][0]? = some (some threeEndpoints) := rfl
  have ran : rrRun (RrEntry.made [some threeEndpoints]) (List.replicate 4 (0, fun _ => true)) =
      .ok (⟨[some threeEndpoints], Function.update (Function.update (Function.update
        (Function.update (fun _ => 0) 0 1) 0 2) 0 3) 0 4⟩,
        [(0, ⟨false, some (0, ['a', ':', '1']), 1⟩), (0, ⟨false, some (1, ['b', ':', '1']), 2⟩),
          (0, ⟨false, some (2, ['c', ':', '1']), 3⟩),
          (0, ⟨false, some (0, ['a', ':', '1']), 1⟩)]) := rfl
  exact (rrRun_fair_iff there threeEndpoints_good ran).mpr (Or.inr (by decide))

/-- A run that is one selection longer than the range of the counter is not fair. -/
theorem rrRun_wrapped_unfair : ∃ next answers,
    rrRun (RrEntry.made [some threeEndpoints]) (List.replicate 65537 (0, fun _ => true)) =
      .ok (next, answers) ∧ ¬ Fair 3 (picksIn 0 answers) := by
  -- With a good group the run comes to its end.
  have good : GroupsGood [some threeEndpoints] :=
    ⟨[threeEndpoints], 0, rfl, by simpa using threeEndpoints_good⟩
  obtain ⟨⟨next, answers⟩, ran⟩ := GroupsGood.runs (RrEntry.made [some threeEndpoints]) good
    (List.replicate 65537 (0, fun _ => true))
  refine ⟨next, answers, ran, ?_⟩
  have there : [some threeEndpoints][0]? = some (some threeEndpoints) := rfl
  have picks := picks_turns there threeEndpoints_good ran
  have all : (List.replicate 65537 ((0 : Int), fun _ : CStr => true)).countP
      (·.1 = ((0 : Nat) : Int)) = 65537 := by
    rw [List.countP_replicate]
    rfl
  rw [all] at picks
  intro fair
  rw [show picksIn 0 answers = turnsOf 65536 3 65537 from picks] at fair
  exact not_fair_wrapped (by decide) (by decide) (by decide) fair

end

end Rmr
