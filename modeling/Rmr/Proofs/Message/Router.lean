import Rmr.Message.Router
import Rmr.Proofs.Message.Fanout
import Rmr.Proofs.Route.Active

/-! Each message goes to the endpoint of each group whose turn it is, whatever becomes of the tables
in the meantime. -/

namespace Rmr

namespace RrEntry

/-- The entry when an endpoint of a group was selected: the counter moves only where there is a
choice. -/
def turned (rte : RrEntry) (group : Nat) (rrg : RrGroup) : RrEntry :=
  if rrg.epts.length ≤ 1 then rte
  else { rte with epIdx := Function.update rte.epIdx group (rte.epIdx group + 1) }

/-- Taking a turn keeps the groups. -/
@[simp] theorem turned_rrgroups (rte : RrEntry) (group : Nat) (rrg : RrGroup) :
    (rte.turned group rrg).rrgroups = rte.rrgroups := by
  unfold turned
  split
  · rfl
  · rfl

/-- The counter of the group itself. -/
theorem turned_self (rte : RrEntry) (group : Nat) {rrg : RrGroup} (choice : 2 ≤ rrg.epts.length) :
    (rte.turned group rrg).epIdx group = rte.epIdx group + 1 := by
  rw [turned, if_neg (by omega)]
  exact Function.update_self ..

/-- The counters of the other groups. -/
theorem turned_other (rte : RrEntry) {group other : Nat} (rrg : RrGroup) (apart : other ≠ group) :
    (rte.turned group rrg).epIdx other = rte.epIdx other := by
  unfold turned
  split
  · rfl
  · exact Function.update_of_ne apart _ _

variable {rte : RrEntry} {net : FanNet} {group : Nat} {choice : FanChoice}

/-- Where the slot of a group is empty, or there is none, no endpoint is chosen and no group
follows. -/
theorem choose_absent (listed : rte.rrgroups ≠ [])
    (absent : ∀ rrg, rte.rrgroups[group]? ≠ some (some rrg))
    (chosen : rte.choose net group = .ok choice) : choice = ⟨rte, false, none⟩ := by
  -- The counter is only moved for a group that is there.
  unfold choose at chosen
  rw [if_pos (List.length_pos_iff.mpr listed), utaEpsockRr_nil rte absent] at chosen
  exact (Except.ok.inj chosen).symm

/-- Where there is a group, it is the turn of the endpoint that its counter stands for. -/
theorem choose_turn {rrg : RrGroup} (there : rte.rrgroups[group]? = some (some rrg))
    (chosen : rte.choose net group = .ok choice) :
    choice = ⟨rte.turned group rrg, ((rte.rrgroups[group + 1]?).getD none).isSome,
      (rrg.selected (rte.epIdx group)).filter (net.linked group)⟩ := by
  obtain ⟨inside, -⟩ := List.getElem?_eq_some_iff.mp there
  have range : ¬((group : Int) < 0 ∨ (rte.rrgroups.length : Int) ≤ group) := by omega
  unfold choose utaEpsockRr at chosen
  rw [if_pos (by omega), if_neg range] at chosen
  simp only [Int.toNat_natCast, there] at chosen
  by_cases empty : rrg.epts.length = 0
  · -- Nothing is allocated in the group.
    rw [if_pos empty] at chosen
    have nobody : rrg.selected (rte.epIdx group) = none := by
      rw [RrGroup.selected, List.length_eq_zero_iff.mp empty]
      rfl
    rw [nobody, turned, if_pos (by omega)]
    exact (Except.ok.inj chosen).symm
  · rw [if_neg empty] at chosen
    have turn : (if rrg.epts.length = 1 then rte
        else { rte with epIdx := Function.update rte.epIdx group (rte.epIdx group + 1) }) =
        rte.turned group rrg := by
      unfold turned
      by_cases one : rrg.epts.length = 1
      · rw [if_pos one, if_pos (by omega)]
      · rw [if_neg one, if_neg (by omega)]
    rw [turn] at chosen
    -- A place that is not in use is a fault, and so not what was chosen.
    cases at_ : rrg.epts[rrPlace rrg.epts.length (rte.epIdx group)]? with
    | none =>
      rw [at_] at chosen
      cases chosen
    | some slot =>
      rw [at_] at chosen
      cases slot with
      | none => cases chosen
      | some ep =>
        have selected : rrg.selected (rte.epIdx group) = some ep := by
          rw [RrGroup.selected, at_]
          rfl
        rw [selected]
        cases linked : net.linked group ep with
        | true =>
          simp only [linked, if_true] at chosen
          rw [← Except.ok.inj chosen]
          simp [Option.filter, linked]
        | false =>
          simp only [linked, Bool.false_eq_true, if_false] at chosen
          rw [← Except.ok.inj chosen]
          simp [Option.filter, linked]

end RrEntry

/-- Only the counters of the groups that have a choice matter for what they come to. -/
theorem fanTargets_congr {net : FanNet} {epIdx epIdx' : Nat → UInt16} {group : Nat}
    {slots : List (Option RrGroup)}
    (same : ∀ idx rrg, slots[idx]? = some (some rrg) → 2 ≤ rrg.epts.length →
      epIdx (group + idx) = epIdx' (group + idx)) :
    fanTargets net epIdx group slots = fanTargets net epIdx' group slots := by
  -- The induction is on the slots, whose groups are numbered on.
  induction slots generalizing group with
  | nil => rfl
  | cons slot slots ih =>
    have rest : fanTargets net epIdx (group + 1) slots =
        fanTargets net epIdx' (group + 1) slots := by
      apply ih
      intro idx rrg at_ choice
      have equal := same (idx + 1) rrg at_ choice
      rwa [← Nat.add_assoc, Nat.add_right_comm] at equal
    have selected : ∀ rrg, slot = some rrg →
        rrg.selected (epIdx group) = rrg.selected (epIdx' group) := by
      rintro rrg rfl
      by_cases choice : 2 ≤ rrg.epts.length
      · rw [show epIdx group = epIdx' group from same 0 rrg rfl choice]
      · -- There is one place at most, and it is always the first.
        unfold RrGroup.selected
        by_cases one : rrg.epts.length = 1
        · rw [rrPlace, rrPlace, if_pos one, if_pos one]
        · rw [List.length_eq_zero_iff.mp (by omega : rrg.epts.length = 0)]
          rfl
    simp only [fanTargets]
    rw [rest]
    cases slot with
    | none => rfl
    | some rrg => rw [Option.bind_some, Option.bind_some, selected rrg rfl]

section
variable {conf : SendConf} {left : Leftover} {net : FanNet}

/-- The slots that the loop comes to from a group on. -/
def slotsFrom (rrgroups : List (Option RrGroup)) (group : Nat) : List (Option RrGroup) :=
  (rrgroups.drop group).takeWhile Option.isSome

/-- A slot without a group is the end of them. -/
theorem slotsFrom_absent {rrgroups : List (Option RrGroup)} {group : Nat}
    (absent : ∀ rrg, rrgroups[group]? ≠ some (some rrg)) : slotsFrom rrgroups group = [] := by
  -- What is behind the place is empty, or starts with an empty slot.
  unfold slotsFrom
  cases behind : rrgroups.drop group with
  | nil => rfl
  | cons slot slots =>
    have at_ : rrgroups[group]? = some slot := by
      rw [← List.head?_drop, behind]
      rfl
    cases slot with
    | none => rfl
    | some rrg => exact absurd at_ (absent rrg)

/-- A slot with a group comes before those behind it. -/
theorem slotsFrom_there {rrgroups : List (Option RrGroup)} {group : Nat} {rrg : RrGroup}
    (there : rrgroups[group]? = some (some rrg)) :
    slotsFrom rrgroups group = some rrg :: slotsFrom rrgroups (group + 1) := by
  obtain ⟨inside, is⟩ := List.getElem?_eq_some_iff.mp there
  unfold slotsFrom
  rw [List.drop_eq_getElem_cons inside, is]
  rfl

/-- What a loop did that came to its end: each group that it came to had its turn, and no other one.
-/
structure FanEnd.Turns (net : FanNet) (rte : RrEntry) (group : Nat) (fan : FanEnd) : Prop where
  each : fan.attempts.map (fun attempt => (attempt.group, attempt.ep)) =
    fanTargets net rte.epIdx group (slotsFrom rte.rrgroups group)
  rrgroups : fan.rte.rrgroups = rte.rrgroups
  before : ∀ other < group, fan.rte.epIdx other = rte.epIdx other
  moved : ∀ other rrg, group ≤ other → other < group + (slotsFrom rte.rrgroups group).length →
    rte.rrgroups[other]? = some (some rrg) → 2 ≤ rrg.epts.length →
      fan.rte.epIdx other = rte.epIdx other + 1

/-- A group whose slot is empty ends the loop at once. -/
theorem FanEnd.Turns.absent {rte : RrEntry} {group : Nat} {fan : FanEnd}
    (absent : ∀ rrg, rte.rrgroups[group]? ≠ some (some rrg)) (same : fan.rte = rte)
    (nobody : fan.attempts = []) : fan.Turns net rte group where
  -- No slot is left, so that nothing is attempted and no counter is moved.
  each := by
    rw [slotsFrom_absent absent, nobody]
    rfl
  rrgroups := by rw [same]
  before := by
    intro other _
    rw [same]
  moved := by
    intro other rrg behind low
    rw [slotsFrom_absent absent] at low
    simp only [List.length_nil] at low
    omega

/-- A group had its turn, and then those behind it had theirs. -/
theorem FanEnd.Turns.cons {rte : RrEntry} {group : Nat} {rrg : RrGroup} {fan : FanEnd}
    {attempts : List Attempt} (there : rte.rrgroups[group]? = some (some rrg))
    (first : attempts.map (fun attempt => (attempt.group, attempt.ep)) =
      ((rrg.selected (rte.epIdx group)).filter (net.linked group)).toList.map fun ep => (group, ep))
    (later : fan.Turns net (rte.turned group rrg) (group + 1)) :
    FanEnd.Turns net rte group { fan with attempts := attempts ++ fan.attempts } where
  each := by
    rw [List.map_append, first, later.each, slotsFrom_there there, fanTargets,
      RrEntry.turned_rrgroups, Option.bind_some]
    congr 1
    exact fanTargets_congr fun idx _ _ _ => RrEntry.turned_other rte rrg (by omega)
  rrgroups := later.rrgroups.trans (RrEntry.turned_rrgroups rte group rrg)
  before := by
    intro other below
    exact (later.before other (by omega)).trans (RrEntry.turned_other rte rrg (by omega))
  moved := by
    intro other member behind low at_ choice
    by_cases own : other = group
    · -- The group itself is not among those that the later rounds come to.
      subst own
      obtain rfl : rrg = member := by
        rw [there] at at_
        exact Option.some.inj (Option.some.inj at_)
      exact (later.before other (by omega)).trans (RrEntry.turned_self rte other choice)
    · rw [slotsFrom_there there, List.length_cons] at low
      have moved := later.moved other member (by omega)
        (by rw [RrEntry.turned_rrgroups]; omega) (by rw [RrEntry.turned_rrgroups]; exact at_) choice
      rw [RrEntry.turned_other rte rrg own] at moved
      exact moved

/-- Whatever sending comes to, a loop that comes to its end gives each group its turn that it comes
to. -/
theorem fanLoop_turns {rte : RrEntry} {draft : Draft} {okSends : Bool} {group rounds : Nat}
    {fan : FanEnd} (listed : rte.rrgroups ≠ [])
    (ended : fanLoop conf left net rte draft okSends group rounds = .ok fan) :
    fan.Turns net rte group := by
  -- The induction is on the rounds; each of them either ends the loop or leaves one less.
  induction rounds generalizing rte draft okSends group fan with
  | zero => cases ended
  | succ rounds ih =>
    obtain ⟨choice, chosen, ended⟩ := bind_eq_ok.mp ended
    by_cases absent : ∀ rrg, rte.rrgroups[group]? ≠ some (some rrg)
    · obtain rfl := RrEntry.choose_absent listed absent chosen
      obtain rfl := Except.ok.inj ended
      exact .absent absent rfl rfl
    · push Not at absent
      obtain ⟨rrg, there⟩ := absent
      obtain rfl := RrEntry.choose_turn there chosen
      have listed' : (rte.turned group rrg).rrgroups ≠ [] := by
        rw [RrEntry.turned_rrgroups]
        exact listed
      -- If no group follows, nothing is left to come to.
      have final : ((rte.rrgroups[group + 1]?).getD none).isSome = false → ∀ draft okSends,
          FanEnd.Turns net (rte.turned group rrg) (group + 1)
            ⟨rte.turned group rrg, draft, okSends, []⟩ := by
        intro last draft okSends
        refine .absent ?_ rfl rfl
        intro next at_
        rw [RrEntry.turned_rrgroups] at at_
        rw [at_] at last
        cases last
      dsimp only at ended
      cases picked : (rrg.selected (rte.epIdx group)).filter (net.linked group) with
      | none =>
        rw [picked] at ended
        have first : ([] : List Attempt).map (fun attempt => (attempt.group, attempt.ep)) =
            ((rrg.selected (rte.epIdx group)).filter (net.linked group)).toList.map
              fun ep => (group, ep) := by
          rw [picked]
          rfl
        cases more : ((rte.rrgroups[group + 1]?).getD none).isSome with
        | true =>
          rw [more] at ended
          exact .cons there first (ih listed' ended)
        | false =>
          rw [more] at ended
          obtain rfl := Except.ok.inj ended
          exact .cons there first (final more _ _)
      | some ep =>
        rw [picked] at ended
        have first : ∀ bytes, [(⟨group, ep, bytes, net.outcome group⟩ : Attempt)].map
            (fun attempt => (attempt.group, attempt.ep)) =
            ((rrg.selected (rte.epIdx group)).filter (net.linked group)).toList.map
              fun ep => (group, ep) := by
          intro bytes
          rw [picked]
          rfl
        cases more : ((rte.rrgroups[group + 1]?).getD none).isSome with
        | true =>
          rw [more] at ended
          obtain ⟨clone, -, ended⟩ := bind_eq_ok.mp ended
          obtain ⟨bytes, -, ended⟩ := bind_eq_ok.mp ended
          obtain ⟨sent, -, ended⟩ := bind_eq_ok.mp ended
          -- The clone is sent next, whether the message was sent or not.
          cases sent with
          | some back =>
            obtain ⟨later, laterIs, ended⟩ := bind_eq_ok.mp ended
            obtain rfl := Except.ok.inj ended
            exact .cons there (first bytes) (ih listed' laterIs)
          | none =>
            obtain ⟨later, laterIs, ended⟩ := bind_eq_ok.mp ended
            obtain rfl := Except.ok.inj ended
            exact .cons there (first bytes) (ih listed' laterIs)
        | false =>
          rw [more] at ended
          obtain ⟨bytes, -, ended⟩ := bind_eq_ok.mp ended
          obtain ⟨sent, -, ended⟩ := bind_eq_ok.mp ended
          obtain rfl := Except.ok.inj ended
          exact .cons there (first bytes) (final more _ _)

/-- An entry without groups leaves the counters alone, whoever owns the managed element. -/
theorem fanLoop_owner {rte : RrEntry} {draft : Draft} {okSends : Bool} {rounds : Nat} {fan : FanEnd}
    (unlisted : rte.rrgroups = [])
    (ended : fanLoop conf left net rte draft okSends 0 rounds = .ok fan) :
    fan.attempts.map (fun attempt => (attempt.group, attempt.ep)) =
      (net.owner.filter (net.linked 0)).toList.map fun ep => (0, ep) := by
  -- The loop takes one round, which is the one for the owner.
  cases rounds with
  | zero => cases ended
  | succ rounds =>
    obtain ⟨choice, chosen, ended⟩ := bind_eq_ok.mp ended
    rw [choose_owner unlisted] at chosen
    obtain rfl := Except.ok.inj chosen
    cases owner : net.owner.filter (net.linked 0) with
    | none =>
      simp only [owner] at ended
      obtain rfl := Except.ok.inj ended
      rfl
    | some ep =>
      simp only [owner] at ended
      obtain ⟨bytes, -, ended⟩ := bind_eq_ok.mp ended
      obtain ⟨sent, -, ended⟩ := bind_eq_ok.mp ended
      obtain rfl := Except.ok.inj ended
      rfl

/-- The groups of an entry that have a choice, and that the loop comes to. -/
def Chooses (rrgroups : List (Option RrGroup)) (group : Nat) : Prop :=
  group < (rrgroups.takeWhile Option.isSome).length ∧
    ∃ rrg, rrgroups[group]? = some (some rrg) ∧ 2 ≤ rrg.epts.length

/-- What matters of an entry for where the loop comes to. -/
theorem RrEntry.reached_congr {rte other : RrEntry} (rrgroups : rte.rrgroups = other.rrgroups)
    (same : ∀ group, Chooses rte.rrgroups group → rte.epIdx group = other.epIdx group) :
    rte.reached net = other.reached net := by
  -- The counters matter for the slots in front of the first empty one.
  unfold reached
  rw [← rrgroups]
  split
  · rfl
  · apply fanTargets_congr
    intro idx rrg at_ choice
    obtain ⟨inside, is⟩ := List.getElem?_eq_some_iff.mp at_
    have slot : rte.rrgroups[idx]? = some (some rrg) := by
      obtain ⟨rest, split⟩ := List.takeWhile_prefix Option.isSome (l := rte.rrgroups)
      rw [← split, List.getElem?_append_left inside]
      exact at_
    rw [Nat.zero_add]
    exact same idx ⟨inside, rrg, slot, choice⟩

/-- A fan-out that comes to its end gives each group its turn. -/
theorem mtosendRte_turns {rte : RrEntry} {draft : Draft} {fan : FanEnd}
    (ended : mtosendRte conf left net rte draft = .ok fan) :
    fan.attempts.map (fun attempt => (attempt.group, attempt.ep)) = rte.reached net ∧
      ∀ group, Chooses rte.rrgroups group → fan.rte.epIdx group = rte.epIdx group + 1 := by
  -- An entry without groups sends to the owner; else each slot takes its turn.
  obtain ⟨loop, loopIs, ended⟩ := bind_eq_ok.mp ended
  obtain rfl := Except.ok.inj ended
  unfold RrEntry.reached
  by_cases unlisted : rte.rrgroups = []
  · rw [if_pos unlisted]
    have owner := fanLoop_owner unlisted loopIs
    refine ⟨owner, ?_⟩
    rintro group ⟨-, rrg, at_, -⟩
    rw [unlisted] at at_
    cases at_
  · rw [if_neg unlisted]
    have turns := fanLoop_turns unlisted loopIs
    refine ⟨turns.each, ?_⟩
    rintro group ⟨low, rrg, at_, choice⟩
    exact turns.moved group rrg (Nat.zero_le _) (by rw [Nat.zero_add]; exact low) at_ choice

end

/-- One call more. -/
theorem usesOf_append (id : Nat) (calls : List SentCall) (call : SentCall) :
    usesOf id (calls ++ [call]) =
      usesOf id calls + if call.rte.map Prod.fst = some id then 1 else 0 := by
  unfold usesOf
  rw [List.countP_append, List.countP_singleton]
  simp only [decide_eq_true_eq]

namespace Router

variable {conf : SendConf} {rtConf : RtConf} {router next : Router}

/-- All calls so far had their turns, and the counters are right for the next ones. -/
structure Turning (router : Router) : Prop where
  idle : router.ctx.Idle
  used : ∀ call ∈ router.calls, ∀ rte ∈ call.rte, rte.1 < router.ctx.nextRte
  clear : ∀ id, router.ctx.nextRte ≤ id → router.epIdx id = fun _ => 0
  counted : ∀ id rte, router.ctx.rtes id = some rte → ∀ group, Chooses rte.entry.rrgroups group →
    router.epIdx id group = UInt16.ofNat (usesOf id router.calls)
  kept : ∀ call ∈ router.calls, ∀ rte ∈ call.rte, ∀ now, router.ctx.rtes rte.1 = some now →
    now.entry.rrgroups = rte.2
  turns : ∀ before call after, router.calls = before ++ call :: after → ∀ rte ∈ call.rte,
    call.targets = (RrEntry.after rte.2 (usesOf rte.1 before)).reached call.net ∧
      ∀ earlier ∈ before, ∀ same ∈ earlier.rte, same.1 = rte.1 → same.2 = rte.2

/-- An entry that was never used is not counted. -/
theorem Turning.unused (turning : router.Turning) {id : Nat} (beyond : router.ctx.nextRte ≤ id) :
    usesOf id router.calls = 0 := by
  -- A call's entry was used, so that its number is below the next one.
  unfold usesOf
  rw [List.countP_eq_zero]
  intro call among is
  obtain ⟨rte, rteIs, same⟩ := Option.map_eq_some_iff.mp (of_decide_eq_true is)
  have below := turning.used call among rte rteIs
  omega

/-- Nothing was sent at first. -/
theorem init_turning : init.Turning where
  -- No call was made, and the tables are those of a context just initialised.
  idle := RtCtx.init_idle
  used := by
    intro call among
    cases among
  clear := fun _ _ => rfl
  counted := by
    intro id rte is
    cases is
  kept := by
    intro call among
    cases among
  turns := by
    intro before call after none_
    cases before <;> cases none_

/-- Whatever a record does to the tables, entries that are there stay as they are. -/
theorem Turning.record (turning : router.Turning) {ctx : RtCtx} (idle : ctx.Idle)
    (later : router.ctx.Later ctx) : Turning { router with ctx := ctx } where
  idle := idle
  used := fun call among rte is => Nat.lt_of_lt_of_le (turning.used call among rte is) later.grows
  clear := fun id beyond => turning.clear id (Nat.le_trans later.grows beyond)
  counted := by
    intro id rte is group chooses
    by_cases below : id < router.ctx.nextRte
    · obtain ⟨before, was, same⟩ := later.kept id below rte is
      rw [same] at chooses
      exact turning.counted id before was group chooses
    · -- The entry is new, and so its counters are clear.
      have clear := congrFun (turning.clear id (by omega)) group
      have unused := turning.unused (by omega : router.ctx.nextRte ≤ id)
      dsimp only
      rw [clear, unused]
      rfl
  kept := by
    intro call among rte is now there
    obtain ⟨before, was, same⟩ := later.kept rte.1 (turning.used call among rte is) now there
    rw [same]
    exact turning.kept call among rte is before was
  turns := turning.turns

/-- A call sends to the endpoints whose turn it is, and gives those behind them the next one. -/
theorem Turning.call (turning : router.Turning) {call : SentCall} {epIdx : Nat → Nat → UInt16}
    (there : ∀ rte ∈ call.rte, ∃ now, router.ctx.rtes rte.1 = some now ∧ now.entry.rrgroups = rte.2)
    (targets : ∀ rte ∈ call.rte,
      call.targets = RrEntry.reached ⟨rte.2, router.epIdx rte.1⟩ call.net)
    (others : ∀ id, call.rte.map Prod.fst ≠ some id → epIdx id = router.epIdx id)
    (moved : ∀ rte ∈ call.rte, ∀ group, Chooses rte.2 group →
      epIdx rte.1 group = router.epIdx rte.1 group + 1) :
    Turning { router with epIdx := epIdx, calls := router.calls ++ [call] } := by
  have below : ∀ rte ∈ call.rte, rte.1 < router.ctx.nextRte := by
    intro rte is
    obtain ⟨now, nowIs, -⟩ := there rte is
    by_contra beyond
    rw [turning.idle.sound.newRte rte.1 (by omega)] at nowIs
    cases nowIs
  refine ⟨turning.idle, ?_, ?_, ?_, ?_, ?_⟩
  · intro other among rte is
    rcases List.mem_append.mp among with among | among
    · exact turning.used other among rte is
    · obtain rfl := List.mem_singleton.mp among
      exact below rte is
  · intro id beyond
    have apart : call.rte.map Prod.fst ≠ some id := by
      intro is
      obtain ⟨rte, rteIs, rfl⟩ := Option.map_eq_some_iff.mp is
      exact absurd (below rte rteIs) (Nat.not_lt.mpr beyond)
    exact (others id apart).trans (turning.clear id beyond)
  · intro id rte is group chooses
    have counted := turning.counted id rte is group chooses
    dsimp only
    rw [usesOf_append]
    by_cases own : call.rte.map Prod.fst = some id
    · obtain ⟨used, usedIs, rfl⟩ := Option.map_eq_some_iff.mp own
      obtain ⟨now, nowIs, same⟩ := there used usedIs
      obtain rfl : rte = now := Option.some.inj (is.symm.trans nowIs)
      rw [if_pos own, moved used usedIs group (same ▸ chooses), counted, UInt16.ofNat_add]
      rfl
    · rw [if_neg own, others id own]
      exact counted
  · intro other among rte is now nowIs
    rcases List.mem_append.mp among with among | among
    · exact turning.kept other among rte is now nowIs
    · obtain rfl := List.mem_singleton.mp among
      obtain ⟨then_, thenIs, same⟩ := there rte is
      obtain rfl : then_ = now := Option.some.inj (thenIs.symm.trans nowIs)
      exact same
  · intro before other after split rte is
    dsimp only at split
    rcases List.eq_nil_or_concat after with rfl | ⟨early, last, rfl⟩
    · -- It is the last call.
      obtain ⟨rfl, single⟩ := List.append_inj' split rfl
      obtain rfl := List.head_eq_of_cons_eq single
      obtain ⟨now, nowIs, same⟩ := there rte is
      refine ⟨?_, ?_⟩
      · rw [targets rte is]
        have counted : ∀ group, Chooses rte.2 group →
            router.epIdx rte.1 group = UInt16.ofNat (usesOf rte.1 router.calls) :=
          fun group chooses => turning.counted rte.1 now nowIs group (same ▸ chooses)
        exact RrEntry.reached_congr rfl counted
      · intro earlier among other otherIs equal
        rw [← turning.kept earlier among other otherIs now (equal ▸ nowIs), same]
    · have split' : router.calls ++ [call] = (before ++ other :: early) ++ [last] := by
        rw [split]
        simp
      obtain ⟨calls, -⟩ := List.append_inj' split' rfl
      exact turning.turns before other early calls rte is

/-- One step more. -/
theorem Turning.step (turning : router.Turning) {event : RouterEvent}
    (stepped : router.step conf rtConf event = .ok next) : next.Turning := by
  -- A record keeps entries that are there; a call counts one use of its entry.
  cases event with
  | record text mem =>
    obtain ⟨ctx, parsed, stepped⟩ := bind_eq_ok.mp stepped
    obtain rfl := Except.ok.inj stepped
    have ends := RtCtx.parseRtRec_ends turning.idle rtConf mem text
    cases outcome : router.ctx.parseRtRec rtConf mem text with
    | error fault =>
      rw [outcome] at parsed
      cases parsed
    | ok made =>
      rw [outcome] at parsed ends
      obtain rfl := Except.ok.inj parsed
      have advances : RtCtx.Advances router.ctx text made := ends
      exact turning.record advances.idle advances.later
  | send met =>
    obtain ⟨msg, -, stepped⟩ := bind_eq_ok.mp stepped
    obtain ⟨⟨mid, call⟩, sent, stepped⟩ := bind_eq_ok.mp stepped
    obtain rfl := Except.ok.inj stepped
    unfold mtosendMsg at sent
    cases found : router.found msg with
    | none =>
      simp only [found] at sent
      obtain ⟨rfl, rfl⟩ := Prod.mk.inj (Except.ok.inj sent)
      exact turning.call (by simp) (by simp) (fun _ _ => rfl) (by simp)
    | some id =>
      simp only [found] at sent
      obtain ⟨rte, read, sent⟩ := bind_eq_ok.mp sent
      obtain ⟨owner, -, sent⟩ := bind_eq_ok.mp sent
      obtain ⟨fan, fanIs, sent⟩ := bind_eq_ok.mp sent
      obtain ⟨rfl, rfl⟩ := Prod.mk.inj (Except.ok.inj sent)
      have there : router.ctx.rtes id = some rte := by
        unfold RtCtx.rte at read
        cases at_ : router.ctx.rtes id with
        | none =>
          rw [at_] at read
          cases read
        | some now =>
          rw [at_] at read
          rw [Except.ok.inj read]
      obtain ⟨each, moved⟩ := mtosendRte_turns fanIs
      refine turning.call ?_ ?_ ?_ ?_
      · rintro used ⟨⟩
        exact ⟨rte, there, rfl⟩
      · rintro used ⟨⟩
        exact each
      · intro other apart
        exact Function.update_of_ne (fun equal => apart (by rw [equal]; rfl)) _ _
      · rintro used ⟨⟩ group chooses
        dsimp only
        rw [Function.update_self]
        exact moved group chooses

/-- Whatever records come and messages are sent in between, with whatever comes of them, each
message goes to the endpoints whose turn it is in the entry that was found for it: those that come
after as many turns as the entry had since it was made. The groups of an entry never change while it
is used. -/
theorem run_turns (conf : SendConf) (rtConf : RtConf) (events : List RouterEvent) (router : Router)
    (ran : init.run conf rtConf events = .ok router) :
    ∀ before call after, router.calls = before ++ call :: after → ∀ rte ∈ call.rte,
      call.targets = (RrEntry.after rte.2 (usesOf rte.1 before)).reached call.net ∧
        ∀ earlier ∈ before, ∀ same ∈ earlier.rte, same.1 = rte.1 → same.2 = rte.2 :=
  (foldlM_invariant Turning (fun turning stepped => turning.step stepped) init_turning ran).turns

/-- A table with one route to two endpoints, and three messages that take it. -/
def turnEvents : List RouterEvent :=
  (["newrt|start", "rte|1|a:1,b:1", "newrt|end"].map fun text => .record text.toList .ample) ++
    List.replicate 3 (.send ⟨fullDraft 20, fun _ _ => 0, fun _ _ => true, fun _ => .ok⟩)

/-- They go to the endpoints in turn. -/
theorem run_turns_three : ∃ router, init.run SendConf.plain RtCtx.confHere turnEvents = .ok router ∧
    router.calls.map SentCall.targets =
      [[(0, "a:1".toList)], [(0, "b:1".toList)], [(0, "a:1".toList)]] ∧
    ∀ before call after, router.calls = before ++ call :: after → ∀ rte ∈ call.rte,
      call.targets = (RrEntry.after rte.2 (usesOf rte.1 before)).reached call.net ∧
        ∀ earlier ∈ before, ∀ same ∈ earlier.rte, same.1 = rte.1 → same.2 = rte.2 := by
  -- The run is evaluated for its targets; the theorem then tells what they are.
  have sends : Yields (fun router : Router => router.calls.map SentCall.targets =
      [[(0, "a:1".toList)], [(0, "b:1".toList)], [(0, "a:1".toList)]])
      (init.run SendConf.plain RtCtx.confHere turnEvents) := by
    decide +kernel
  obtain ⟨router, ran, targets⟩ := sends.exists
  exact ⟨router, ran, targets, run_turns SendConf.plain RtCtx.confHere turnEvents router ran⟩

end Router

end Rmr
