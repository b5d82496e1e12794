import Rmr.Receive.Alarm

/-! The drop alarm follows the drops for as long as its checks can tell them. -/

namespace Rmr

namespace DropAlarm

variable {sys : DropAlarm}

/-- What is known of the alarm, and what it did so far. -/
structure Inv (sys : DropAlarm) : Prop where
  /-- What was dropped was dropped before. -/
  past : ∀ dropped : Nat, .dropped dropped ∈ sys.history → dropped ≤ sys.now
  /-- The alarm that is raised is the one that was raised last and not cleared. -/
  raised : raisedBy sys.history = if sys.alarmRaised then some sys.probId else none
  /-- A timer that runs ends a minute after the last drop. -/
  timer : sys.alarmRaised = true → sys.ok2clear ≠ 0 →
    raisedLast sys.history = false → dropsSince sys.history = 0 →
    ∀ dropped : Nat, .dropped dropped ∈ sys.history → (dropped : Int) + 60 ≤ sys.ok2clear
  /-- But for warnings and raises, the counter tells how many messages were dropped. -/
  counts : warnedSince sys.history = false → raisedLast sys.history = false →
    sys.dcount = toInt (sys.lastd + dropsSince sys.history)
  counter : InInt sys.dcount
  remembered : InInt sys.lastd
  tracks : Tracks sys.history

/-- Nothing was dropped and no alarm raised yet. -/
theorem init_inv (now : Nat) : (init now).Inv where
  -- Nothing was warned of, so that both counters are as they were set up.
  past := by
    intro dropped among
    cases among
  raised := rfl
  timer := by
    intro raised
    cases raised
  counts := fun _ _ => show (0 : Int) = toInt (0 + ((0 : Nat) : Int)) by decide +kernel
  counter := show InInt 0 by decide
  remembered := show InInt 0 by decide
  tracks := trivial

/-- Time that passes changes nothing else. -/
theorem Inv.later (inv : sys.Inv) (seconds : Nat) : (sys.later seconds).Inv where
  -- Only the clock is put forward, which no field but the first one looks at.
  past := fun dropped among => Nat.le_trans (inv.past dropped among) (Nat.le_add_right _ _)
  raised := inv.raised
  timer := inv.timer
  counts := inv.counts
  counter := inv.counter
  remembered := inv.remembered
  tracks := inv.tracks

/-- A drop is one since the last check, so that nothing is said about the timer. -/
theorem Inv.drop (inv : sys.Inv) : sys.drop.Inv := by
  -- A thread that has counted a drop warns first; any other drop is one more on both sides.
  unfold DropAlarm.drop
  split
  · exact inv
  · constructor
    · intro dropped among
      cases List.mem_cons.mp among with
      | inl same =>
        cases same
        exact Nat.le_refl _
      | inr before => exact inv.past dropped before
    · exact inv.raised
    · intro _ _ _ none_
      exact absurd none_ (Nat.succ_ne_zero _)
    · intro unwarned old
      show toInt (sys.dcount + 1) = toInt (sys.lastd + ((dropsSince sys.history + 1 : Nat) : Int))
      rw [inv.counts unwarned old, toInt_toInt_add, Nat.cast_add, Nat.cast_one, add_assoc]
    · exact inInt_toInt _
    · exact inv.remembered
    · exact inv.tracks

/-- A warning changes the counter only. -/
theorem Inv.warn (inv : sys.Inv) : sys.warn.Inv := by
  unfold DropAlarm.warn
  split
  · exact inv
  · split
    · -- The warning is no drop.
      have same : ∀ dropped : Nat, .dropped dropped ∈ AlarmEntry.warned sys.now :: sys.history →
          .dropped dropped ∈ sys.history := by
        intro dropped among
        cases List.mem_cons.mp among with
        | inl other => cases other
        | inr before => exact before
      constructor
      · exact fun dropped among => inv.past dropped (same dropped among)
      · exact inv.raised
      · exact fun raised runs old none_ dropped among =>
          inv.timer raised runs old none_ dropped (same dropped among)
      · intro unwarned
        cases unwarned
      · exact show InInt 0 by decide
      · exact inv.remembered
      · exact inv.tracks
    · exact ⟨inv.past, inv.raised, inv.timer, inv.counts, inv.counter, inv.remembered, inv.tracks⟩

/-- The outcome of a check is no drop. -/
theorem dropped_of_checked {history : List AlarmEntry} {time : Nat} {outcome : AlarmOutcome}
    {dropped : Nat} (among : .dropped dropped ∈ AlarmEntry.checked time outcome :: history) :
    .dropped dropped ∈ history := by
  cases List.mem_cons.mp among with
  | inl other => cases other
  | inr before => exact before

/-- The end of a timer, where it is within an int. -/
theorem timer_whole {now : Nat} (early : (now : Int) + 60 ≤ intMax) :
    toInt ((now : Int) + 60) = (now : Int) + 60 :=
  toInt_of_inInt ⟨by unfold intMin; omega, early⟩

/-- After a check that did what it should, nothing was dropped or warned of since the last check. -/
theorem Inv.noted (inv : sys.Inv) {next : DropAlarm} {outcome : AlarmOutcome}
    (history : next.history = .checked sys.now outcome :: sys.history) (now : next.now = sys.now)
    (proper : Proper sys.now outcome sys.history)
    (raised : raisedBy next.history = if next.alarmRaised then some next.probId else none)
    (timer : next.alarmRaised = true → next.ok2clear ≠ 0 → raisedLast next.history = false →
      ∀ dropped : Nat, .dropped dropped ∈ sys.history → (dropped : Int) + 60 ≤ next.ok2clear)
    (settled : raisedLast next.history = false → next.dcount = next.lastd)
    (counter : InInt next.dcount) (remembered : InInt next.lastd) : next.Inv where
  past := by
    intro dropped among
    rw [history] at among
    rw [now]
    exact inv.past dropped (dropped_of_checked among)
  raised := raised
  timer := by
    intro up runs old _ dropped among
    rw [history] at among
    exact timer up runs old dropped (dropped_of_checked among)
  counts := by
    -- No drop stands behind the check, so that the counter is at the value remembered.
    intro _ old
    rw [history, dropsSince, Nat.cast_zero, add_zero, toInt_of_inInt remembered]
    exact settled old
  counter := counter
  remembered := remembered
  tracks := by
    rw [history]
    exact ⟨proper, inv.tracks⟩

/-- A check that can tell finds the counter away from the value remembered exactly when a message
was dropped since the last check. -/
theorem Inv.told (inv : sys.Inv) (canTell : CanTell sys) :
    sys.dcount ≠ sys.lastd ↔ 0 < dropsSince sys.history := by
  by_cases unwarned : warnedSince sys.history = false
  · by_cases old : raisedLast sys.history = false
    · -- The counter was at the value remembered after the last check.
      rw [ne_eq, inv.counts unwarned old, toInt_add_eq_self inv.remembered, Nat.pos_iff_ne_zero]
      exact not_congr ⟨canTell.turned unwarned old, fun none_ => by rw [none_]⟩
    · obtain ⟨some_, differs⟩ := canTell.raised (by simpa using old) unwarned
      exact ⟨fun _ => some_, fun _ => differs⟩
  · rw [Nat.pos_iff_ne_zero]
    exact not_congr (canTell.reset (by simpa using unwarned))

/-- Without a drop since the last check, one that neither raises an alarm nor resets the timer does
what it should, if it clears the alarm only as it should. -/
theorem proper_of_quiet {history : List AlarmEntry} {time : Nat} {outcome : AlarmOutcome}
    (quiet : dropsSince history = 0) (noRaise : ∀ probId, outcome ≠ .raise probId)
    (noRestart : outcome ≠ .restart)
    (clears : ∀ probId, outcome = .clear probId → raisedBy history = some probId ∧
      ∀ dropped : Nat, .dropped dropped ∈ history → dropped + 60 < time) :
    Proper time outcome history where
  raises := fun dropping _ => absurd quiet (Nat.ne_of_gt dropping)
  unprovoked := fun _ => ⟨noRaise, noRestart⟩
  alternates := fun probId is => absurd is (noRaise probId)
  clears := clears

/-- A check without an alarm: it raises one exactly when a message was dropped. -/
theorem Inv.checkDown (inv : sys.Inv) (canTell : CanTell sys) (down : sys.alarmRaised = false) :
    sys.check.Inv := by
  have told := inv.told canTell
  have none_ : raisedBy sys.history = none := by
    rw [inv.raised, down]
    rfl
  unfold DropAlarm.check
  rw [if_pos down]
  by_cases same : sys.dcount - sys.lastd = 0
  · -- Nothing was dropped, and no alarm is needed.
    have settled := Int.sub_eq_zero.mp same
    have quiet : dropsSince sys.history = 0 := by
      by_contra some_
      exact told.mpr (Nat.pos_of_ne_zero some_) settled
    rw [if_pos same]
    refine inv.noted rfl rfl (proper_of_quiet quiet nofun nofun nofun) inv.raised ?_
      (fun _ => settled) inv.counter inv.remembered
    intro raised
    exact absurd raised (by rw [show (sys.note .quiet).alarmRaised = false from down]; nofun)
  · -- An alarm is raised, and its timer does not run yet.
    have some_ := told.mp fun settled => same (Int.sub_eq_zero.mpr settled)
    rw [if_neg same]
    refine inv.noted rfl rfl ⟨?_, ?_, fun _ _ => none_, nofun⟩ rfl nofun nofun inv.counter
      inv.remembered
    · intro _ _
      exact ⟨sys.probId, rfl⟩
    · intro zero
      exact absurd zero (Nat.ne_of_gt some_)

/-- A check of a raised alarm for which nothing was dropped: it starts the timer, waits for it, or
clears the alarm. -/
theorem Inv.checkTimer (inv : sys.Inv) (canTell : CanTell sys) (up : sys.alarmRaised = true)
    (settled : sys.dcount = sys.lastd) : sys.check.Inv := by
  have quiet : dropsSince sys.history = 0 := by
    by_contra dropping
    exact (inv.told canTell).mpr (Nat.pos_of_ne_zero dropping) settled
  have same : ¬ sys.dcount - sys.lastd ≠ 0 := not_not.mpr (Int.sub_eq_zero.mpr settled)
  unfold DropAlarm.check
  rw [if_neg (by simp [up]), if_neg same]
  by_cases stopped : sys.ok2clear = 0
  · -- The timer is started, and it ends a minute after anything that was dropped.
    rw [if_pos stopped, timer_whole (canTell.early up settled stopped)]
    refine inv.noted rfl rfl (proper_of_quiet quiet nofun nofun nofun) inv.raised ?_
      (fun _ => settled) inv.counter inv.remembered
    intro _ _ _ dropped among
    exact Int.add_le_add_right (Int.ofNat_le.mpr (inv.past dropped among)) 60
  · -- The timer runs since no message was dropped.
    have old : raisedLast sys.history = false := by
      by_contra young
      rcases canTell.fresh (by simpa using young) with zero | dropping
      · exact stopped zero
      · exact absurd quiet (Nat.ne_of_gt dropping)
    have ends := inv.timer up stopped old quiet
    rw [if_neg stopped]
    by_cases expired : sys.ok2clear < sys.now
    · rw [if_pos expired]
      refine inv.noted rfl rfl (proper_of_quiet quiet nofun nofun ?_) rfl nofun
        (fun _ => settled) inv.counter inv.remembered
      intro probId is
      cases is
      refine ⟨by rw [inv.raised, up]; rfl, ?_⟩
      intro dropped among
      exact Int.ofNat_lt.mp (Int.lt_of_le_of_lt (ends dropped among) expired)
    · rw [if_neg expired]
      exact inv.noted rfl rfl (proper_of_quiet quiet nofun nofun nofun) inv.raised
        (fun _ _ _ => ends) (fun _ => settled) inv.counter inv.remembered

/-- A check that can tell does what it should. -/
theorem Inv.check (inv : sys.Inv) (canTell : CanTell sys) : sys.check.Inv := by
  -- By whether an alarm is raised, and then by whether the counter is at the value remembered.
  by_cases down : sys.alarmRaised = false
  · exact inv.checkDown canTell down
  · have up : sys.alarmRaised = true := by simpa using down
    by_cases settled : sys.dcount = sys.lastd
    · exact inv.checkTimer canTell up settled
    · -- Messages are dropped still or again, and the counter is remembered.
      have dropping := (inv.told canTell).mp settled
      have differs : sys.dcount - sys.lastd ≠ 0 := fun same => settled (Int.sub_eq_zero.mp same)
      unfold DropAlarm.check
      rw [if_neg down, if_pos differs]
      refine inv.noted rfl rfl ⟨?_, ?_, nofun, nofun⟩ inv.raised
        (fun _ runs => absurd rfl runs) (fun _ => rfl) inv.counter inv.counter
      · intro _ absent
        rw [inv.raised, up] at absent
        cases absent
      · intro zero
        exact absurd zero (Nat.ne_of_gt dropping)

/-- Every event keeps what is known, where checks can tell. -/
theorem Inv.step (inv : sys.Inv) {event : AlarmEvent} (fine : event.Fine sys) :
    (sys.step event).Inv := by
  -- By the kind of event, at the time that the event brings.
  cases event with
  | drop after => exact (inv.later after).drop
  | warn after => exact (inv.later after).warn
  | check after => exact (inv.later after).check fine

/-- In a run whose checks can all tell, all checks do what they should. -/
theorem run_tracks (now : Nat) (events : List AlarmEvent)
    (fine : Throughout DropAlarm.step (fun sys event => event.Fine sys) (init now) events) :
    Tracks (run now events).history := by
  -- By the invariant, which every event keeps where its check can tell.
  have kept : DropAlarm.Inv (events.foldl DropAlarm.step (init now)) := by
    apply Throughout.keeps (fun inv fine => ?_) (init_inv now) fine
    exact Inv.step inv fine
  exact kept.tracks

/-- Two drops raise an alarm, a third one is told from them, and a minute later the alarm is
cleared. -/
theorem run_tracks_clear :
    (run 1000 [.drop 0, .warn 0, .drop 1, .warn 0, .check 1, .drop 0, .warn 0, .check 1, .check 1,
      .check 61]).history.head? = some (.checked 1065 (.clear 0)) ∧
    Tracks (run 1000 [.drop 0, .warn 0, .drop 1, .warn 0, .check 1, .drop 0, .warn 0, .check 1,
      .check 1, .check 61]).history :=
  ⟨by decide +kernel, run_tracks 1000 _ (by decide +kernel)⟩

/-- The first drop is not seen, as its warning resets the counter; and the timer of an alarm is
reset by a check after which nothing was dropped. -/
theorem run_misses_drop : ¬ Tracks (run 1000 [.drop 0, .warn 0, .check 1]).history ∧
    ¬ Tracks (run 1000 [.drop 0, .warn 0, .drop 1, .warn 0, .check 1, .check 1]).history := by
  -- Both histories are evaluated: the one has a drop and no alarm, the other resets its timer.
  constructor
  · have seen : (run 1000 [.drop 0, .warn 0, .check 1]).history =
        [.checked 1001 .quiet, .warned 1000, .dropped 1000] := by
      decide +kernel
    rw [seen]
    intro tracks
    obtain ⟨probId, is⟩ := tracks.1.raises (by decide) rfl
    cases is
  · have seen : (run 1000 [.drop 0, .warn 0, .drop 1, .warn 0, .check 1, .check 1]).history =
        [.checked 1003 .restart, .checked 1002 (.raise 0), .dropped 1001, .warned 1000,
          .dropped 1000] := by
      decide +kernel
    rw [seen]
    intro tracks
    exact (tracks.1.unprovoked rfl).2 rfl

end DropAlarm

end Rmr
