import Rmr.Lib.CInt
import Rmr.Lib.Run

/-! Dropped messages, and the alarm that the collector raises and clears for them. -/

namespace Rmr

/-- What a check for drops comes to. -/
inductive AlarmOutcome where
  /-- There is no alarm, and none is needed. -/
  | quiet
  | raise (probId : Int)
  /-- Messages are dropped still or again, so that the timer is reset. -/
  | restart
  /-- First round without drops: the timer is started. -/
  | start
  /-- The timer has not expired. -/
  | wait
  | clear (probId : Int)
  deriving DecidableEq

/-- What is seen of drops and alarms, with the time. -/
inductive AlarmEntry where
  | dropped (time : Nat)
  /-- The warning is logged, and the counter reset. -/
  | warned (time : Nat)
  | checked (time : Nat) (outcome : AlarmOutcome)
  deriving DecidableEq

/-- What `queue_normal` and `alarm_if_drops` remember from call to call. -/
structure DropAlarm where
  now : Nat
  dcount : Int
  lastWarning : Nat
  /-- `queue_normal` has counted a drop, and is about to see whether to warn. -/
  counted : Bool
  alarmRaised : Bool
  ok2clear : Int
  lastd : Int
  probId : Int
  /-- What happened so far, the last of it first. -/
  history : List AlarmEntry

/-- What happens, each so many seconds after what happened before. -/
inductive AlarmEvent where
  /-- `queue_normal` drops a message, as the ring is full, and counts it. -/
  | drop (after : Nat)
  /-- The rest of that call. -/
  | warn (after : Nat)
  /-- `alarm_if_drops`. -/
  | check (after : Nat)

namespace DropAlarm

/-- Before anything was dropped, at some time. -/
def init (now : Nat) : DropAlarm where
  now := now
  dcount := 0
  lastWarning := 0
  counted := false
  alarmRaised := false
  ok2clear := 0
  lastd := 0
  probId := 0
  history := []

/-- Time passes. -/
def later (sys : DropAlarm) (seconds : Nat) : DropAlarm := { sys with now := sys.now + seconds }

/-- `queue_normal` up to the count of a message that it drops. -/
def drop (sys : DropAlarm) : DropAlarm :=
  if sys.counted then sys
  else { sys with
    dcount := toInt (sys.dcount + 1)
    counted := true
    history := .dropped sys.now :: sys.history }

/-- The rest of `queue_normal`: a warning no more often than every minute. -/
def warn (sys : DropAlarm) : DropAlarm :=
  if sys.counted = false then sys
  else if sys.lastWarning + 60 < sys.now then
    { sys with
      counted := false
      lastWarning := sys.now
      dcount := 0
      history := .warned sys.now :: sys.history }
  else { sys with counted := false }

/-- The outcome of a check is noted. -/
def note (sys : DropAlarm) (outcome : AlarmOutcome) : DropAlarm :=
  { sys with history := .checked sys.now outcome :: sys.history }

/-- `alarm_if_drops`. -/
def check (sys : DropAlarm) : DropAlarm :=
  if sys.alarmRaised = false then
    if sys.dcount - sys.lastd = 0 then sys.note .quiet
    else { sys with alarmRaised := true }.note (.raise sys.probId)
  else if sys.dcount - sys.lastd ≠ 0 then
    { sys with lastd := sys.dcount, ok2clear := 0 }.note .restart
  else if sys.ok2clear = 0 then
    -- The time is cut to an int.
    { sys with ok2clear := toInt (sys.now + 60) }.note .start
  else if sys.ok2clear < sys.now then
    { sys with alarmRaised := false, probId := toInt (sys.probId + 1) }.note (.clear sys.probId)
  else sys.note .wait

/-- One event. -/
def step (sys : DropAlarm) : AlarmEvent → DropAlarm
  | .drop after => (sys.later after).drop
  | .warn after => (sys.later after).warn
  | .check after => (sys.later after).check

/-- Events one after the other. -/
def run (now : Nat) (events : List AlarmEvent) : DropAlarm := events.foldl step (init now)

end DropAlarm

/-- The messages dropped since the last check. -/
def dropsSince : List AlarmEntry → Nat
  | [] => 0
  | .dropped _ :: older => dropsSince older + 1
  | .warned _ :: older => dropsSince older
  | .checked _ _ :: _ => 0

/-- The problem id of the alarm that is raised, if there is one. -/
def raisedBy : List AlarmEntry → Option Int
  | [] => none
  | .checked _ (.raise probId) :: _ => some probId
  | .checked _ (.clear _) :: _ => none
  | _ :: older => raisedBy older

/-- The last check raised an alarm. -/
def raisedLast : List AlarmEntry → Bool
  | [] => false
  | .checked _ (.raise _) :: _ => true
  | .checked _ _ :: _ => false
  | _ :: older => raisedLast older

/-- A warning reset the counter since the last check. -/
def warnedSince : List AlarmEntry → Bool
  | [] => false
  | .dropped _ :: older => warnedSince older
  | .warned _ :: _ => true
  | .checked _ _ :: _ => false

/-- A check does what it should, after what happened before it. -/
structure Proper (time : Nat) (outcome : AlarmOutcome) (older : List AlarmEntry) : Prop where
  /-- A drop since the last check raises an alarm where there is none. -/
  raises : 0 < dropsSince older → raisedBy older = none → ∃ probId, outcome = .raise probId
  /-- Without a drop since the last check no alarm is raised, and the timer not reset. -/
  unprovoked : dropsSince older = 0 → (∀ probId, outcome ≠ .raise probId) ∧ outcome ≠ .restart
  /-- An alarm is raised only where there is none. -/
  alternates : ∀ probId, outcome = .raise probId → raisedBy older = none
  /-- The alarm that is cleared is the one that is raised, and nothing was dropped for a minute. -/
  clears : ∀ probId, outcome = .clear probId → raisedBy older = some probId ∧
    ∀ dropped, .dropped dropped ∈ older → dropped + 60 < time

/-- All checks did what they should. -/
def Tracks : List AlarmEntry → Prop
  | [] => True
  | .checked time outcome :: older => Proper time outcome older ∧ Tracks older
  | _ :: older => Tracks older

/-- A check can tell from the counter whether messages were dropped, and from the timer when to
clear. Only a warning and a raise leave the counter at another distance from the value remembered
than the drops. -/
structure CanTell (sys : DropAlarm) : Prop where
  /-- A warning did not take the counter back to the value remembered, or nothing was dropped since
  the last check; then it did. -/
  reset : warnedSince sys.history = true → (sys.dcount = sys.lastd ↔ dropsSince sys.history = 0)
  /-- The value that a raise does not remember is gone past, and not as far as the one remembered.
  -/
  raised : raisedLast sys.history = true → warnedSince sys.history = false →
    0 < dropsSince sys.history ∧ sys.dcount ≠ sys.lastd
  /-- The counter has not turned round to where it was. -/
  turned : warnedSince sys.history = false → raisedLast sys.history = false →
    dropsSince sys.history % 4294967296 = 0 → dropsSince sys.history = 0
  /-- A timer left from an earlier alarm is reset by a drop after the alarm was raised. -/
  fresh : raisedLast sys.history = true → sys.ok2clear = 0 ∨ 0 < dropsSince sys.history
  /-- The end of a timer that is started is within an int. -/
  early : sys.alarmRaised = true → sys.dcount = sys.lastd → sys.ok2clear = 0 →
    (sys.now : Int) + 60 ≤ intMax

instance decidableCanTell (sys : DropAlarm) : Decidable (CanTell sys) :=
  decidable_of_iff
    ((warnedSince sys.history = true → (sys.dcount = sys.lastd ↔ dropsSince sys.history = 0)) ∧
      (raisedLast sys.history = true → warnedSince sys.history = false →
        0 < dropsSince sys.history ∧ sys.dcount ≠ sys.lastd) ∧
      (warnedSince sys.history = false → raisedLast sys.history = false →
        dropsSince sys.history % 4294967296 = 0 → dropsSince sys.history = 0) ∧
      (raisedLast sys.history = true → sys.ok2clear = 0 ∨ 0 < dropsSince sys.history) ∧
      (sys.alarmRaised = true → sys.dcount = sys.lastd → sys.ok2clear = 0 →
        (sys.now : Int) + 60 ≤ intMax))
    ⟨fun all => ⟨all.1, all.2.1, all.2.2.1, all.2.2.2.1, all.2.2.2.2⟩,
      fun tell => ⟨tell.reset, tell.raised, tell.turned, tell.fresh, tell.early⟩⟩

/-- The condition for an event: none but for checks. -/
def AlarmEvent.Fine (sys : DropAlarm) : AlarmEvent → Prop
  | .check after => CanTell (sys.later after)
  | _ => True

instance decidableFine (sys : DropAlarm) (event : AlarmEvent) : Decidable (event.Fine sys) :=
  match event with
  | .drop _ => isTrue trivial
  | .warn _ => isTrue trivial
  | .check after => decidableCanTell (sys.later after)

end Rmr
