import Rmr.Proofs.Receive.Chute
import Rmr.Receive.Ownership

/-! Each message that was put into a chute is freed or returned once, if none is put over another
one. -/

namespace Rmr

/-- The message in the chute was freed, and the chute is about to be cleared. -/
def CallPc.stale : CallPc → Bool
  | .clearNil | .dropNil => true
  | _ => false

namespace OwnedChute
variable {slot : OwnedChute}

/-- How often the message in the chute was freed. -/
def spent (slot : OwnedChute) : Nat := if slot.run.pc.stale then 1 else 0

/-- What holds of a chute where its caller is. -/
structure Sound (slot : OwnedChute) : Prop where
  /-- There is a number for each message. -/
  numbered : slot.held.isSome = slot.run.mbuf.isSome
  here :
    match slot.run.pc with
    | .clearFree | .clearNil | .dropFree | .dropNil | .take => slot.held.isSome = true
    | .loopTest | .wakeTest => slot.run.errno = true → slot.run.failed = true
    | .wait => slot.run.errno = false
    | .compare => slot.held.isSome = true ∧ (slot.run.errno = true → slot.run.failed = true)
    | .exitTest => slot.run.failed = false → slot.held.isSome = true
    | .takeNil => slot.held.isSome = true ∧ slot.took = slot.held
    | _ => True

/-- The caller does not post. -/
theorem caller_storing (slot : OwnedChute) (sent : Bool) (wait : WaitRet) :
    (slot.caller sent wait).run.storing = slot.run.storing := by
  -- The caller takes the semaphore and never posts; each place is looked at.
  obtain ⟨⟨mbuf, expect, barrier, pc, request, failed, errno, taken, storing, answers⟩, held,
    took⟩ := slot
  cases pc with
  | send => cases sent <;> rfl
  | wait => cases wait <;> cases barrier <;> rfl
  | _ => rfl

/-- A caller that goes on finds what it needs. -/
theorem Sound.caller (sound : slot.Sound) (sent : Bool) (wait : WaitRet) :
    (slot.caller sent wait).Sound := by
  obtain ⟨⟨mbuf, expect, barrier, pc, request, failed, errno, taken, storing, answers⟩, held,
    took⟩ := slot
  obtain ⟨numbered, here⟩ := sound
  have numbered : held.isSome = mbuf.isSome := numbered
  cases pc with
  | idle => exact ⟨numbered, trivial⟩
  | clearTest =>
    cases mbuf with
    | none => exact ⟨numbered, trivial⟩
    | some old => exact ⟨numbered, numbered⟩
  | clearFree => exact ⟨numbered, here⟩
  | clearNil => exact ⟨rfl, trivial⟩
  | expect => exact ⟨numbered, trivial⟩
  | send =>
    cases sent with
    | true => exact ⟨numbered, fun is => absurd is Bool.false_ne_true⟩
    | false => exact ⟨numbered, trivial⟩
  | loopTest =>
    cases mbuf with
    | none =>
      cases errno with
      | false => exact ⟨numbered, rfl⟩
      | true =>
        -- The wait failed, so that the loop is left to return nothing.
        refine ⟨numbered, fun is => ?_⟩
        exact absurd ((here rfl).symm.trans is) Bool.false_ne_true.symm
    | some msg => exact ⟨numbered, fun _ => numbered⟩
  | wait =>
    have errs : errno = false := here
    cases wait with
    | posted =>
      cases barrier with
      | zero => exact ⟨numbered, errs⟩
      | succ count => exact ⟨numbered, fun is => absurd (errs.symm.trans is) Bool.false_ne_true⟩
    | interrupted => exact ⟨numbered, fun _ => rfl⟩
    | failed => exact ⟨numbered, fun _ => rfl⟩
  | wakeTest =>
    cases mbuf with
    | none => exact ⟨numbered, here⟩
    | some msg => exact ⟨numbered, numbered, here⟩
  | compare =>
    obtain ⟨some_, errs⟩ := here
    unfold OwnedChute.caller CallRun.caller
    by_cases same : mbuf.map Mbuf.xaction = some expect
    · exact ⟨numbered, by dsimp only; rw [if_pos same]; exact errs⟩
    · exact ⟨numbered, by dsimp only; rw [if_neg same]; exact some_⟩
  | dropFree => exact ⟨numbered, here⟩
  | dropNil => exact ⟨rfl, fun is => absurd is Bool.false_ne_true⟩
  | exitTest =>
    cases failed with
    | true => exact ⟨numbered, trivial⟩
    | false => exact ⟨numbered, here rfl⟩
  | take => exact ⟨numbered, here, rfl⟩
  | takeNil => exact ⟨rfl, trivial⟩

/-- What a step of the caller costs the message with a number. -/
def Pays (slot next : OwnedChute) (num : Nat) : Prop :=
  slot.freeing.count num + slot.returning.count num +
      (if slot.held = some num then slot.spent else 0) =
    if slot.held = some num then if next.held = some num then next.spent else 1 else 0

/-- Nothing is freed or returned as long as the message stays. -/
theorem Pays.nothing {next : OwnedChute} (freeing : slot.freeing = [])
    (returning : slot.returning = [])
    (held : next.held = slot.held) (spent : next.spent = slot.spent) {num : Nat} :
    slot.Pays next num := by
  rw [Pays, freeing, returning, held, spent, List.count_nil]
  split <;> omega

/-- What is freed stays until the chute is cleared. -/
theorem Pays.frees {next : OwnedChute} (some_ : slot.held.isSome = true)
    (freeing : slot.freeing = slot.held.toList) (returning : slot.returning = [])
    (held : next.held = slot.held) (before : slot.spent = 0) (after : next.spent = 1) {num : Nat} :
    slot.Pays next num := by
  -- Nothing was paid for before; then the old message is the one that is freed.
  obtain ⟨old, is⟩ := Option.isSome_iff_exists.mp some_
  rw [Pays, freeing, returning, held, before, after, is]
  by_cases same : old = num
  · rw [same, if_pos rfl, if_pos rfl, if_pos rfl, Option.toList, List.count_singleton_self,
      List.count_nil]
  · have differs : ¬ some old = some num := fun equal => same (Option.some.inj equal)
    rw [if_neg differs, if_neg differs, Option.toList, List.count_nil,
      List.count_eq_zero_of_not_mem fun among => same (List.mem_singleton.mp among).symm]

/-- What was freed leaves the chute. -/
theorem Pays.clears {next : OwnedChute} (freeing : slot.freeing = [])
    (returning : slot.returning = [])
    (held : next.held = none) (before : slot.spent = 1) {num : Nat} : slot.Pays next num := by
  rw [Pays, freeing, returning, held, before, List.count_nil, if_neg (c := none = some num) nofun,
    Nat.zero_add]

/-- What is returned leaves the chute. -/
theorem Pays.returns {next : OwnedChute} (some_ : slot.held.isSome = true)
    (freeing : slot.freeing = [])
    (returning : slot.returning = slot.held.toList) (held : next.held = none)
    (before : slot.spent = 0)
    {num : Nat} : slot.Pays next num := by
  -- Nothing was paid for before; then the old message is the one that is returned.
  obtain ⟨old, is⟩ := Option.isSome_iff_exists.mp some_
  rw [Pays, freeing, returning, held, before, is, if_neg (c := none = some num) nofun]
  by_cases same : old = num
  · rw [same, if_pos rfl, if_pos rfl, Option.toList, List.count_singleton_self, List.count_nil]
  · have differs : ¬ some old = some num := fun equal => same (Option.some.inj equal)
    rw [if_neg differs, if_neg differs, Option.toList, List.count_nil,
      List.count_eq_zero_of_not_mem fun among => same (List.mem_singleton.mp among).symm]

/-- A caller that goes on frees or returns only what is in its chute, which leaves the chute only
after that. -/
theorem Sound.pays (sound : slot.Sound) (sent : Bool) (wait : WaitRet) (num : Nat) :
    slot.Pays (slot.caller sent wait) num := by
  -- One case for each place of the caller: it frees in one, and returns in another.
  obtain ⟨⟨mbuf, expect, barrier, pc, request, failed, errno, taken, storing, answers⟩, held,
    took⟩ := slot
  obtain ⟨numbered, here⟩ := sound
  cases pc with
  | clearTest => cases mbuf <;> exact Pays.nothing rfl rfl rfl rfl
  | send => cases sent <;> exact Pays.nothing rfl rfl rfl rfl
  | loopTest => cases mbuf <;> cases errno <;> exact Pays.nothing rfl rfl rfl rfl
  | wait => cases wait <;> cases barrier <;> exact Pays.nothing rfl rfl rfl rfl
  | wakeTest => cases mbuf <;> exact Pays.nothing rfl rfl rfl rfl
  | compare =>
    apply Pays.nothing
    · rfl
    · rfl
    · rfl
    · unfold OwnedChute.caller CallRun.caller spent
      dsimp only
      split <;> rfl
  | exitTest => cases failed <;> exact Pays.nothing rfl rfl rfl rfl
  | clearFree => apply Pays.frees here <;> rfl
  | dropFree => apply Pays.frees here <;> rfl
  | clearNil => exact Pays.clears rfl rfl rfl rfl
  | dropNil => exact Pays.clears rfl rfl rfl rfl
  | takeNil =>
    obtain ⟨some_, same⟩ := here
    exact Pays.returns some_ rfl (congrArg Option.toList same) rfl rfl
  | _ => exact Pays.nothing rfl rfl rfl rfl

/-- A message comes to an empty chute. -/
theorem Sound.store (sound : slot.Sound) (empty : slot.held = none)
    (posted : slot.run.storing = false)
    (num : Nat) (msg : Mbuf) : (slot.store num msg).Sound ∧ (slot.store num msg).spent = 0 := by
  obtain ⟨⟨mbuf, expect, barrier, pc, request, failed, errno, taken, storing, answers⟩, held,
    took⟩ := slot
  obtain ⟨numbered, here⟩ := sound
  cases posted
  cases empty
  cases pc with
  | idle => exact ⟨⟨rfl, trivial⟩, rfl⟩
  | clearTest => exact ⟨⟨rfl, trivial⟩, rfl⟩
  | expect => exact ⟨⟨rfl, trivial⟩, rfl⟩
  | send => exact ⟨⟨rfl, trivial⟩, rfl⟩
  | loopTest => exact ⟨⟨rfl, here⟩, rfl⟩
  | wait => exact ⟨⟨rfl, here⟩, rfl⟩
  | wakeTest => exact ⟨⟨rfl, here⟩, rfl⟩
  | exitTest => exact ⟨⟨rfl, fun _ => rfl⟩, rfl⟩
  -- At the other places there is a message.
  | clearFree => cases here
  | clearNil => cases here
  | compare => cases here.1
  | dropFree => cases here
  | dropNil => cases here
  | take => cases here
  | takeNil => cases here.1

/-- The post changes the semaphore only. -/
theorem Sound.post (sound : slot.Sound) : Sound { slot with run := slot.run.step .post } := by
  -- The post comes after the message was put in, and changes neither.
  obtain ⟨⟨mbuf, expect, barrier, pc, request, failed, errno, taken, storing, answers⟩, held,
    took⟩ := slot
  obtain ⟨numbered, here⟩ := sound
  cases storing with
  | true => exact ⟨numbered, here⟩
  | false => exact ⟨numbered, here⟩

/-- An application calls. -/
theorem Sound.call (sound : slot.Sound) (request : Mbuf) :
    Sound { slot with run := slot.run.step (.call request) } := by
  -- A call starts from an idle chute only.
  obtain ⟨⟨mbuf, expect, barrier, pc, old, failed, errno, taken, storing, answers⟩, held, took⟩ :=
    slot
  obtain ⟨numbered, here⟩ := sound
  cases pc with
  | idle => exact ⟨numbered, trivial⟩
  | _ => exact ⟨numbered, here⟩

end OwnedChute

namespace Chutes
variable {chutes : Chutes}

/-- A chute that is changed makes one step of its own, and the others none. -/
theorem step_slot (chutes : Chutes) (event : ChuteEvent) (callId : UInt8) :
    ∃ calls : List CallEvent,
      ((chutes.step event).slots callId).run =
        calls.foldl CallRun.step (chutes.slots callId).run := by
  -- One event at a chute, seen from any chute.
  have one : ∀ (at_ : UInt8) (slot : OwnedChute) (call : CallEvent),
      slot.run = (chutes.slots at_).run.step call →
        ∃ calls : List CallEvent, (Function.update chutes.slots at_ slot callId).run =
          calls.foldl CallRun.step (chutes.slots callId).run := by
    intro at_ slot call is
    by_cases equal : callId = at_
    · refine ⟨[call], ?_⟩
      rw [equal, Function.update_self]
      exact is
    · refine ⟨[], ?_⟩
      rw [Function.update_of_ne equal]
      rfl
  cases event with
  | call at_ request => exact one at_ _ (.call request) rfl
  | caller at_ sent wait => exact one at_ _ (.caller sent wait) rfl
  | inbound delivery =>
    unfold Chutes.step
    dsimp only
    split
    · rename_i at_ msg _
      exact one at_ _ (.store msg) rfl
    · exact ⟨[], rfl⟩
  | post =>
    unfold Chutes.step
    dsimp only
    split
    · exact ⟨[], rfl⟩
    · rename_i at_ _
      exact one at_ _ .post rfl

/-- Each chute with its caller goes through a run of its own, whatever happens at the others. -/
theorem run_slot (msg : Mbuf) (events : List ChuteEvent) (callId : UInt8) :
    ∃ calls, ((events.foldl step (init msg)).slots callId).run = CallRun.run msg calls := by
  -- By induction on the events; each is one of the run of this chute, or does nothing there.
  induction events using List.reverseRecOn with
  | nil => exact ⟨[], rfl⟩
  | append_singleton events event ih =>
    obtain ⟨calls, is⟩ := ih
    obtain ⟨more, next⟩ := step_slot (events.foldl step (init msg)) event callId
    refine ⟨calls ++ more, ?_⟩
    rw [List.foldl_append, List.foldl_cons, List.foldl_nil, next, is, CallRun.run, CallRun.run,
      List.foldl_append]

/-- Each message that was put into a chute is, when no chute has it any more, either freed once or
returned to one caller; and never was it freed or returned more often than that. -/
def Owned (chutes : Chutes) : Prop :=
  ∀ num < chutes.next, chutes.fate num ≤ 1 ∧
    ((∀ callId, (chutes.slots callId).held ≠ some num) → chutes.fate num = 1)

/-- A message comes to an empty chute. -/
def Vacant (chutes : Chutes) (event : ChuteEvent) : Prop :=
  match event with
  | .inbound (.chute callId _) => chutes.posting = none →
    (chutes.slots callId).run.mbuf.isNone = true
  | _ => True

/-- What holds of the chutes at all times. -/
structure Inv (chutes : Chutes) : Prop where
  sound : ∀ callId, (chutes.slots callId).Sound
  /-- The chute of a message that was not posted is the one that the receive thread is about to
  post. -/
  posting : ∀ callId, (chutes.slots callId).run.storing = true → chutes.posting = some callId
  /-- No two chutes have the same message. -/
  alone : ∀ callId other num, (chutes.slots callId).held = some num →
    (chutes.slots other).held = some num → callId = other
  came : ∀ callId num, (chutes.slots callId).held = some num → num < chutes.next
  kept : ∀ callId num, (chutes.slots callId).held = some num →
    chutes.fate num = (chutes.slots callId).spent
  gone : ∀ num < chutes.next, (∀ callId, (chutes.slots callId).held ≠ some num) →
    chutes.fate num = 1
  new : ∀ num, chutes.next ≤ num → chutes.fate num = 0

/-- No message came yet, and none is held. -/
theorem init_inv (msg : Mbuf) : (init msg).Inv where
  -- Every chute is idle, and no message has come.
  sound := fun _ => ⟨rfl, trivial⟩
  posting := fun _ is => absurd is Bool.false_ne_true
  alone := by
    intro callId other num is
    cases is
  came := by
    intro callId num is
    cases is
  kept := by
    intro callId num is
    cases is
  gone := fun num before => absurd before (Nat.not_lt_zero num)
  new := fun _ _ => rfl

/-- A message in a chute was freed once at most. -/
theorem spent_le_one (slot : OwnedChute) : slot.spent ≤ 1 := by
  unfold OwnedChute.spent
  split <;> decide

/-- Each message is freed or returned once. -/
theorem Inv.owned (inv : chutes.Inv) : chutes.Owned := by
  -- A message is in one chute at most; otherwise it is gone, which is counted.
  intro num before
  refine ⟨?_, inv.gone num before⟩
  by_cases somewhere : ∃ callId, (chutes.slots callId).held = some num
  · obtain ⟨callId, is⟩ := somewhere
    rw [inv.kept callId num is]
    exact spent_le_one _
  · rw [inv.gone num before fun callId is => somewhere ⟨callId, is⟩]

/-- One chute changes, in that its message stays or leaves, and what is freed or returned is paid
for. -/
theorem Inv.moved (inv : chutes.Inv) {next : Chutes} (callId : UInt8) {slot : OwnedChute}
    (slots : next.slots = Function.update chutes.slots callId slot) (same : next.next = chutes.next)
    (sound : slot.Sound)
    (posting : ∀ other, (next.slots other).run.storing = true → next.posting = some other)
    (held : slot.held = (chutes.slots callId).held ∨ slot.held = none)
    (paid : ∀ num,
      next.fate num +
          (if (chutes.slots callId).held = some num then (chutes.slots callId).spent else 0) =
        chutes.fate num +
          (if (chutes.slots callId).held = some num then
            if slot.held = some num then slot.spent else 1 else 0)) : next.Inv := by
  have here : next.slots callId = slot := by rw [slots, Function.update_self]
  have there : ∀ other, other ≠ callId → next.slots other = chutes.slots other := by
    intro other differs
    rw [slots, Function.update_of_ne differs]
  -- A message that is in a chute was in the same one before.
  have before : ∀ other num, (next.slots other).held = some num →
      (chutes.slots other).held = some num := by
    intro other num is
    by_cases equal : other = callId
    · rw [equal, here] at is
      rw [equal]
      rcases held with stays | leaves
      · exact stays.symm.trans is
      · rw [leaves] at is
        cases is
    · rwa [there other equal] at is
  -- What is not in the chute costs nothing.
  have free : ∀ num, (chutes.slots callId).held ≠ some num → next.fate num = chutes.fate num := by
    intro num differs
    have pays := paid num
    rwa [if_neg differs, if_neg differs] at pays
  exact {
    sound := by
      intro other
      by_cases equal : other = callId
      · rw [equal, here]
        exact sound
      · rw [there other equal]
        exact inv.sound other
    posting := posting
    alone := fun one other num is also =>
      inv.alone one other num (before one num is) (before other num also)
    came := by
      intro other num is
      rw [same]
      exact inv.came other num (before other num is)
    kept := by
      intro other num is
      have was := before other num is
      by_cases equal : other = callId
      · rw [equal] at is was ⊢
        rw [here] at is ⊢
        have pays := paid num
        rw [if_pos was, if_pos was, if_pos is, inv.kept callId num was] at pays
        omega
      · rw [free num fun also => equal (inv.alone other callId num was also), there other equal]
        exact inv.kept other num was
    gone := by
      intro num small nobody
      rw [same] at small
      by_cases was : (chutes.slots callId).held = some num
      · -- It left the chute just now.
        have left : slot.held ≠ some num := here ▸ nobody callId
        have pays := paid num
        rw [if_pos was, if_pos was, if_neg left, inv.kept callId num was] at pays
        omega
      · rw [free num was]
        refine inv.gone num small fun other is => ?_
        by_cases equal : other = callId
        · exact was (equal ▸ is)
        · exact nobody other ((there other equal).symm ▸ is)
    new := by
      intro num large
      rw [same] at large
      rw [free num fun is => absurd (inv.came callId num is) (Nat.not_lt.mpr large)]
      exact inv.new num large }

/-- A chute changes that has the same message after that. -/
theorem Inv.withSlot (inv : chutes.Inv) (callId : UInt8) {slot : OwnedChute} (sound : slot.Sound)
    (storing : slot.run.storing = (chutes.slots callId).run.storing)
    (held : slot.held = (chutes.slots callId).held)
    (spent : (chutes.slots callId).held.isSome = true → slot.spent = (chutes.slots callId).spent) :
    (chutes.withSlot callId slot).Inv := by
  -- The chute has the same message, so that no message comes or goes.
  refine inv.moved callId rfl rfl sound ?_ (.inl held) ?_
  · intro other is
    by_cases equal : other = callId
    · rw [equal] at is ⊢
      refine inv.posting callId ?_
      rw [← storing, ← is, Chutes.withSlot]
      dsimp only
      rw [Function.update_self]
    · refine inv.posting other ?_
      rw [← is, Chutes.withSlot]
      dsimp only
      rw [Function.update_of_ne equal]
  · intro num
    rw [held]
    split
    · rename_i is
      rw [spent (by rw [is]; rfl)]
      rfl
    · rfl

/-- The caller of a chute goes on. -/
theorem Inv.caller (inv : chutes.Inv) (callId : UInt8) (sent : Bool) (wait : WaitRet) :
    (chutes.step (.caller callId sent wait)).Inv := by
  -- The caller frees or returns what is in its chute, and nothing else.
  have sound := inv.sound callId
  refine inv.moved callId rfl rfl (sound.caller sent wait) ?_ ?_ ?_
  · intro other is
    refine inv.posting other ?_
    rw [← is]
    show _ = (Function.update chutes.slots callId _ other).run.storing
    by_cases equal : other = callId
    · rw [equal, Function.update_self, OwnedChute.caller_storing]
    · rw [Function.update_of_ne equal]
  · unfold OwnedChute.caller
    dsimp only
    split
    · exact .inr rfl
    · exact .inr rfl
    · exact .inr rfl
    · exact .inl rfl
  · intro num
    have pays := sound.pays sent wait num
    show (chutes.freed ++ _).count num + (chutes.returned ++ _).count num + _ =
      chutes.freed.count num + chutes.returned.count num + _
    rw [OwnedChute.Pays] at pays
    rw [List.count_append, List.count_append]
    omega

/-- A message is put into an empty chute. -/
theorem Inv.inbound (inv : chutes.Inv) (callId : UInt8) (msg : Mbuf)
    (posted : chutes.posting = none)
    (empty : (chutes.slots callId).run.mbuf.isNone = true) :
    Inv { chutes.withSlot callId ((chutes.slots callId).store chutes.next msg) with
      posting := some callId
      next := chutes.next + 1 } := by
  have still : ∀ other, (chutes.slots other).run.storing = false := by
    intro other
    refine Bool.eq_false_iff.mpr fun is => ?_
    have is := inv.posting other is
    rw [posted] at is
    cases is
  have nothing : (chutes.slots callId).held = none := by
    have numbered := (inv.sound callId).numbered
    rw [Option.isNone_iff_eq_none.mp empty] at numbered
    exact Option.isSome_eq_false_iff.mp numbered |> Option.isNone_iff_eq_none.mp
  obtain ⟨sound, unspent⟩ := (inv.sound callId).store nothing (still callId) chutes.next msg
  -- The chute has the new message, and the others have what they had.
  have slots : ∀ other, Function.update chutes.slots callId
    ((chutes.slots callId).store chutes.next msg)
      other = if other = callId then (chutes.slots callId).store chutes.next msg
        else chutes.slots other :=
    fun other => Function.update_apply chutes.slots callId _ other
  have holds : ∀ other num,
      (Function.update chutes.slots callId ((chutes.slots callId).store chutes.next msg)
        other).held =
        some num → other = callId ∧ num = chutes.next ∨
          other ≠ callId ∧ (chutes.slots other).held = some num := by
    intro other num is
    rw [slots] at is
    split at is
    · rename_i equal
      exact .inl ⟨equal, (Option.some.inj is).symm⟩
    · rename_i differs
      exact .inr ⟨differs, is⟩
  exact {
    sound := by
      intro other
      show (Function.update chutes.slots callId _ other).Sound
      rw [slots]
      split
      · exact sound
      · exact inv.sound other
    posting := by
      intro other is
      by_cases equal : other = callId
      · rw [equal]
      · have is : (Function.update chutes.slots callId _ other).run.storing = true := is
        rw [slots, if_neg equal, still other] at is
        cases is
    alone := by
      intro one other num is also
      rcases holds one num is with ⟨here, last⟩ | ⟨differs, is⟩
      · rcases holds other num also with ⟨there, _⟩ | ⟨_, also⟩
        · rw [here, there]
        · have old := inv.came other num also
          omega
      · rcases holds other num also with ⟨_, last⟩ | ⟨_, also⟩
        · have old := inv.came one num is
          omega
        · exact inv.alone one other num is also
    came := by
      intro other num is
      show num < chutes.next + 1
      rcases holds other num is with ⟨_, last⟩ | ⟨_, is⟩
      · omega
      · exact Nat.lt_succ_of_lt (inv.came other num is)
    kept := by
      intro other num is
      show chutes.fate num = (Function.update chutes.slots callId _ other).spent
      rw [slots]
      rcases holds other num is with ⟨here, last⟩ | ⟨differs, is⟩
      · rw [if_pos here, unspent, last]
        exact inv.new chutes.next (Nat.le_refl _)
      · rw [if_neg differs]
        exact inv.kept other num is
    gone := by
      intro num small nobody
      have small : num < chutes.next + 1 := small
      show chutes.fate num = 1
      have differs : num ≠ chutes.next := by
        intro last
        have holds : (Function.update chutes.slots callId
          ((chutes.slots callId).store chutes.next msg)
            callId).held ≠ some num := nobody callId
        rw [Function.update_self] at holds
        exact holds (congrArg some last.symm)
      refine inv.gone num (by omega) fun other is => ?_
      by_cases equal : other = callId
      · rw [equal, nothing] at is
        cases is
      · have holds : (Function.update chutes.slots callId _ other).held ≠ some num := nobody other
        rw [slots, if_neg equal] at holds
        exact holds is
    new := fun num large => inv.new num (Nat.le_of_succ_le large) }

/-- The receive thread posts. -/
theorem Inv.post (inv : chutes.Inv) {callId : UInt8} (posting : chutes.posting = some callId) :
    Inv { chutes.withSlot callId { chutes.slots callId with
      run := (chutes.slots callId).run.step .post } with posting := none } := by
  have posted : ((chutes.slots callId).run.step .post).storing = false := by
    unfold CallRun.step
    dsimp only
    split
    · rfl
    · rename_i still
      exact Bool.eq_false_of_not_eq_true still
  have stays : ((chutes.slots callId).run.step .post).pc = (chutes.slots callId).run.pc := by
    unfold CallRun.step
    dsimp only
    split <;> rfl
  refine inv.moved callId rfl rfl (inv.sound callId).post ?_ (.inl rfl) ?_
  · intro other is
    have is : (Function.update chutes.slots callId _ other).run.storing = true := is
    by_cases equal : other = callId
    · rw [equal, Function.update_self] at is
      rw [posted] at is
      cases is
    · -- Only one chute has a message that was not posted.
      rw [Function.update_of_ne equal] at is
      exact absurd (Option.some.inj ((inv.posting other is).symm.trans posting)) equal
  · intro num
    show chutes.fate num + _ = chutes.fate num + _
    unfold OwnedChute.spent
    dsimp only
    rw [stays]
    split <;> rfl

/-- Every event keeps what holds, if no message is put over another one. -/
theorem Inv.step (inv : chutes.Inv) {event : ChuteEvent} (vacant : chutes.Vacant event) :
    (chutes.step event).Inv := by
  -- One case for each event; a message that is stored comes into an empty chute.
  cases event with
  | call callId request =>
    refine inv.withSlot callId ((inv.sound callId).call request) ?_ rfl ?_
    · unfold CallRun.step
      dsimp only
      split <;> rfl
    · intro _
      unfold OwnedChute.spent CallRun.step
      dsimp only
      split
      · rename_i idle
        rw [idle]
        rfl
      · rfl
  | caller callId sent wait => exact inv.caller callId sent wait
  | inbound delivery =>
    unfold Chutes.step
    dsimp only
    split
    · rename_i callId msg posted
      exact inv.inbound callId msg posted (vacant posted)
    · exact inv
  | post =>
    unfold Chutes.step
    dsimp only
    split
    · exact inv
    · rename_i callId posting
      exact inv.post posting

/-- In every interleaving of callers with the messages that come, whatever the call ids are, as long
as each message that goes to a chute finds it empty: each is freed once or returned to one caller by
the time that it has left the chute, and never more than that. -/
theorem run_owned (msg : Mbuf) (events : List ChuteEvent)
    (vacant : Throughout step Vacant (init msg) events) : (events.foldl step (init msg)).Owned := by
  -- By the invariant, which every event that finds its chute vacant keeps.
  have inv : (events.foldl step (init msg)).Inv :=
    vacant.keeps (fun inv meets => inv.step meets) (init_inv msg)
  exact inv.owned

instance decidableVacant (chutes : Chutes) : (event : ChuteEvent) → Decidable (chutes.Vacant event)
  | .inbound (.chute _ _) => inferInstanceAs (Decidable (_ → _))
  | .inbound .dropped => .isTrue trivial
  | .inbound (.normal _) => .isTrue trivial
  | .call _ _ => .isTrue trivial
  | .caller _ _ _ => .isTrue trivial
  | .post => .isTrue trivial

/-- The caller of a chute goes on as often as given. -/
def callerOn (callId : UInt8) (count : Nat) : List ChuteEvent :=
  List.replicate count (.caller callId true .posted)

/-- A message comes to a chute and is posted. -/
def arrives (callId : UInt8) (xid : UInt8) : List ChuteEvent :=
  [.inbound (.chute callId (CallRun.msgWith xid)), .post]

/-- Two callers: the one finds a delayed message and gets its answer, the other one drops a message
that is not for it. -/
def twoCallers : List ChuteEvent :=
  arrives 1 9 ++ [.call 1 (CallRun.msgWith 1), .call 2 (CallRun.msgWith 2)] ++ callerOn 2 4 ++
    callerOn 1 6 ++ arrives 2 8 ++ arrives 1 1 ++ callerOn 1 8 ++ callerOn 2 6

/-- Of the three messages, two are freed and one is returned. -/
theorem run_owned_two :
    Throughout step Vacant (init (CallRun.msgWith 0)) twoCallers ∧
      (twoCallers.foldl step (init (CallRun.msgWith 0))).freed = [0, 1] ∧
      (twoCallers.foldl step (init (CallRun.msgWith 0))).returned = [2] ∧
      (twoCallers.foldl step (init (CallRun.msgWith 0))).Owned := by
  have vacant : Throughout step Vacant (init (CallRun.msgWith 0)) twoCallers := by decide +kernel
  exact ⟨vacant, by decide +kernel, by decide +kernel,
    run_owned (CallRun.msgWith 0) twoCallers vacant⟩

/-- Two messages for a call id that nobody waits at: the first one is lost. -/
theorem overwritten :
    ¬ ((arrives 1 1 ++ arrives 1 2).foldl step (init (CallRun.msgWith 0))).Owned := by
  -- The first message is in no chute, while nothing says that it was freed.
  intro owned
  have lost : ∀ callId,
      (((arrives 1 1 ++ arrives 1 2).foldl step (init (CallRun.msgWith 0))).slots callId).held ≠
        some 0 := by
    intro callId is
    by_cases equal : callId = 1
    · rw [equal] at is
      cases is
    · simp [arrives, step, init, withSlot, OwnedChute.store, equal] at is
  have once := (owned 0 (by decide)).2 lost
  cases once

end Chutes

end Rmr
