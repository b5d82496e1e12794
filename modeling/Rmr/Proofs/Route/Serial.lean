import Rmr.Proofs.Route.Gate
import Rmr.Proofs.Route.Uncounted
import Rmr.Route.Serial

/-! Senders do not come in the way of the collector, nor the collector in theirs. -/

namespace Rmr

namespace RtCtx

/-- One look at the table that was taken off leaves the context alone, or clears the table. -/
theorem prepPoll_eq {ctx next : RtCtx} {cleared : Bool}
    (polled : ctx.prepPoll = .ok (next, cleared)) :
    if cleared then ctx.prepClear = .ok next else next = ctx := by
  -- The table is cleared as soon as its count is 0; until then nothing is done.
  unfold prepPoll at polled
  cases prep : ctx.prepRt with
  | none =>
    rw [prep] at polled
    cases polled
    simp [prepClear, prep]
  | some rt =>
    rw [prep] at polled
    obtain ⟨table, _, polled⟩ := bind_eq_ok.mp polled
    split at polled
    · cases polled
      simp
    · obtain ⟨done, clears, polled⟩ := bind_eq_ok.mp polled
      cases polled
      simpa using clears

/-- A sender that gets a table changes how often that one is used, and nothing else. -/
theorem getRt_uncounted {ctx next : RtCtx} {rt : Option Nat} (got : ctx.getRt = .ok (next, rt)) :
    next.uncounted = ctx.uncounted ∧ rt = ctx.rtable := by
  -- Where there is an active table, only its count goes up.
  unfold getRt at got
  cases active : ctx.rtable with
  | none =>
    rw [active] at got
    cases got
    exact ⟨rfl, rfl⟩
  | some rt =>
    rw [active] at got
    obtain ⟨table, there, got⟩ := bind_eq_ok.mp got
    cases got
    exact ⟨setCount_uncounted there _, rfl⟩

/-- One that releases a table likewise. -/
theorem releaseRt_uncounted {ctx next : RtCtx} {rt : Nat} (released : ctx.releaseRt rt = .ok next) :
    next.uncounted = ctx.uncounted := by
  -- A count of 0 stays; any other goes down by one.
  obtain ⟨table, there, released⟩ := bind_eq_ok.mp released
  split at released
  · cases released
    exact setCount_uncounted there _
  · cases released
    rfl

/-- Answers do not depend on the use counts. -/
theorem answer_uncounted (ctx : RtCtx) (rt : Nat) (sid mtype : Int) (tryAlt : Bool) :
    ctx.uncounted.answer rt sid mtype tryAlt = ctx.answer rt sid mtype tryAlt := by
  -- The search reads the entries of the table, never its count.
  have read : ctx.uncounted.tables rt = (ctx.tables rt).map RouteTable.uncounted := rfl
  have same : ctx.uncounted.utaGetRte rt sid mtype tryAlt = ctx.utaGetRte rt sid mtype tryAlt := by
    unfold utaGetRte
    rw [read]
    cases ctx.tables rt <;> rfl
  unfold answer
  rw [same]
  rfl

/-- Nor do owners. -/
theorem getMeidOwner_uncounted (ctx : RtCtx) (rt : Nat) (meid : CStr) :
    ctx.uncounted.getMeidOwner rt meid = ctx.getMeidOwner rt meid := by
  have read : ctx.uncounted.tables rt = (ctx.tables rt).map RouteTable.uncounted := rfl
  unfold getMeidOwner
  rw [read]
  cases ctx.tables rt <;> rfl

/-- A table that is undisturbed answers as before. -/
theorem Undisturbed.answer {ctx next : RtCtx} {rt : Nat} (undisturbed : Undisturbed ctx next rt)
    (sid mtype : Int) (tryAlt : Bool) :
    next.answer rt sid mtype tryAlt = ctx.answer rt sid mtype tryAlt := by
  -- The same entry is found in both contexts, and it is live in both with the same content.
  obtain ⟨table, table', there, there', hash, _, entries⟩ := undisturbed
  have same : next.utaGetRte rt sid mtype tryAlt = ctx.utaGetRte rt sid mtype tryAlt := by
    simp only [utaGetRte, there, there', Option.bind_eq_bind, Option.bind_some, hash]
  unfold RtCtx.answer
  rw [same]
  cases found : ctx.utaGetRte rt sid mtype tryAlt with
  | none => rfl
  | some id =>
    obtain ⟨key, listed⟩ := utaGetRte_found there found
    obtain ⟨rte, rte', live, live', entry⟩ := entries key id listed
    simp [live, live', entry]

/-- The owners in a table that is not disturbed are as they were. -/
theorem Undisturbed.owner {ctx next : RtCtx} {rt : Nat} (undisturbed : Undisturbed ctx next rt)
    (meid : CStr) : next.getMeidOwner rt meid = ctx.getMeidOwner rt meid := by
  obtain ⟨table, table', there, there', hash, _⟩ := undisturbed
  simp only [getMeidOwner, there, there', Option.bind_eq_bind, Option.bind_some, hash]

/-- What an undisturbed table is asked is answered as before. -/
theorem AnswersAs.undisturbed {ctx next other : RtCtx} {rt : Nat} (answers : ctx.AnswersAs rt other)
    (undisturbed : Undisturbed ctx next rt) : next.AnswersAs rt other := by
  -- Neither routes nor owners of an undisturbed table change.
  obtain ⟨active, is, routes, owners⟩ := answers
  refine ⟨active, is, fun sid mtype tryAlt => ?_, fun meid => ?_⟩
  · rw [undisturbed.answer, routes]
  · rw [undisturbed.owner, owners]

/-- The number of those who use a table has nothing to do with what it answers. -/
theorem AnswersAs.uncounted {ctx next other : RtCtx} {rt : Nat} (answers : ctx.AnswersAs rt other)
    (same : next.uncounted = ctx.uncounted) : next.AnswersAs rt other.uncounted := by
  -- Neither routes nor owners are read from the count.
  obtain ⟨active, is, routes, owners⟩ := answers
  refine ⟨active, is, fun sid mtype tryAlt => ?_, fun meid => ?_⟩
  · rw [← next.answer_uncounted, same, ctx.answer_uncounted, other.answer_uncounted, routes]
  · rw [← next.getMeidOwner_uncounted, same, ctx.getMeidOwner_uncounted,
      other.getMeidOwner_uncounted, owners]

/-- An active table that stays, with all its entries, answers as it did. -/
theorem answersAs_of {ctx next : RtCtx} {rt : Nat} (ok : ctx.Ok) (ok' : next.Ok)
    (later : ctx.Later next) (active : ctx.rtable = some rt) (same : next.rtable = ctx.rtable)
    (tables : next.tables rt = ctx.tables rt) : ctx.AnswersAs rt next := by
  -- Nothing was done to the active table, so that it is undisturbed.
  obtain ⟨table, there⟩ := Option.ne_none_iff_exists'.mp ((ok.reached rt).mpr (.inl active))
  have active' := same.trans active
  have undisturbed := undisturbed_of ok ok' later there (tables.trans there) rfl
    (ok'.not_new (.inl active'))
  exact ⟨rt, active', fun sid mtype tryAlt => (undisturbed.answer sid mtype tryAlt).symm,
    fun meid => (undisturbed.owner meid).symm⟩

/-- A table that is started is not the active one. -/
theorem startTable_answers {ctx next : RtCtx} {active : Nat} (ok : ctx.Ok)
    (new : ctx.newRtable = none) (old : ctx.oldRtable = none)
    (cleared : ∀ rt, ctx.prepRt = some rt → ∃ table, ctx.tables rt = some table ∧
      table.hash = ⟨∅, ∅⟩ ∧ table.error = false)
    (is : ctx.rtable = some active) {kind : TableKind} {mem : Mem}
    (started : ctx.startTable mem kind = .ok next) : ctx.AnswersAs active next := by
  obtain ⟨source, from_⟩ := Option.ne_none_iff_exists'.mp ((ok.reached active).mpr (.inl is))
  have ends := startTable_ends ok new old cleared is from_ mem kind
  rw [started] at ends
  obtain ⟨rt, starts⟩ := ends
  refine answersAs_of ok starts.ok starts.later is starts.rtable (starts.others active ?_)
  -- The table was taken off, or it was not there.
  intro equal
  rcases starts.taken with prep | ⟨_, fresh⟩
  · exact (ok.apart active is).2.2 (prep.trans (congrArg some equal.symm))
  · rw [ok.sound.newTable active (by omega)] at from_
    cases from_

/-- The table that was taken off is cleared, and one is started: neither is the active one. -/
theorem prepare_answers {ctx next : RtCtx} {active : Nat} (ok : ctx.Ok)
    (new : ctx.newRtable = none) (old : ctx.oldRtable = none) (is : ctx.rtable = some active)
    {kind : TableKind} {mem : Mem} (started : (do
      let ctx ← ctx.prepClear
      ctx.startTable mem kind) = .ok next) : ctx.AnswersAs active next := by
  -- Neither the table being cleared nor the new one is the active one, by `Ok.apart`.
  obtain ⟨mid, clears, started⟩ := bind_eq_ok.mp started
  obtain ⟨mid', clears', cleared⟩ := prepClear_ok ok
  cases clears.symm.trans clears'
  have place := cleared.place
  simp only [RtCtx.place, Prod.mk.injEq] at place
  obtain ⟨rtable, old', new', prep, _⟩ := place
  have kept := answersAs_of ok cleared.ok cleared.later is rtable
    (cleared.others active (ok.apart active is).2.2)
  have later := startTable_answers cleared.ok (new'.trans new) (old'.trans old) (fun rt taken => by
    obtain ⟨table, _, there⟩ := cleared.cleared rt (prep.symm.trans taken)
    exact ⟨_, there, rfl, rfl⟩) (rtable.trans is) started
  obtain ⟨active', is', routes, owners⟩ := kept
  cases is'.symm.trans (rtable.trans is)
  obtain ⟨active'', is'', routes', owners'⟩ := later
  refine ⟨active'', is'', fun sid mtype tryAlt => ?_, fun meid => ?_⟩
  · rw [routes, routes']
  · rw [owners, owners']

end RtCtx

namespace Gate
variable {ι : Type} {conf : RtConf} {gate next : Gate ι} {taken : List (CStr × Mem)}

/-- What is left of a record has nothing to do with how many senders use a table. -/
theorem rest_uncounted (collector : Collector) (ctx : RtCtx) :
    collector.rest ctx.uncounted = (collector.rest ctx).map RtCtx.uncounted := by
  -- By what the collector still has to do: clear and start, or only start.
  cases collector with
  | idle => rfl
  | starting kind mem =>
    exact bind_erased (RtCtx.prepClear_uncounted ctx.prepDetach) fun mid =>
      RtCtx.startTable_uncounted mid mem kind
  | draining kind mem =>
    exact bind_erased (RtCtx.prepClear_uncounted ctx) fun mid =>
      RtCtx.startTable_uncounted mid mem kind
  | cloning kind mem => exact RtCtx.startTable_uncounted ctx mem kind

/-- It leaves the active table alone. -/
theorem Inv.rest_answers [Fintype ι] (inv : gate.Inv) {active : Nat}
    (is : gate.ctx.rtable = some active) {ctx : RtCtx}
    (through : gate.collector.rest gate.ctx = .ok ctx) : gate.ctx.AnswersAs active ctx := by
  have position := inv.position
  cases where_ : gate.collector with
  | idle =>
    rw [where_] at through
    cases through
    exact ⟨active, is, fun _ _ _ => rfl, fun _ => rfl⟩
  | starting kind mem =>
    rw [where_] at position through
    obtain ⟨prep, new⟩ := position
    have detached := RtCtx.prepDetach_ok inv.ok new prep
    -- Taking the old table off changes no table.
    have kept : gate.ctx.prepDetach.AnswersAs active ctx :=
      RtCtx.prepare_answers detached new rfl is through
    exact kept
  | draining kind mem =>
    rw [where_] at position through
    exact RtCtx.prepare_answers inv.ok position.1 position.2 is through
  | cloning kind mem =>
    rw [where_] at position through
    obtain ⟨new, old, cleared⟩ := position
    exact RtCtx.startTable_answers inv.ok new old (fun rt taken => (cleared rt taken).1) is through

/-- The collector looks at the table that it took off, with the record still before it. -/
theorem drain_rest {ctx : RtCtx} {kind : TableKind} {mem : Mem}
    (drained : gate.drain ctx kind mem = .ok next) :
    next.collector.rest next.ctx.uncounted =
      (Collector.draining kind mem).rest ctx.uncounted := by
  obtain ⟨⟨after, cleared⟩, polled, is⟩ := bind_eq_ok.mp drained
  cases is
  have outcome := RtCtx.prepPoll_eq polled
  cases cleared with
  | false =>
    -- The table is still used, and nothing was done.
    have same : after = ctx := by simpa using outcome
    rw [same]
    rfl
  | true =>
    have clears : ctx.prepClear = .ok after := by simpa using outcome
    simp only [Collector.rest, RtCtx.prepClear_uncounted, clears]
    rfl

variable [DecidableEq ι]

/-- What a step of a sender does: at most it gets the active table, or gives its table up. -/
structure Sends (gate next : Gate ι) (act : Act ι) : Prop where
  uncounted : next.ctx.uncounted = gate.ctx.uncounted
  collector : next.collector = gate.collector
  held : ∀ i after, next.senders i = some after →
    (∃ reader, gate.senders i = some reader ∧ after.rt = reader.rt) ∨
      (act = .getRt i ∧ gate.senders i = none ∧ gate.ctx.rtable = some after.rt)

omit [DecidableEq ι] in
/-- What nobody does is done by no sender. -/
theorem Sends.refl (gate : Gate ι) (act : Act ι) : Sends gate gate act :=
  ⟨rfl, rfl, fun _ after has => .inl ⟨after, has, rfl⟩⟩

/-- A sender with a table keeps it, or gives it up. -/
theorem send_sends {i : ι} {act : Reader → Except RtFault (RtCtx × Option Reader)}
    (keeps : ∀ reader out, act reader = .ok out → out.1.uncounted = gate.ctx.uncounted ∧
      ∀ after, out.2 = some after → after.rt = reader.rt)
    (stepped : gate.send i act = .ok next) (own : Act ι) : Sends gate next own := by
  -- Without a table the call does nothing; with one, only that sender's place changes.
  unfold send at stepped
  cases had : gate.senders i with
  | none =>
    rw [had] at stepped
    cases stepped
    exact .refl gate own
  | some reader =>
    rw [had] at stepped
    obtain ⟨⟨ctx, now⟩, acted, is⟩ := bind_eq_ok.mp stepped
    cases is
    obtain ⟨uncounted, same⟩ := keeps reader (ctx, now) acted
    refine ⟨uncounted, rfl, fun j after has => .inl ?_⟩
    have has : Function.update gate.senders i now j = some after := has
    by_cases own : j = i
    · subst own
      rw [Function.update_self] at has
      exact ⟨reader, had, same after has⟩
    · rw [Function.update_of_ne own] at has
      exact ⟨after, has, rfl⟩

/-- A sender gets the table that is active. -/
theorem getRt_sends {i : ι} (stepped : gate.step conf (.getRt i) = .ok next) :
    Sends gate next (.getRt i) := by
  -- A sender that has a table already is left alone.
  dsimp only [step] at stepped
  cases had : gate.senders i with
  | some reader =>
    rw [had] at stepped
    cases stepped
    exact .refl gate _
  | none =>
    rw [had] at stepped
    obtain ⟨⟨ctx, rt⟩, got, is⟩ := bind_eq_ok.mp stepped
    cases is
    obtain ⟨same, active⟩ := RtCtx.getRt_uncounted got
    refine ⟨same, rfl, fun j after has => ?_⟩
    have has : Function.update gate.senders i (rt.map fun rt => ⟨rt, none⟩) j = some after := has
    by_cases own : j = i
    · subst own
      rw [Function.update_self, Option.map_eq_some_iff] at has
      obtain ⟨at_, is, now⟩ := has
      refine .inr ⟨rfl, had, ?_⟩
      rw [← active, is, ← now]
    · rw [Function.update_of_ne own] at has
      exact .inl ⟨after, has, rfl⟩

/-- A step is one of a sender, or one of the collector, which leaves the senders alone. -/
theorem step_cases {act : Act ι} (stepped : gate.step conf act = .ok next) :
    Sends gate next act ∧ (∀ mem buf, act ≠ .parse mem buf) ∨
      next.senders = gate.senders ∧ (act = .collect ∨ ∃ mem buf, act = .parse mem buf) := by
  -- By the event: five of them are calls of a sender, the last two belong to the collector.
  cases act with
  | getRt i => exact .inl ⟨getRt_sends stepped, fun _ _ => by simp⟩
  | getRte i sid mtype tryAlt =>
    refine .inl ⟨send_sends (fun reader out looked => ?_) stepped _, fun _ _ => by simp⟩
    obtain ⟨_, _, is⟩ := bind_eq_ok.mp looked
    cases is
    exact ⟨rfl, fun after is => by cases is; rfl⟩
  | readRte i =>
    refine .inl ⟨send_sends (fun reader out looked => ?_) stepped _, fun _ _ => by simp⟩
    cases found : reader.rte with
    | none =>
      rw [found] at looked
      cases looked
      exact ⟨rfl, fun after is => by cases is; rfl⟩
    | some id =>
      rw [found] at looked
      obtain ⟨_, _, is⟩ := bind_eq_ok.mp looked
      cases is
      exact ⟨rfl, fun after is => by cases is; rfl⟩
  | getMeidOwner i meid =>
    refine .inl ⟨send_sends (fun reader out looked => ?_) stepped _, fun _ _ => by simp⟩
    obtain ⟨_, _, is⟩ := bind_eq_ok.mp looked
    cases is
    exact ⟨rfl, fun after is => by cases is; rfl⟩
  | releaseRt i =>
    refine .inl ⟨send_sends (fun reader out looked => ?_) stepped _, fun _ _ => by simp⟩
    obtain ⟨_, released, is⟩ := bind_eq_ok.mp looked
    cases is
    exact ⟨RtCtx.releaseRt_uncounted released, fun after is => by cases is⟩
  | parse mem buf =>
    refine .inr ⟨?_, .inr ⟨mem, buf, rfl⟩⟩
    dsimp only [step] at stepped
    cases where_ : gate.collector with
    | idle =>
      rw [where_] at stepped
      obtain ⟨_, _, is⟩ := bind_eq_ok.mp stepped
      cases is
      rfl
    | starting kind mem' =>
      rw [where_] at stepped
      cases stepped
      rfl
    | draining kind mem' =>
      rw [where_] at stepped
      cases stepped
      rfl
    | cloning kind mem' =>
      rw [where_] at stepped
      cases stepped
      rfl
  | collect =>
    refine .inr ⟨?_, .inl rfl⟩
    dsimp only [step] at stepped
    cases where_ : gate.collector with
    | idle =>
      rw [where_] at stepped
      cases stepped
      rfl
    | starting kind mem =>
      rw [where_] at stepped
      obtain ⟨_, _, is⟩ := bind_eq_ok.mp stepped
      cases is
      rfl
    | draining kind mem =>
      rw [where_] at stepped
      obtain ⟨_, _, is⟩ := bind_eq_ok.mp stepped
      cases is
      rfl
    | cloning kind mem =>
      rw [where_] at stepped
      obtain ⟨_, _, is⟩ := bind_eq_ok.mp stepped
      cases is
      rfl

/-- Who has a table after a step had it before, or got the active one just now. -/
theorem step_held {act : Act ι} (stepped : gate.step conf act = .ok next) {i : ι} {after : Reader}
    (has : next.senders i = some after) :
    (∃ reader, gate.senders i = some reader ∧ after.rt = reader.rt) ∨
      (act = .getRt i ∧ gate.senders i = none ∧ gate.ctx.rtable = some after.rt ∧
        next.ctx.uncounted = gate.ctx.uncounted) := by
  -- The collector's events leave the senders where they are; for theirs see `Sends.held`.
  rcases step_cases stepped with ⟨sends, _⟩ | ⟨same, _⟩
  · rcases sends.held i after has with kept | ⟨gets, free, active⟩
    · exact .inl kept
    · exact .inr ⟨gets, free, active, sends.uncounted⟩
  · rw [same] at has
    exact .inl ⟨after, has, rfl⟩

omit [DecidableEq ι] in
/-- What a sender does does not come in the collector's way. -/
theorem Sends.serial {act : Act ι} (sends : Sends gate next act) (serial : gate.Serial conf taken) :
    next.Serial conf taken := by
  unfold Serial
  rw [sends.uncounted, sends.collector]
  exact serial

/-- A record comes. -/
theorem parse_serial (serial : gate.Serial conf taken) (mem : Mem) (buf : CStr)
    (stepped : gate.step conf (.parse mem buf) = .ok next) :
    next.Serial conf (taken ++ gate.collector.takes (buf, mem)) := by
  dsimp only [step] at stepped
  cases where_ : gate.collector with
  | idle =>
    rw [where_] at stepped
    obtain ⟨⟨after, start⟩, begun, is⟩ := bind_eq_ok.mp stepped
    cases is
    have before : RtCtx.init.parseRecs conf taken = .ok gate.ctx.uncounted := by
      have parsed : RtCtx.init.parseRecs conf taken =
          gate.collector.rest gate.ctx.uncounted := serial
      rw [parsed, where_]
      rfl
    have begins : gate.ctx.uncounted.beginRec conf mem buf = .ok (after.uncounted, start) := by
      rw [RtCtx.beginRec_uncounted, begun]
      rfl
    unfold Serial
    unfold RtCtx.parseRecs at before ⊢
    rw [Collector.takes, List.foldlM_append, before]
    simp only [List.foldlM_cons, List.foldlM_nil, ok_bind, RtCtx.parseRtRec, begins]
    -- A record that starts a table is taken up, and all that comes after `beginRec` is left of it.
    cases start with
    | none => rfl
    | some kind => simp [Collector.rest]
  | starting kind mem' =>
    rw [where_] at stepped
    cases stepped
    simpa [Collector.takes] using serial
  | draining kind mem' =>
    rw [where_] at stepped
    cases stepped
    simpa [Collector.takes] using serial
  | cloning kind mem' =>
    rw [where_] at stepped
    cases stepped
    simpa [Collector.takes] using serial

/-- The collector goes on. -/
theorem collect_serial (serial : gate.Serial conf taken)
    (stepped : gate.step conf .collect = .ok next) : next.Serial conf taken := by
  -- A wait brings the collector no further, and the last one finishes the record.
  dsimp only [step] at stepped
  unfold Serial at serial
  cases where_ : gate.collector with
  | idle =>
    rw [where_] at stepped
    cases stepped
    exact serial
  | starting kind mem =>
    rw [where_] at stepped serial
    exact serial.trans (drain_rest stepped).symm
  | draining kind mem =>
    rw [where_] at stepped serial
    exact serial.trans (drain_rest stepped).symm
  | cloning kind mem =>
    rw [where_] at stepped serial
    obtain ⟨after, starts, is⟩ := bind_eq_ok.mp stepped
    cases is
    refine serial.trans ?_
    simp only [Collector.rest, RtCtx.startTable_uncounted, starts]
    rfl

end Gate

namespace GateLog
variable {ι : Type} [DecidableEq ι] {conf : RtConf} {log next : GateLog ι}

omit [DecidableEq ι] in
/-- Only a record adds to what was taken up. -/
theorem takes_nil {act : Act ι} (other : ∀ mem buf, act ≠ .parse mem buf) : log.takes act = [] := by
  -- By the event, of which there is one that takes a record up.
  cases act with
  | parse mem buf => exact absurd rfl (other mem buf)
  | getRt i => rfl
  | getRte i sid mtype tryAlt => rfl
  | readRte i => rfl
  | getMeidOwner i meid => rfl
  | releaseRt i => rfl
  | collect => rfl

/-- One step. -/
theorem step_serial (serial : log.gate.Serial conf log.taken) {act : Act ι}
    (stepped : log.step conf act = .ok next) : next.gate.Serial conf next.taken := by
  -- A sender's call does not touch what is compared; a record adds itself to what was taken.
  obtain ⟨gate, moved, is⟩ := bind_eq_ok.mp stepped
  cases is
  change gate.Serial conf (log.taken ++ log.takes act)
  rcases Gate.step_cases moved with ⟨sends, other⟩ | ⟨_, rfl | ⟨mem, buf, rfl⟩⟩
  · rw [takes_nil other, List.append_nil]
    exact sends.serial serial
  · rw [takes_nil fun _ _ => by simp, List.append_nil]
    exact Gate.collect_serial serial moved
  · exact Gate.parse_serial serial mem buf moved

/-- What is kept for a sender that has a table stays. -/
theorem gets_kept {i : ι} {reader : Reader} (has : log.gate.senders i = some reader) (act : Act ι) :
    log.gets act i = log.since i := by
  -- Only `get_rt` of a sender without a table sets what is kept for that sender.
  cases act with
  | getRt j =>
    by_cases free : log.gate.senders j = none
    · have other : i ≠ j := by
        intro own
        rw [own, free] at has
        cases has
      simp [gets, free, Function.update_of_ne other]
    · simp [gets, free]
  | getRte j sid mtype tryAlt => rfl
  | readRte j => rfl
  | getMeidOwner j meid => rfl
  | releaseRt j => rfl
  | parse mem buf => rfl
  | collect => rfl

/-- What holds at a gate, and of what each sender got there. -/
structure Inv [Fintype ι] (conf : RtConf) (log : GateLog ι) : Prop where
  gate : log.gate.Inv
  serial : log.gate.Serial conf log.taken
  got : ∀ i reader, log.gate.senders i = some reader → log.since i <+: log.taken ∧
    ∀ ctx, RtCtx.init.parseRecs conf (log.since i) = .ok ctx →
      log.gate.ctx.AnswersAs reader.rt ctx

/-- Every step keeps it. -/
theorem Inv.step [Fintype ι] (inv : log.Inv conf) {act : Act ι}
    (stepped : log.step conf act = .ok next) : next.Inv conf := by
  have serial := step_serial inv.serial stepped
  obtain ⟨gate, moved, is⟩ := bind_eq_ok.mp stepped
  cases is
  have safe := inv.gate.safe_step conf act
  rw [moved] at safe
  obtain ⟨after, undisturbed⟩ := safe
  refine ⟨after, serial, ?_⟩
  intro i reader' has
  change log.gets act i <+: log.taken ++ log.takes act ∧
    ∀ ctx, RtCtx.init.parseRecs conf (log.gets act i) = .ok ctx →
      gate.ctx.AnswersAs reader'.rt ctx
  rcases Gate.step_held moved has with ⟨reader, had, same⟩ | ⟨gets, free, active, uncounted⟩
  · -- It had the table before, and nothing is done to that one.
    obtain ⟨earlier, answers⟩ := inv.got i reader had
    rw [gets_kept had act, same]
    exact ⟨earlier.trans (List.prefix_append _ _), fun ctx parsed =>
      (answers ctx parsed).undisturbed (undisturbed i reader had)⟩
  · -- It got the active table, which what is left of the record in progress leaves alone.
    subst gets
    have now : log.gets (.getRt i) i = log.taken := by simp [GateLog.gets, free]
    rw [now]
    refine ⟨List.prefix_append _ _, fun ctx parsed => ?_⟩
    have through := inv.serial.symm.trans parsed
    rw [Gate.rest_uncounted] at through
    cases rest : log.gate.collector.rest log.gate.ctx with
    | error fault =>
      rw [rest] at through
      cases through
    | ok last =>
      rw [rest] at through
      cases through
      exact (inv.gate.rest_answers active rest).uncounted uncounted

/-- However senders and the collector take turns, the tables are what the records come to that the
collector took up, parsed one after the other while nobody uses a table, once it is through with the
last of them. And what a sender looks up between `get_rt` and `release_rt` is answered as the active
table answers after the records that were taken up by the time it called `get_rt`. -/
theorem run_serial [Fintype ι] (conf : RtConf) (acts : List (Act ι)) (log : GateLog ι)
    (reached : (init : GateLog ι).run conf acts = .ok log) :
    log.gate.Serial conf log.taken ∧
    ∀ i reader, log.gate.senders i = some reader → log.since i <+: log.taken ∧
      ∀ ctx, RtCtx.init.parseRecs conf (log.since i) = .ok ctx →
        log.gate.ctx.AnswersAs reader.rt ctx := by
  -- The invariant holds at the start, and each event keeps it.
  have start : (init : GateLog ι).Inv conf := by
    refine ⟨Gate.init_inv, congrArg Except.ok RtCtx.init_uncounted.symm, ?_⟩
    intro i reader has
    cases has
  have inv := foldlM_invariant (Inv conf) (fun inv stepped => inv.step stepped) start reached
  exact ⟨inv.serial, inv.got⟩

/-- A sender still has the first of two tables when the third one is begun. -/
theorem run_serial_two :
    ∃ (log : GateLog (Fin 2)) (ctx : RtCtx), (init : GateLog (Fin 2)).run RtCtx.confHere
        [.parse .ample "newrt|start".toList, .collect, .collect,
          .parse .ample "rte|1|a:1".toList, .parse .ample "newrt|end|1".toList,
          .getRt 0, .getRte 0 (-1) 1 false,
          .parse .ample "newrt|start".toList, .collect, .collect,
          .parse .ample "newrt|end|0".toList,
          .parse .ample "newrt|start".toList, .collect] = .ok log ∧
      log.taken.length = 6 ∧ (log.since 0).length = 3 ∧
      log.gate.senders 0 = some ⟨1, some 0⟩ ∧
      RtCtx.init.parseRecs RtCtx.confHere (log.since 0) = .ok ctx ∧
      ctx.rtable = some 1 ∧ log.gate.ctx.rtable = some 0 ∧
      log.gate.Serial RtCtx.confHere log.taken ∧ log.gate.ctx.AnswersAs 1 ctx := by
  -- The run is evaluated, and the theorem is applied to what it reached.
  have ran : Yields (fun log : GateLog (Fin 2) => log.taken.length = 6 ∧
      (log.since 0).length = 3 ∧ log.gate.senders 0 = some ⟨1, some 0⟩ ∧
      log.gate.ctx.rtable = some 0 ∧ Yields (fun ctx => ctx.rtable = some 1)
        (RtCtx.init.parseRecs RtCtx.confHere (log.since 0)))
      ((init : GateLog (Fin 2)).run RtCtx.confHere
        [.parse .ample "newrt|start".toList, .collect, .collect,
          .parse .ample "rte|1|a:1".toList, .parse .ample "newrt|end|1".toList,
          .getRt 0, .getRte 0 (-1) 1 false,
          .parse .ample "newrt|start".toList, .collect, .collect,
          .parse .ample "newrt|end|0".toList,
          .parse .ample "newrt|start".toList, .collect]) := by
    decide +kernel
  obtain ⟨log, reached, taken, since, has, active, parses⟩ := ran.exists
  obtain ⟨ctx, parsed, first⟩ := parses.exists
  obtain ⟨serial, got⟩ := run_serial RtCtx.confHere _ log reached
  exact ⟨log, ctx, reached, taken, since, has, parsed, first, active, serial,
    (got 0 _ has).2 ctx parsed⟩

end GateLog

end Rmr
