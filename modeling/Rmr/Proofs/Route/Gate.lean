import Rmr.Proofs.Route.Active
import Rmr.Route.Gate

/-! Senders never see a table torn down, whatever the collector does meanwhile. -/

namespace Rmr

namespace RtCtx

variable {ctx next : RtCtx} {rt : Nat} {table table' : RouteTable}

/-- A table is not cleared, not freed and not taken for the new one, and all of its entries are
there and say what they said. -/
def Undisturbed (ctx next : RtCtx) (rt : Nat) : Prop :=
  ∃ table table', ctx.tables rt = some table ∧ next.tables rt = some table' ∧
    table'.hash = table.hash ∧ next.newRtable ≠ some rt ∧
    ∀ key id, table.hash.mt.lookup key = some id →
      ∃ rte rte', ctx.rtes id = some rte ∧ next.rtes id = some rte' ∧ rte'.entry = rte.entry

/-- A table of which nothing but the use changes. -/
theorem undisturbed_of (ok : ctx.Ok) (ok' : next.Ok) (later : ctx.Later next)
    (there : ctx.tables rt = some table) (there' : next.tables rt = some table')
    (hash : table'.hash = table.hash) (new : next.newRtable ≠ some rt) :
    Undisturbed ctx next rt :=
  ⟨table, table', there, there', hash, new, fun _ _ found =>
    entry_kept ok.sound ok'.sound later there there' found (by rw [hash]; exact found)⟩

/-- The use of a table does not matter to where the tables are. -/
theorem Ok.setCount (ok : ctx.Ok) (there : ctx.tables rt = some table) (count : Int) :
    (ctx.setTable rt { table with refCount := count }).Ok := by
  -- The table is there as before, and no pointer has changed.
  refine ⟨ok.sound.setTable there rfl, ?_, ok.apart, ok.pending, ok.detached, ok.active⟩
  intro other
  by_cases own : other = rt
  · subst own
    refine Iff.trans ?_ (ok.reached other)
    simp [setTable, there]
  · simp only [setTable, Function.update_of_ne own]
    exact ok.reached other

/-- The active table, the old one and the one taken off are not the one in progress. -/
theorem Ok.not_new (ok : ctx.Ok)
    (held : ctx.rtable = some rt ∨ ctx.oldRtable = some rt ∨ ctx.prepRt = some rt) :
    ctx.newRtable ≠ some rt := by
  -- A table in progress is apart from the active one, and then the other two are nil.
  intro new
  obtain ⟨old, prep⟩ := ok.pending (by simp [new])
  rcases held with active | is | is
  · exact (ok.apart rt active).2.1 new
  · rw [old] at is
    cases is
  · rw [prep] at is
    cases is

/-- A table that nobody uses is cleared at the first look. -/
theorem Ok.prepPoll_eq (ok : ctx.Ok)
    (unused : ∀ rt table, ctx.tables rt = some table → table.refCount = 0) :
    ctx.prepPoll = ctx.prepClear.map fun ctx => (ctx, true) := by
  -- Without a table in preparation nothing is looked at; else its count is zero.
  unfold prepPoll
  cases prep : ctx.prepRt with
  | none =>
    unfold prepClear
    rw [prep]
    rfl
  | some rt =>
    obtain ⟨table, there⟩ := Option.ne_none_iff_exists'.mp
      ((ok.reached rt).mpr (.inr (.inr (.inr prep))))
    have zero := unused rt table there
    obtain ⟨next, cleared, _⟩ := prepClear_ok ok
    simp only [table_ok there, Bind.bind, Except.bind, if_neg (by omega : ¬ 0 < table.refCount),
      cleared]
    rfl

end RtCtx

namespace Gate
variable {ι : Type} [Fintype ι] {gate : Gate ι}

/-- Where the tables are while the collector is somewhere. -/
def At (gate : Gate ι) : Collector → Prop
  | .idle => gate.ctx.prepRt = none
  | .starting _ _ => gate.ctx.prepRt = none ∧ gate.ctx.newRtable = none
  | .draining _ _ => gate.ctx.newRtable = none ∧ gate.ctx.oldRtable = none
  | .cloning _ _ => gate.ctx.newRtable = none ∧ gate.ctx.oldRtable = none ∧
      ∀ rt, gate.ctx.prepRt = some rt →
        (∃ table, gate.ctx.tables rt = some table ∧ table.hash = ⟨∅, ∅⟩ ∧ table.error = false) ∧
        ∀ i reader, gate.senders i = some reader → reader.rt ≠ rt

/-- What holds whatever the threads do. -/
structure Inv (gate : Gate ι) : Prop where
  ok : gate.ctx.Ok
  counted : ∀ rt table, gate.ctx.tables rt = some table → table.refCount = gate.users rt
  held : ∀ i reader, gate.senders i = some reader → gate.ctx.rtable = some reader.rt ∨
    gate.ctx.oldRtable = some reader.rt ∨ gate.ctx.prepRt = some reader.rt
  found : ∀ i reader, gate.senders i = some reader → ∀ id, reader.rte = some id →
    ∃ table key, gate.ctx.tables reader.rt = some table ∧ table.hash.mt.lookup key = some id
  position : gate.At gate.collector

/-- A table that a sender has is there. -/
theorem Inv.there (inv : gate.Inv) {i : ι} {reader : Reader}
    (has : gate.senders i = some reader) : ∃ table, gate.ctx.tables reader.rt = some table := by
  -- What a sender has is the active table, the old one, or the one in preparation.
  apply Option.ne_none_iff_exists'.mp
  rw [inv.ok.reached]
  rcases inv.held i reader has with active | old | prep
  · exact .inl active
  · exact .inr (.inl old)
  · exact .inr (.inr (.inr prep))

/-- A step leaves the tables alone that senders have. -/
def Safe (gate next : Gate ι) : Prop :=
  next.Inv ∧ ∀ i reader, gate.senders i = some reader →
    RtCtx.Undisturbed gate.ctx next.ctx reader.rt

/-- What nobody does changes nothing. -/
theorem Inv.safe_refl (inv : gate.Inv) : Safe gate gate := by
  refine ⟨inv, fun i reader has => ?_⟩
  obtain ⟨table, there⟩ := inv.there has
  exact RtCtx.undisturbed_of inv.ok inv.ok (.refl _) there there rfl
    (inv.ok.not_new (inv.held i reader has))

/-- What the collector must see to for a step of it to be safe. -/
theorem Inv.safe_collector (inv : gate.Inv) {ctx : RtCtx} {collector : Collector} (ok : ctx.Ok)
    (later : gate.ctx.Later ctx)
    (counted : ∀ rt table, ctx.tables rt = some table → table.refCount = gate.users rt)
    (held : ∀ i reader, gate.senders i = some reader → ctx.rtable = some reader.rt ∨
      ctx.oldRtable = some reader.rt ∨ ctx.prepRt = some reader.rt)
    (kept : ∀ i reader, gate.senders i = some reader →
      ctx.tables reader.rt = gate.ctx.tables reader.rt)
    (position : At { gate with ctx := ctx, collector := collector } collector) :
    Safe gate { gate with ctx := ctx, collector := collector } := by
  -- Senders keep their tables and entries, so that what they rely on is to be shown of the
  -- collector.
  refine ⟨⟨ok, counted, held, ?_, position⟩, ?_⟩
  · intro i reader has id is
    obtain ⟨table, key, there, found⟩ := inv.found i reader has id is
    exact ⟨table, key, (kept i reader has).trans there, found⟩
  · intro i reader has
    obtain ⟨table, there⟩ := inv.there has
    exact RtCtx.undisturbed_of inv.ok ok later there ((kept i reader has).trans there) rfl
      (ok.not_new (held i reader has))

/-- A record comes, up to the point where it may start a table. -/
theorem Inv.safe_begun (inv : gate.Inv) (idle : gate.collector = .idle) (mem : Mem)
    {condition : Prop} {out : RtCtx × Option TableKind}
    (begun : RtCtx.Begun gate.ctx condition out) :
    Safe gate { gate with
      ctx := out.1
      collector := match out.2 with
        | none => .idle
        | some kind => .starting kind mem } := by
  have position := inv.position
  rw [idle] at position
  have prep : gate.ctx.prepRt = none := position
  have begins := begun.begins
  apply inv.safe_collector begins.ok begins.later
  · intro rt table' there'
    obtain ⟨table, there, count⟩ := begins.counts rt table' there'
    rw [count, inv.counted rt table there]
  · -- Tables that are used move from active to old at most.
    intro i reader has
    rcases inv.held i reader has with active | old | prep'
    · cases begins.moves with
      | stays _ rtable _ _ => exact .inl (rtable.trans active)
      | aside _ _ rtable _ _ => exact .inl (rtable.trans active)
      | rolls _ _ _ _ _ _ _ old _ => exact .inr (.inl (old.trans active))
    · cases begins.moves with
      | stays _ _ old' _ => exact .inr (.inl (old'.trans old))
      | aside was =>
        rw [(inv.ok.pending was).1] at old
        cases old
      | rolls _ _ was =>
        rw [(inv.ok.pending (by simp [was])).1] at old
        cases old
    · rw [prep] at prep'
      cases prep'
  · intro i reader has
    exact begins.others reader.rt (inv.ok.not_new (inv.held i reader has))
  · cases start : out.2 with
    | none => exact begins.prep.trans prep
    | some kind => exact ⟨begins.prep.trans prep, begun.starts (by simp [start])⟩

/-- A table that is not used is in no sender's hands. -/
theorem no_reader {rt : Nat} (unused : gate.users rt = 0) {i : ι} {reader : Reader}
    (has : gate.senders i = some reader) : reader.rt ≠ rt := by
  -- A sender that has the table would be counted.
  intro equal
  rw [users, Finset.card_eq_zero, Finset.filter_eq_empty_iff] at unused
  apply unused (Finset.mem_univ i)
  rw [has, Option.map_some, equal]

/-- One look at the table that was taken off. -/
theorem Inv.safe_drain (inv : gate.Inv) {ctx : RtCtx} (ok : ctx.Ok) (later : gate.ctx.Later ctx)
    (tables : ctx.tables = gate.ctx.tables)
    (held : ∀ i reader, gate.senders i = some reader → ctx.rtable = some reader.rt ∨
      ctx.oldRtable = some reader.rt ∨ ctx.prepRt = some reader.rt)
    (new : ctx.newRtable = none) (old : ctx.oldRtable = none) (kind : TableKind) (mem : Mem) :
    Ends (· = RtFault.nil) (Safe gate) (gate.drain ctx kind mem) := by
  have counted : ∀ rt table, ctx.tables rt = some table → table.refCount = gate.users rt := by
    rw [tables]
    exact inv.counted
  unfold drain RtCtx.prepPoll
  cases prep : ctx.prepRt with
  | none =>
    apply inv.safe_collector ok later counted held (fun _ _ _ => by rw [tables])
    refine ⟨new, old, fun rt is => ?_⟩
    have is : ctx.prepRt = some rt := is
    rw [prep] at is
    cases is
  | some rt =>
    obtain ⟨table, there⟩ := Option.ne_none_iff_exists'.mp
      ((ok.reached rt).mpr (.inr (.inr (.inr prep))))
    simp only [RtCtx.table_ok there, Bind.bind, Except.bind]
    by_cases used : 0 < table.refCount
    · rw [if_pos used]
      exact inv.safe_collector ok later counted held (fun _ _ _ => by rw [tables]) ⟨new, old⟩
    · -- Nobody has the table, and nobody can get it any more.
      have unused : gate.users rt = 0 := by
        have count := counted rt table there
        omega
      obtain ⟨next, cleared, clears⟩ := RtCtx.prepClear_ok ok
      have place := clears.place
      simp only [RtCtx.place, Prod.mk.injEq] at place
      obtain ⟨rtable, old', new', prep', _⟩ := place
      obtain ⟨table', there', now⟩ := clears.cleared rt prep
      cases there.symm.trans there'
      have apart : ∀ other, other ≠ rt → next.tables other = ctx.tables other := by
        intro other different
        apply clears.others
        rw [prep]
        exact fun equal => different (Option.some.inj equal).symm
      rw [if_neg used]
      simp only [cleared]
      refine inv.safe_collector clears.ok (later.trans clears.later) ?_ ?_ ?_ ?_
      · intro other table' is
        by_cases own : other = rt
        · subst own
          cases now.symm.trans is
          exact counted other table there
        · rw [apart other own] at is
          exact counted other table' is
      · intro i reader has
        rw [rtable, old', prep']
        exact held i reader has
      · intro i reader has
        rw [apart reader.rt (no_reader unused has), tables]
      · refine ⟨new'.trans new, old'.trans old, fun other is => ?_⟩
        have is : next.prepRt = some other := is
        rw [prep', prep] at is
        cases is
        exact ⟨⟨_, now, rfl, rfl⟩, fun i reader has => no_reader unused has⟩

/-- The table that was prepared is started. -/
theorem Inv.safe_start (inv : gate.Inv) {kind : TableKind} {mem : Mem}
    (cloning : gate.collector = .cloning kind mem) :
    Ends (· = RtFault.nil) (fun ctx => Safe gate { gate with ctx := ctx, collector := .idle })
      (gate.ctx.startTable mem kind) := by
  have position := inv.position
  rw [cloning] at position
  obtain ⟨new, old, cleared⟩ := position
  obtain ⟨srt, source, active, from_⟩ := inv.ok.active_there
  refine ((RtCtx.startTable_ends inv.ok new old (fun rt is => (cleared rt is).1) active from_ mem
    kind).allow fun fault is => is.1).imp ?_
  rintro next ⟨rt, starts⟩
  -- The table that is started is in nobody's hands.
  have apart : ∀ i reader, gate.senders i = some reader → reader.rt ≠ rt := by
    intro i reader has equal
    rcases starts.taken with prep | ⟨_, fresh⟩
    · exact (cleared rt prep).2 i reader has equal
    · obtain ⟨table, there⟩ := inv.there has
      rw [inv.ok.sound.newTable _ (by omega)] at there
      cases there
  have unused : gate.users rt = 0 := by
    rw [users, Finset.card_eq_zero, Finset.filter_eq_empty_iff]
    intro i _ is
    obtain ⟨reader, has, equal⟩ := Option.map_eq_some_iff.mp is
    exact apart i reader has equal
  obtain ⟨table, there, count, _⟩ := starts.started
  refine inv.safe_collector starts.ok starts.later ?_ ?_ ?_ starts.prepRt
  · intro other table' is
    by_cases own : other = rt
    · subst own
      cases there.symm.trans is
      rw [count, unused]
      rfl
    · rw [starts.others other own] at is
      exact inv.counted other table' is
  · intro i reader has
    rw [starts.rtable, starts.oldRtable]
    rcases inv.held i reader has with active | old | prep
    · exact .inl active
    · exact .inr (.inl old)
    · exact absurd rfl ((cleared _ prep).2 i reader has)
  · intro i reader has
    exact starts.others _ (apart i reader has)

variable [DecidableEq ι]

/-- One sender that changes changes the use of a table by what it had before and after. -/
theorem users_update (gate : Gate ι) (ctx : RtCtx) (i : ι) (now : Option Reader) (rt : Nat) :
    users { gate with ctx := ctx, senders := Function.update gate.senders i now } rt +
        (if (gate.senders i).map (·.rt) = some rt then 1 else 0) =
      gate.users rt + (if now.map (·.rt) = some rt then 1 else 0) := by
  -- The filters differ at one sender at most, which is counted before and after.
  have change := card_filter_change (Finset.mem_univ i)
    (fun j => (gate.senders j).map (·.rt) = some rt)
    (fun j => (Function.update gate.senders i now j).map (·.rt) = some rt) (by
      intro j _ apart
      rw [Function.update_of_ne apart])
  simpa [users] using change

/-- What a sender must see to for a step of it to be safe: it has one table at a time, which it got
while that was the active one, and counts its use. -/
theorem Inv.safe_sender (inv : gate.Inv) {rt : Nat} {table : RouteTable}
    (there : gate.ctx.tables rt = some table) (count : Int) (i : ι) (now : Option Reader)
    (was : ∀ reader, gate.senders i = some reader → reader.rt = rt)
    (gets : ∀ reader, now = some reader →
      reader.rt = rt ∧ (gate.ctx.rtable = some rt ∨ gate.senders i ≠ none))
    (counts : count + (if gate.senders i = none then 0 else 1) =
      table.refCount + (if now = none then 0 else 1))
    (found : ∀ reader, now = some reader → ∀ id, reader.rte = some id →
      ∃ key, table.hash.mt.lookup key = some id) :
    Safe gate { gate with
      ctx := gate.ctx.setTable rt { table with refCount := count }
      senders := Function.update gate.senders i now } := by
  have ok := inv.ok.setCount there count
  have now_there : (gate.ctx.setTable rt { table with refCount := count }).tables rt =
      some { table with refCount := count } := Function.update_self _ _ _
  have others : ∀ other, other ≠ rt →
      (gate.ctx.setTable rt { table with refCount := count }).tables other =
        gate.ctx.tables other := fun other different => Function.update_of_ne different _ _
  have held : ∀ reader, now = some reader → gate.ctx.rtable = some reader.rt ∨
      gate.ctx.oldRtable = some reader.rt ∨ gate.ctx.prepRt = some reader.rt := by
    intro reader is
    obtain ⟨same, active | had⟩ := gets reader is
    · rw [same]
      exact .inl active
    · obtain ⟨before, has⟩ := Option.ne_none_iff_exists'.mp had
      rw [same, ← was before has]
      exact inv.held i before has
  have has_iff : ∀ {state : Option Reader}, (∀ reader, state = some reader → reader.rt = rt) →
      ∀ other, state.map (·.rt) = some other ↔ other = rt ∧ state ≠ none := by
    intro state one other
    cases state with
    | none => simp
    | some reader => simp [one reader rfl, eq_comm]
  have has_cases : ∀ {j reader}, Function.update gate.senders i now j = some reader →
      now = some reader ∨ gate.senders j = some reader := by
    intro j reader has
    by_cases own : j = i
    · subst own
      rw [Function.update_self] at has
      exact .inl has
    · rw [Function.update_of_ne own] at has
      exact .inr has
  refine ⟨⟨ok, ?_, ?_, ?_, ?_⟩, ?_⟩
  · intro other table' is
    have change := users_update gate (gate.ctx.setTable rt { table with refCount := count }) i now
      other
    rw [if_congr (has_iff was other) rfl rfl,
      if_congr (has_iff (fun reader is => (gets reader is).1) other) rfl rfl] at change
    by_cases own : other = rt
    · subst own
      cases now_there.symm.trans is
      have before := inv.counted other table there
      simp only [true_and, ite_not] at change
      show count = _
      by_cases had : gate.senders i = none
      · by_cases has : now = none
        · rw [if_pos had, if_pos has] at counts change
          omega
        · rw [if_pos had, if_neg has] at counts change
          omega
      · by_cases has : now = none
        · rw [if_neg had, if_pos has] at counts change
          omega
        · rw [if_neg had, if_neg has] at counts change
          omega
    · rw [others other own] at is
      have before := inv.counted other table' is
      simp only [own, false_and, if_false, Nat.add_zero] at change
      rw [before, change]
  · intro j reader has
    rcases has_cases has with is | has
    · exact held reader is
    · exact inv.held j reader has
  · intro j reader has id is
    rcases has_cases has with is' | has
    · obtain ⟨key, lookup⟩ := found reader is' id is
      rw [(gets reader is').1]
      exact ⟨_, key, now_there, lookup⟩
    · obtain ⟨table', key, there', lookup⟩ := inv.found j reader has id is
      by_cases same : reader.rt = rt
      · rw [same] at there' ⊢
        cases there.symm.trans there'
        exact ⟨_, key, now_there, lookup⟩
      · exact ⟨table', key, (others _ same).trans there', lookup⟩
  · have position := inv.position
    cases where_ : gate.collector with
    | idle =>
      rw [where_] at position
      exact position
    | starting kind mem =>
      rw [where_] at position
      exact position
    | draining kind mem =>
      rw [where_] at position
      exact position
    | cloning kind mem =>
      rw [where_] at position
      obtain ⟨new, old, cleared⟩ := position
      refine ⟨new, old, fun other prep => ?_⟩
      obtain ⟨⟨table', there', empty, error⟩, unread⟩ := cleared other prep
      refine ⟨?_, ?_⟩
      · by_cases own : other = rt
        · subst own
          cases there.symm.trans there'
          exact ⟨_, now_there, empty, error⟩
        · exact ⟨table', (others other own).trans there', empty, error⟩
      · intro j reader has
        rcases has_cases has with is | has
        · obtain ⟨same, active | had⟩ := gets reader is
          · -- The active table is not the one that was taken off.
            rw [same]
            intro equal
            subst equal
            exact (inv.ok.apart rt active).2.2 prep
          · obtain ⟨before, has⟩ := Option.ne_none_iff_exists'.mp had
            rw [same, ← was before has]
            exact unread i before has
        · exact unread j reader has
  · intro j reader has
    obtain ⟨table', there'⟩ := inv.there has
    have notNew := inv.ok.not_new (inv.held j reader has)
    have later : gate.ctx.Later (gate.ctx.setTable rt { table with refCount := count }) :=
      ⟨Nat.le_refl _, (RtCtx.Later.refl gate.ctx).kept⟩
    by_cases same : reader.rt = rt
    · rw [same] at there' notNew ⊢
      exact RtCtx.undisturbed_of inv.ok ok later there now_there rfl notNew
    · exact RtCtx.undisturbed_of inv.ok ok later there' ((others _ same).trans there') rfl notNew

/-- A sender only reads. -/
theorem Inv.safe_read (inv : gate.Inv) {i : ι} {reader reader' : Reader}
    (has : gate.senders i = some reader) (same : reader'.rt = reader.rt)
    (found : ∀ table, gate.ctx.tables reader.rt = some table → ∀ id, reader'.rte = some id →
      ∃ key, table.hash.mt.lookup key = some id) :
    Safe gate { gate with senders := Function.update gate.senders i (some reader') } := by
  -- The table is put back as it was, so that only the sender has changed.
  obtain ⟨table, there⟩ := inv.there has
  have safe := inv.safe_sender there table.refCount i (some reader')
    (fun before is => by rw [has] at is; cases is; rfl)
    (fun after is => by cases is; exact ⟨same, .inr (by simp [has])⟩) (by simp [has])
    (fun after is id => by cases is; exact found table there id)
  have unchanged : gate.ctx.setTable reader.rt { table with refCount := table.refCount } =
      gate.ctx := by
    rw [RtCtx.setTable, ← there, Function.update_eq_self]
  rwa [unchanged] at safe

/-- What a sender does is safe if it is so while it has a table. -/
theorem Inv.safe_send (inv : gate.Inv) {i : ι}
    {act : Reader → Except RtFault (RtCtx × Option Reader)}
    (safe : ∀ reader, gate.senders i = some reader → ∃ out, act reader = .ok out ∧
      Safe gate { gate with ctx := out.1, senders := Function.update gate.senders i out.2 }) :
    Ends (· = RtFault.nil) (Safe gate) (gate.send i act) := by
  -- A sender without a table does nothing.
  unfold send
  cases has : gate.senders i with
  | none => exact inv.safe_refl
  | some reader =>
    obtain ⟨out, done, is⟩ := safe reader has
    simp only [done, Bind.bind, Except.bind]
    exact is

/-- A sender gets the active table. -/
theorem Inv.safe_get (inv : gate.Inv) {i : ι} (free : gate.senders i = none) :
    ∃ ctx rt, gate.ctx.getRt = .ok (ctx, some rt) ∧ Safe gate { gate with
      ctx := ctx, senders := Function.update gate.senders i (some ⟨rt, none⟩) } := by
  -- The active table is counted up, and is the one that the sender has then.
  obtain ⟨rt, table, active, there⟩ := inv.ok.active_there
  refine ⟨_, rt, ?_, inv.safe_sender there (table.refCount + 1) i (some ⟨rt, none⟩) ?_ ?_ ?_ ?_⟩
  · unfold RtCtx.getRt
    rw [active]
    exact bind_eq_ok.mpr ⟨table, RtCtx.table_ok there, rfl⟩
  · intro reader has
    rw [free] at has
    cases has
  · intro reader is
    cases is
    exact ⟨rfl, .inl active⟩
  · simp [free]
  · intro reader is id found
    cases is
    cases found

/-- A sender releases the table that it has, whose count is then not zero. -/
theorem Inv.safe_release (inv : gate.Inv) {i : ι} {reader : Reader}
    (has : gate.senders i = some reader) :
    ∃ ctx, gate.ctx.releaseRt reader.rt = .ok ctx ∧ Safe gate { gate with
      ctx := ctx, senders := Function.update gate.senders i none } := by
  -- The sender itself is one of those counted, so that the count is positive.
  obtain ⟨table, there⟩ := inv.there has
  have used : 0 < table.refCount := by
    rw [inv.counted _ table there]
    by_contra none_
    exact no_reader (by omega) has rfl
  refine ⟨_, ?_, inv.safe_sender there (table.refCount - 1) i none ?_ ?_ ?_ ?_⟩
  · refine bind_eq_ok.mpr ⟨table, RtCtx.table_ok there, ?_⟩
    rw [if_pos used]
    rfl
  · intro before is
    rw [has] at is
    cases is
    rfl
  · intro after is
    cases is
  · simp [has]
  · intro after is
    cases is

/-- Every step of every thread is safe, or ends with a nil pointer. -/
theorem Inv.safe_step (inv : gate.Inv) (conf : RtConf) (act : Act ι) :
    Ends (· = RtFault.nil) (Safe gate) (gate.step conf act) := by
  cases act with
  | getRt i =>
    cases has : gate.senders i with
    | some reader =>
      simp only [step, has]
      exact inv.safe_refl
    | none =>
      obtain ⟨ctx, rt, got, safe⟩ := inv.safe_get has
      simp only [step, has, got, Bind.bind, Except.bind]
      exact safe
  | getRte i sid mtype tryAlt =>
    apply inv.safe_send
    intro reader has
    obtain ⟨table, there⟩ := inv.there has
    refine ⟨_, bind_eq_ok.mpr ⟨table, RtCtx.table_ok there, rfl⟩, inv.safe_read has rfl ?_⟩
    intro table' there' id found
    exact RtCtx.utaGetRte_found there' found
  | readRte i =>
    apply inv.safe_send
    intro reader has
    have same : Safe gate { gate with
        senders := Function.update gate.senders i (some reader) } := by
      refine inv.safe_read has rfl fun table there id is => ?_
      obtain ⟨table', key, there', found⟩ := inv.found i reader has id is
      cases there.symm.trans there'
      exact ⟨key, found⟩
    cases is : reader.rte with
    | none => exact ⟨(gate.ctx, some reader), rfl, same⟩
    | some id =>
      -- The entry that was found is still there.
      obtain ⟨table, key, there, found⟩ := inv.found i reader has id is
      obtain ⟨rte, live, _⟩ := inv.ok.sound.found there found
      exact ⟨(gate.ctx, some reader), bind_eq_ok.mpr ⟨rte, RtCtx.rte_ok live, rfl⟩, same⟩
  | getMeidOwner i meid =>
    apply inv.safe_send
    intro reader has
    obtain ⟨table, there⟩ := inv.there has
    refine ⟨_, bind_eq_ok.mpr ⟨table, RtCtx.table_ok there, rfl⟩, inv.safe_read has rfl ?_⟩
    intro table' there' id is
    obtain ⟨table'', key, there'', found⟩ := inv.found i reader has id is
    cases there'.symm.trans there''
    exact ⟨key, found⟩
  | releaseRt i =>
    apply inv.safe_send
    intro reader has
    obtain ⟨ctx, released, safe⟩ := inv.safe_release has
    exact ⟨(ctx, none), bind_eq_ok.mpr ⟨ctx, released, rfl⟩, safe⟩
  | parse mem buf =>
    unfold step
    cases where_ : gate.collector with
    | idle =>
      refine (RtCtx.beginRec_ends inv.ok conf mem buf).bind ?_
      intro out begun
      exact inv.safe_begun where_ mem begun
    | starting kind mem => exact inv.safe_refl
    | draining kind mem => exact inv.safe_refl
    | cloning kind mem => exact inv.safe_refl
  | collect =>
    have position := inv.position
    unfold step
    cases where_ : gate.collector with
    | idle => exact inv.safe_refl
    | starting kind mem =>
      rw [where_] at position
      obtain ⟨prep, new⟩ := position
      refine inv.safe_drain (RtCtx.prepDetach_ok inv.ok new prep)
        ⟨Nat.le_refl _, (RtCtx.Later.refl gate.ctx).kept⟩ rfl ?_ new rfl kind mem
      intro i reader has
      rcases inv.held i reader has with active | old | prep'
      · exact .inl active
      · exact .inr (.inr old)
      · rw [prep] at prep'
        cases prep'
    | draining kind mem =>
      rw [where_] at position
      exact inv.safe_drain inv.ok (.refl _) rfl inv.held position.1 position.2 kind mem
    | cloning kind mem =>
      exact (inv.safe_start where_).bind fun ctx safe => safe

omit [DecidableEq ι] in
/-- Nothing is held when nothing was done. -/
theorem init_inv : (init : Gate ι).Inv := by
  -- The only table is empty, and nobody has it.
  refine ⟨RtCtx.init_idle.toOk, ?_, ?_, ?_, rfl⟩
  · intro rt table there
    have empty : table = RouteTable.empty := by
      have there : Function.update (fun _ => none) 0 (some RouteTable.empty) rt =
        some table := there
      by_cases zero : rt = 0
      · subst zero
        rw [Function.update_self] at there
        exact (Option.some.inj there).symm
      · rw [Function.update_of_ne zero] at there
        cases there
    rw [empty]
    simp [users, init, RouteTable.empty]
  · intro i reader has
    cases has
  · intro i reader has
    cases has

/-- Whatever the threads do, they keep the invariant, or one ends with a nil pointer. -/
theorem run_inv (conf : RtConf) (acts : List (Act ι)) :
    Ends (· = RtFault.nil) Inv ((init : Gate ι).run conf acts) :=
  foldlM_ends (fun act inv => (Inv.safe_step inv conf act).imp fun _ safe => safe.1) acts init_inv

/-- Where no sender has a table, the steps that the collector takes for a record are what
`parse_rt_rec` does. -/
theorem Inv.run_parse (inv : gate.Inv) (alone : ∀ i, gate.senders i = none)
    (idle : gate.collector = .idle) (conf : RtConf) (mem : Mem) (buf : CStr) :
    gate.run conf [.parse mem buf, .collect, .collect] =
      (gate.ctx.parseRtRec conf mem buf).map fun ctx => { gate with ctx := ctx } := by
  have begun := RtCtx.beginRec_ends inv.ok conf mem buf
  simp only [run, List.foldlM_cons, List.foldlM_nil, RtCtx.parseRtRec]
  cases outcome : gate.ctx.beginRec conf mem buf with
  | error fault =>
    simp only [step, idle, outcome, Bind.bind, Except.bind]
    rfl
  | ok out =>
    rw [outcome] at begun
    obtain ⟨ctx, start⟩ := out
    cases start with
    | none =>
      simp only [step, idle, outcome, Bind.bind, Except.bind]
      rfl
    | some kind =>
      -- The record starts a table: the old one is taken off, cleared and cloned into.
      have middle := (inv.safe_begun idle mem begun).1
      obtain ⟨prep, new⟩ := middle.position
      have detached := RtCtx.prepDetach_ok middle.ok new prep
      have polled : ctx.prepDetach.prepPoll =
          ctx.prepDetach.prepClear.map fun ctx => (ctx, true) := by
        refine detached.prepPoll_eq fun rt table there => ?_
        rw [middle.counted rt table there]
        simp [users, alone]
      obtain ⟨cleared, clears, _⟩ := RtCtx.prepClear_ok detached
      simp only [step, idle, outcome, Bind.bind, Except.bind, Pure.pure, Except.pure, drain, polled,
        clears, Except.map, if_true]
      cases cleared.startTable mem kind with
      | error fault => rfl
      | ok next => rw [← idle]

/-- However senders and the collector take turns, the use of each table is the number of senders
that have it, and no step clears or frees a table that a sender has, takes it for the new one, or
frees an entry in it. -/
theorem readers_undisturbed (conf : RtConf) (acts : List (Act ι)) (gate : Gate ι)
    (reached : (init : Gate ι).run conf acts = .ok gate) :
    (∀ rt table, gate.ctx.tables rt = some table → table.refCount = gate.users rt) ∧
    ∀ act, Ends (· = RtFault.nil) (fun next => ∀ i reader, gate.senders i = some reader →
      RtCtx.Undisturbed gate.ctx next.ctx reader.rt) (gate.step conf act) := by
  -- By the invariant of the gate, which every step keeps without disturbing a table in use.
  have ends := run_inv conf acts
  rw [reached] at ends
  exact ⟨ends.counted, fun act => (Inv.safe_step ends conf act).imp fun _ safe => safe.2⟩

/-- Two tables were loaded, the first of which a sender still has while a third one is started. -/
theorem readers_undisturbed_draining :
    ∃ gate next, (init : Gate (Fin 2)).run RtCtx.confHere
        [.parse .ample "newrt|start".toList, .collect, .collect,
          .parse .ample "rte|1|a:1".toList, .parse .ample "newrt|end|1".toList,
          .getRt 0, .getRte 0 (-1) 1 false,
          .parse .ample "newrt|start".toList, .collect, .collect,
          .parse .ample "newrt|end|0".toList,
          .parse .ample "newrt|start".toList, .collect] = .ok gate ∧
      gate.step RtCtx.confHere .collect = .ok next ∧
      gate.senders 0 = some ⟨1, some 0⟩ ∧ gate.ctx.prepRt = some 1 ∧ gate.users 1 = 1 ∧
      RtCtx.Undisturbed gate.ctx next.ctx 1 := by
  -- The run is evaluated up to the step of the collector; the theorem then tells that it is safe.
  have ran : Yields (fun gate : Gate (Fin 2) => gate.senders 0 = some ⟨1, some 0⟩ ∧
      gate.ctx.prepRt = some 1 ∧ gate.users 1 = 1 ∧
      Yields (fun _ => True) (gate.step RtCtx.confHere .collect))
      ((init : Gate (Fin 2)).run RtCtx.confHere
        [.parse .ample "newrt|start".toList, .collect, .collect,
          .parse .ample "rte|1|a:1".toList, .parse .ample "newrt|end|1".toList,
          .getRt 0, .getRte 0 (-1) 1 false,
          .parse .ample "newrt|start".toList, .collect, .collect,
          .parse .ample "newrt|end|0".toList,
          .parse .ample "newrt|start".toList, .collect]) := by
    decide +kernel
  obtain ⟨gate, reached, has, prep, users, onward⟩ := ran.exists
  obtain ⟨next, stepped, _⟩ := onward.exists
  have safe := (readers_undisturbed RtCtx.confHere _ gate reached).2 .collect
  rw [stepped] at safe
  exact ⟨gate, next, reached, stepped, has, prep, users, safe 0 _ has⟩

end Gate

end Rmr
