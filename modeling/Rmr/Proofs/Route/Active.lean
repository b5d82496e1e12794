import Rmr.Proofs.Route.Counts

/-! The active table: no record reaches it, short of the end of a complete new one. -/

namespace Rmr

namespace RtCtx

variable {ctx mid next : RtCtx}

/-- The active table is the same one, and every lookup on it finds what it found, down to what the
entry says. -/
structure SameAnswers (ctx next : RtCtx) : Prop where
  rtable : next.rtable = ctx.rtable
  routes : ∀ rt ∈ ctx.rtable, ∀ sid mtype tryAlt,
    next.utaGetRte rt sid mtype tryAlt = ctx.utaGetRte rt sid mtype tryAlt
  entries : ∀ rt ∈ ctx.rtable, ∀ sid mtype tryAlt, ∀ id ∈ ctx.utaGetRte rt sid mtype tryAlt,
    ∃ rte rte', ctx.rtes id = some rte ∧ next.rtes id = some rte' ∧ rte'.entry = rte.entry
  owners : ∀ rt ∈ ctx.rtable, ∀ meid, next.getMeidOwner rt meid = ctx.getMeidOwner rt meid

/-- What a lookup finds is an entry of the table. -/
theorem utaGetRte_found {rt : Nat} {table : RouteTable} (there : ctx.tables rt = some table)
    {sid mtype : Int} {tryAlt : Bool} {id : Nat}
    (found : ctx.utaGetRte rt sid mtype tryAlt = some id) :
    ∃ key, table.hash.mt.lookup key = some id := by
  -- The first key or the one without an id, each looked up in the table.
  unfold utaGetRte at found
  simp only [there, Bind.bind, Option.bind_some] at found
  split at found
  · rename_i rte first
    exact ⟨_, first.trans found⟩
  · split at found
    · exact ⟨_, found⟩
    · cases found

/-- What a run of records does to the active table. -/
structure Keeps (ctx next : RtCtx) : Prop where
  idle : next.Idle
  later : ctx.Later next
  rolls : ctx.rolls ≤ next.rolls
  kept : next.rolls = ctx.rolls → next.rtable = ctx.rtable ∧
    ∀ rt, ctx.rtable = some rt → next.tables rt = ctx.tables rt

/-- One record more. -/
theorem Keeps.advance (keeps : Keeps ctx mid) {buf : CStr} (advances : Advances mid buf next) :
    Keeps ctx next := by
  refine ⟨advances.idle, keeps.later.trans advances.later, keeps.rolls.trans advances.rolls, ?_⟩
  intro same
  have before := keeps.rolls
  have after := advances.rolls
  -- Rolls are never taken back, so that there was none in either part.
  obtain ⟨rtable, kept⟩ := keeps.kept (by omega)
  obtain ⟨rtable', kept'⟩ := advances.kept (by omega)
  refine ⟨rtable'.trans rtable, fun rt active => ?_⟩
  rw [kept' rt (rtable.trans active), kept rt active]

/-- Runs of records keep the active table until the next roll. -/
theorem parseRecs_keeps (ok : ctx.Idle) (conf : RtConf) (recs : List (CStr × Mem)) :
    Ends (· = RtFault.nil) (Keeps ctx) (ctx.parseRecs conf recs) := by
  -- By induction on the records; each of them keeps the active table, or rolls.
  refine foldlM_ends ?_ recs ⟨ok, .refl ctx, Nat.le_refl _, fun _ => ⟨rfl, fun _ _ => rfl⟩⟩
  intro mid rec keeps
  exact (parseRtRec_ends keeps.idle conf rec.2 rec.1).imp fun next advances =>
    keeps.advance advances

/-- Where the active table was kept, every lookup on it finds what it found. -/
theorem Keeps.answers (keeps : Keeps ctx next) (ok : ctx.Idle) (same : next.rolls = ctx.rolls) :
    SameAnswers ctx next := by
  -- The active table is the same, and each entry that it holds was kept.
  obtain ⟨rtable, kept⟩ := keeps.kept same
  refine ⟨rtable, ?_, ?_, ?_⟩
  · intro rt active sid mtype tryAlt
    rw [utaGetRte, utaGetRte, kept rt active]
  · intro rt active sid mtype tryAlt id found
    obtain ⟨table, there⟩ := Option.ne_none_iff_exists'.mp ((ok.reached rt).mpr (.inl active))
    obtain ⟨key, held⟩ := utaGetRte_found there found
    exact entry_kept ok.sound keeps.idle.sound keeps.later there ((kept rt active).trans there) held
      held
  · intro rt active meid
    rw [getMeidOwner, getMeidOwner, kept rt active]

/-- What was reached by records is as it should be. -/
theorem idle_of_parseRecs {conf : RtConf} {recs : List (CStr × Mem)}
    (reached : RtCtx.init.parseRecs conf recs = .ok ctx) : ctx.Idle := by
  -- The records were parsed, so that they did not end with a fault.
  have ends := parseRecs_idle init_idle conf recs
  rw [reached] at ends
  exact ends

/-- Whatever records come, the active table and all that is found in it stay what they are until the
next roll, and there is no roll but at the end of a table in progress, with a count that is right
for it if there is one, and without an error. -/
theorem active_isolated (conf : RtConf) (recs : List (CStr × Mem)) (ctx : RtCtx)
    (reached : RtCtx.init.parseRecs conf recs = .ok ctx) :
    (∀ more next, ctx.parseRecs conf more = .ok next → next.rolls = ctx.rolls →
      SameAnswers ctx next) ∧
    ∀ mem buf next, ctx.parseRtRec conf mem buf = .ok next → next.rolls ≠ ctx.rolls →
      MayRoll ctx buf := by
  -- Isolation comes from the run's invariant, and the roll from that of a single record.
  have ok := idle_of_parseRecs reached
  constructor
  · intro more next ran same
    have ends := parseRecs_keeps ok conf more
    rw [ran] at ends
    exact Keeps.answers ends ok same
  · intro mem buf next ran rolled
    have ends := parseRtRec_ends ok conf mem buf
    rw [ran] at ends
    exact Advances.rolled ends rolled

/-- A process with a name and without addresses. -/
def confHere : RtConf where
  myName := ['h', ':', '1']
  ipList := []
  named := by decide
  addressed := by simp

/-- A table was loaded, and another one that routes elsewhere is in progress. -/
theorem active_isolated_in_progress :
    ∃ ctx next, RtCtx.init.parseRecs confHere
        [("newrt|start".toList, .ample), ("rte|1|a:1".toList, .ample),
          ("newrt|end|1".toList, .ample)] = .ok ctx ∧
      ctx.parseRecs confHere
        [("newrt|start".toList, .ample), ("rte|1|b:1".toList, .ample)] = .ok next ∧
      ctx.rolls = 1 ∧ next.newRtable ≠ none ∧ SameAnswers ctx next := by
  -- Both runs are evaluated; the theorem then compares the answers of the two contexts.
  have ran : Yields (fun ctx => ctx.rolls = 1 ∧ Yields
      (fun next : RtCtx => next.newRtable ≠ none ∧ next.rolls = ctx.rolls) (ctx.parseRecs confHere
        [("newrt|start".toList, .ample), ("rte|1|b:1".toList, .ample)]))
      (RtCtx.init.parseRecs confHere
        [("newrt|start".toList, .ample), ("rte|1|a:1".toList, .ample),
          ("newrt|end|1".toList, .ample)]) := by
    decide +kernel
  obtain ⟨ctx, reached, rolls, onward⟩ := ran.exists
  obtain ⟨next, ran, new, same⟩ := onward.exists
  exact ⟨ctx, next, reached, ran, rolls, new,
    (active_isolated confHere _ ctx reached).1 _ next ran same⟩

end RtCtx

end Rmr
