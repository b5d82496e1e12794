import Rmr.Proofs.Route.Stash

/-! Which tables a process finds again that is started with the file of an earlier one. -/

namespace Rmr

/-- Where all allocations succeed, the records are processed as they are, and counted. -/
theorem TableRead.readRecs_ample (conf : RtConf) (read : TableRead) (recs : List CStr) :
    (read.readRecs conf (fun _ => .ample) recs).map TableRead.ctx =
      read.ctx.parseRecs conf (recs.map fun text => (text, .ample)) := by
  -- By induction on the records: each is parsed the same, and counted.
  induction recs generalizing read with
  | nil => rfl
  | cons rec recs ih =>
    rw [readRecs, List.foldlM_cons, List.map_cons, RtCtx.parseRecs, List.foldlM_cons]
    cases parsed : read.ctx.parseRtRec conf .ample rec with
    | error fault =>
      have failed : read.readRec conf (fun _ => .ample) rec = .error fault := by
        rw [readRec, parsed]
        rfl
      rw [failed]
      rfl
    | ok ctx =>
      obtain ⟨next, one, is⟩ : ∃ next, read.readRec conf (fun _ => .ample) rec = .ok next ∧
          next.ctx = ctx := by
        rw [readRec, parsed]
        exact ⟨_, rfl, rfl⟩
      rw [one]
      exact is ▸ ih next

/-- Records that are processed are read. -/
theorem TableRead.readRecs_of_parsed {conf : RtConf} {read : TableRead} {recs : List CStr}
    {ctx : RtCtx}
    (parsed : read.ctx.parseRecs conf (recs.map fun text => (text, .ample)) = .ok ctx) :
    ∃ next, read.readRecs conf (fun _ => .ample) recs = .ok next ∧ next.ctx = ctx := by
  -- The tables are those of the parser, which went through all of the records.
  rw [← readRecs_ample] at parsed
  cases ran : read.readRecs conf (fun _ => .ample) recs with
  | error fault =>
    rw [ran] at parsed
    cases parsed
  | ok next =>
    rw [ran] at parsed
    cases parsed
    exact ⟨next, rfl, rfl⟩

namespace RtCtx

variable {ctx next : RtCtx} {conf : RtConf}

/-- What is acknowledged and whether there was a full table does not matter to the tables. -/
theorem Idle.with (idle : ctx.Idle) (acks : List RtAck) (fullrt : Bool) :
    { ctx with acks := acks, fullrt := fullrt }.Idle :=
  ⟨idle.toOk.congr rfl, idle.idle⟩

/-- Records that are read keep the tables in order. -/
theorem Idle.readRecs {mems : Nat → Mem} {read next : TableRead} {recs : List CStr}
    (idle : read.ctx.Idle) (ran : read.readRecs conf mems recs = .ok next) : next.ctx.Idle := by
  -- Each record keeps the invariant, by the lemma of the parser.
  refine foldlM_invariant (fun read => read.ctx.Idle) ?_ idle ran
  intro read rec next idle ran
  obtain ⟨ctx, parsed, is⟩ := bind_eq_ok.mp ran
  cases is
  have ends := parseRtRec_ends idle conf (mems read.count) rec
  rw [parsed] at ends
  exact Advances.idle ends

end RtCtx

namespace Saver

variable {conf : RtConf} {mems : Nat → Mem} {saver next : Saver}

/-- Files have no effect on what is read. -/
theorem readRecs_read (recs : List (CStr × CycleRet)) :
    (saver.readRecs conf mems recs).map Saver.read =
      saver.read.readRecs conf mems (recs.map Prod.fst) := by
  -- By induction on the records: what is written is not looked at by the parser.
  induction recs generalizing saver with
  | nil => rfl
  | cons rec recs ih =>
    rw [readRecs, List.foldlM_cons, List.map_cons, TableRead.readRecs, List.foldlM_cons]
    cases read : saver.read.readRec conf mems rec.1 with
    | error fault =>
      have failed : saver.readRec conf mems rec = .error fault := by
        rw [readRec, read]
        rfl
      rw [failed]
      rfl
    | ok mid =>
      obtain ⟨next, one, is⟩ : ∃ next, saver.readRec conf mems rec = .ok next ∧
          next.read = mid := by
        rw [readRec, read]
        exact ⟨_, rfl, rfl⟩
      rw [one]
      rw [← is]
      exact ih

/-- The tables are in order once the process was started, and stay so. -/
theorem run_idle {stash : Stash} {ret : CycleRet} {seed : Option (List Char)} {start : Saver}
    {recs : List (CStr × CycleRet)} (booted : boot conf mems stash ret seed = .ok start)
    (ran : start.readRecs conf mems recs = .ok next) : next.read.ctx.Idle := by
  -- With or without a seed, the loop is entered between records.
  have first : start.read.ctx.Idle := by
    obtain ⟨read, seeded, is⟩ := bind_eq_ok.mp booted
    cases is
    cases seed with
    | none =>
      cases seeded
      exact RtCtx.init_idle.with _ _
    | some text =>
      obtain ⟨last, read', is⟩ := bind_eq_ok.mp seeded
      cases is
      have began : (⟨.init, 0⟩ : TableRead).ctx.Idle := RtCtx.init_idle
      exact (began.readRecs read').with _ _
  have read : (start.readRecs conf mems recs).map Saver.read =
      start.read.readRecs conf mems (recs.map Prod.fst) := readRecs_read recs
  rw [ran] at read
  exact first.readRecs read.symm

end Saver

end Rmr
