import Rmr.Proofs.Route.Load
import Rmr.Proofs.Route.Texts
import Rmr.Route.Stash

/-! What a process gets that is started with the records that another one saved. -/

namespace Rmr

/-- Records are written one after the other. -/
theorem linesOf_append (recs more : List CStr) :
    linesOf (recs ++ more) = linesOf recs ++ linesOf more :=
  List.flatMap_append

namespace Saver

variable {conf : RtConf} {mems : Nat → Mem} {before : Option (List Char)} {saver next : Saver}

/-- What the files hold is told by the records that were written. -/
structure Saves (before : Option (List Char)) (saver : Saver) : Prop where
  /-- A file is open only where there is a name for it. -/
  named : saver.stash.inc.isSome = true → saver.stash.named = true
  inc : ∀ text ∈ saver.stash.inc, text = linesOf (sinceEnd saver.history)
  saved : ∀ text ∈ saver.stash.saved,
    (lastEnded saver.history = none ∧ before = some text) ∨
      ∃ recs, lastEnded saver.history = some recs ∧ text = linesOf (recs ++ [captureMark])

/-- One record more. -/
theorem Saves.readRec (saves : saver.Saves before) {rec : CStr × CycleRet}
    (ran : saver.readRec conf mems rec = .ok next) : next.Saves before := by
  obtain ⟨read, _, is⟩ := bind_eq_ok.mp ran
  cases is
  cases open_ : saver.stash.inc with
  | none =>
    -- Nothing is written where no file is open.
    have unwritten : saver.stash.write rec.1 = saver.stash := by
      unfold Stash.write
      rw [open_]
      cases stash : saver.stash
      rw [stash] at open_
      cases open_
      rfl
    simp only [unwritten, open_, Option.isSome_none, Bool.false_and, Bool.false_eq_true, if_false]
    exact ⟨saves.named, saves.inc, saves.saved⟩
  | some text =>
    have inFile : text = linesOf (sinceEnd saver.history) := saves.inc text (by rw [open_]; rfl)
    have named : saver.stash.named = true := saves.named (by rw [open_]; rfl)
    have written : (saver.stash.write rec.1).inc =
        some (linesOf (sinceEnd saver.history ++ [rec.1])) := by
      unfold Stash.write
      rw [open_, inFile, linesOf_append]
      rfl
    simp only [written, Option.isSome_some, Bool.true_and, if_true]
    cases ends : saver.read.ctx.endsTable rec.1 with
    | false =>
      refine ⟨fun _ => named, ?_, saves.saved⟩
      intro text is
      simp only [Bool.false_eq_true, if_false, written, Option.mem_def, Option.some.injEq] at is
      exact is.symm
    | true =>
      -- The file is moved as it is, and the next one starts with nothing in it.
      have moved : ∀ ret, (saver.stash.write rec.1).cycle ret =
          { named := true
            inc := if ret.opens then some [] else none
            saved := if ret.renames then
              some (linesOf (sinceEnd saver.history ++ [rec.1] ++ [captureMark])) else none } := by
        intro ret
        unfold Stash.cycle
        have still : (saver.stash.write rec.1).named = true := named
        rw [if_pos still, written, still, linesOf_append _ [captureMark]]
        rfl
      simp only [if_true, moved]
      refine ⟨fun _ => rfl, ?_, ?_⟩
      · intro text is
        dsimp only at is
        split at is
        · cases is
          rfl
        · cases is
      · intro text is
        dsimp only at is
        split at is
        · cases is
          exact .inr ⟨_, rfl, rfl⟩
        · cases is

end Saver

end Rmr
