import Rmr.Route.Session
import Rmr.Route.Texts

/-! The file that records are saved in as they arrive, and the process that is started with it. -/

namespace Rmr

/-- What is written behind the records of a table. -/
def captureMark : CStr := "### captured from route manager".toList

/-- Records as they are written, each with a newline behind it. -/
def linesOf (recs : List CStr) : List Char := recs.flatMap fun rec => rec ++ ['\n']

/-- The files of `cycle_snarfed_rt`. -/
structure Stash where
  /-- `RMR_STASH_RT` is set, or `RMR_SEED_RT` is and gives the name. -/
  named : Bool
  /-- What was written to the file that is open; nil while none is. -/
  inc : Option (List Char)
  /-- The file that the one before was moved to. -/
  saved : Option (List Char)

/-- What the operating system does with the files: whether one is moved, and the next one opened. -/
structure CycleRet where
  renames : Bool
  opens : Bool

/-- All goes well. -/
def CycleRet.well : CycleRet := ⟨true, true⟩

namespace Stash

/-- A record is written as it was received, before it is parsed. -/
def write (stash : Stash) (buf : CStr) : Stash :=
  { stash with inc := stash.inc.map (· ++ linesOf [buf]) }

/-- `cycle_snarfed_rt`. The file that was saved before is removed first. -/
def cycle (stash : Stash) (ret : CycleRet) : Stash :=
  if stash.named then
    { stash with
      inc := if ret.opens then some [] else none
      saved := stash.inc.elim stash.saved fun text =>
        if ret.renames then some (text ++ linesOf [captureMark]) else none }
  else stash

end Stash

/-- A record ends a route table, so that `parse_rt_rec` calls `cycle_snarfed_rt`: this is before it
looks at the count. The end of an update must be one of an update that was taken up. -/
def RtCtx.endsTable (ctx : RtCtx) (buf : CStr) : Bool :=
  match utaTokenise (trimEnd (buf.dropWhile isspace)) 128 '|' with
  | name :: field :: _ =>
    clip field = ['e', 'n', 'd'] &&
      ((clip name).head? = some 'n' ||
        (clip name).head? = some 'u' && ctx.fullrt && ctx.newRtable.isSome)
  | _ => false

/-- The reader of tables with the files that it saves them in. -/
structure Saver where
  read : TableRead
  stash : Stash
  /-- The records that were written, the last one first, and whether each was the last one of its
  file. The code keeps no such list. -/
  history : List (CStr × Bool)

namespace Saver

/-- `rtc` up to its loop: the seed, if there is one, is no full table from the route manager. There
may be a file that was saved by the process before. -/
def boot (conf : RtConf) (mems : Nat → Mem) (stash : Stash) (ret : CycleRet)
    (seed : Option (List Char)) : Except RtFault Saver := do
  let read ← seed.elim (.ok ⟨.init, 0⟩) (TableRead.readStaticRt conf mems ⟨.init, 0⟩)
  return {
    read := { read with ctx := { read.ctx with fullrt := false } }
    stash := { stash with inc := none }.cycle ret
    history := [] }

/-- One record. -/
def readRec (conf : RtConf) (mems : Nat → Mem) (saver : Saver) (rec : CStr × CycleRet) :
    Except RtFault Saver := do
  let written := saver.stash.write rec.1
  let ends := written.inc.isSome && saver.read.ctx.endsTable rec.1
  let read ← saver.read.readRec conf mems rec.1
  return {
    read := read
    stash := if ends then written.cycle rec.2 else written
    history := if written.inc.isSome then (rec.1, ends) :: saver.history else saver.history }

/-- Records one after the other. -/
def readRecs (conf : RtConf) (mems : Nat → Mem) (saver : Saver) (recs : List (CStr × CycleRet)) :
    Except RtFault Saver :=
  recs.foldlM (readRec conf mems) saver

end Saver

/-- The records that were written since the last table ended. -/
def sinceEnd : List (CStr × Bool) → List CStr
  | [] => []
  | (_, true) :: _ => []
  | (rec, false) :: older => sinceEnd older ++ [rec]

/-- The records from the end of one table to that of the next one, the last one that ended. -/
def lastEnded : List (CStr × Bool) → Option (List CStr)
  | [] => none
  | (rec, true) :: older => some (sinceEnd older ++ [rec])
  | (_, false) :: older => lastEnded older

/-- A record as it is found in a message, of which a file makes the same: no two parts of it that
are not blank have a carriage return between them. -/
def Savable (rec : CStr) : Prop := '\n' ∉ rec ∧ '\x00' ∉ rec ∧ OnePerLine rec

instance decidableSavable (rec : CStr) : Decidable (Savable rec) :=
  inferInstanceAs (Decidable (_ ∧ _ ∧ _))

end Rmr
