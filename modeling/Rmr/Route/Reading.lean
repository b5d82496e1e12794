import Rmr.Route.Ack
import Rmr.Route.Select

/-! What the handler of a record reads in it, and records that differ in comments and blanks only.
-/

namespace Rmr

/-- The kinds of record, by the name. -/
inductive RecKind where
  | del | newrt | updatert | rte | mse | meidMap | mmeAr | mmeDel
  /-- Blank records, comments and what is not known. -/
  | other
  deriving DecidableEq

/-- The kind of a record with some name, which the first letter tells but for those with an `m`. -/
def recKind (name : CStr) : RecKind :=
  match name.head? with
  | some 'd' => .del
  | some 'n' => .newrt
  | some 'm' =>
    if name = ['m', 's', 'e'] then .mse
    else if name = ['m', 'e', 'i', 'd', '_', 'm', 'a', 'p'] then .meidMap
    else if name = ['m', 'm', 'e', '_', 'a', 'r'] then .mmeAr
    else if name = ['m', 'm', 'e', '_', 'd', 'e', 'l'] then .mmeDel
    else .other
  | some 'r' => .rte
  | some 'u' => .updatert
  | _ => .other

/-- What `build_entry` reads: the key, the message type, and the names that are added to each group.
-/
structure EntryReading where
  key : UInt64
  mtype : Int
  groups : List (List (CStr × Nat))
  deriving DecidableEq

/-- What a record that starts or ends a table reads: the id, or what the count says. -/
inductive Bound (α : Type) where
  | start (id : Option CStr)
  | stop (count : Option α)

/-- What a handler reads in a record; nothing, if the record has too few fields for it. -/
inductive Reading where
  | other
  | del (key : Option (Option UInt64))
  | newrt (bound : Option (Bound (Int → Option CStr)))
  | updatert (bound : Option (Bound Int))
  | rte (entry : Option (Option EntryReading))
  | mse (entry : Option (Option EntryReading))
  | meidMap (bound : Option (Bound (Int → Int → Option CStr)))
  /-- The owner that each managed element gets, when an endpoint for it can be made from some place
  in the list on. -/
  | mmeAr (owners : Option (Nat → CStr → Option CStr))
  /-- The managed elements that are taken away. -/
  | mmeDel (meids : Option (CStr → Bool))

/-- What is read of the entry that a record is about, if it is for this process and has groups. -/
def entryReading (conf : RtConf) (tsField : CStr) (subid : Int) (rrField : CStr) :
    Option EntryReading :=
  if ingests conf (clip tsField) then
    match utaTokenise (clip rrField) 64 ';' with
    | [] => none
    | first :: rest =>
      let gtokens := if first = ['%', 'm', 'e', 'i', 'd'] then [] else first :: rest
      some ⟨buildRtKey subid (atoi (clip tsField)), atoi (clip tsField),
        gtokens.map (addedNames conf)⟩
  else none

/-- The fields of a `del` record. -/
def delReading (conf : RtConf) : List CStr → Option (Option UInt64)
  | tsField :: subid :: _ =>
    some (if ingests conf (clip tsField) then
      some (buildRtKey (atoi subid) (atoi (clip tsField))) else none)
  | _ => none

/-- The fields of an `mse` record. -/
def mseReading (conf : RtConf) : List CStr → Option (Option EntryReading)
  | tsField :: subid :: rrField :: _ => some (entryReading conf tsField (atoi subid) rrField)
  | _ => none

/-- The fields of an `rte` record. -/
def rteReading (conf : RtConf) : List CStr → Option (Option EntryReading)
  | tsField :: rrField :: rest =>
    some (entryReading conf tsField ((rest[0]?.map atoi).getD unsetSubid) rrField)
  | _ => none

/-- What is shown of the reason when a count is not the number that it is compared with; the number
told is `got`. In a state message the reason has two blanks and `ERR` in front of it. -/
def denial (count : CStr) (counted got : Int) : Option CStr :=
  if counted = atoi count then none
  else some ((missingText count got ++ ['\n']).take (ackMax - 5))

/-- The fields of a `newrt` record. -/
def newrtReading : List CStr → Option (Bound (Int → Option CStr))
  | [] => none
  | what :: rest =>
    some (if clip what = ['e', 'n', 'd'] then
      .stop (rest[0]?.map fun count updates => denial count updates updates)
    else .start (rest[0]?.map clip))

/-- The fields of an `updatert` record. -/
def updatertReading : List CStr → Option (Bound Int)
  | [] => none
  | what :: rest =>
    some (if clip what = ['e', 'n', 'd'] then .stop (rest[0]?.map atoi)
    else .start (rest[0]?.map clip))

/-- The fields of a `meid_map` record. -/
def meidMapReading : List CStr → Option (Bound (Int → Int → Option CStr))
  | [] => none
  | what :: rest =>
    if (clip what).head? = some 's' then some (.start (rest[0]?.map clip))
    else if clip what = ['e', 'n', 'd'] then some (.stop (rest[0]?.map denial))
    else none

/-- The fields of an `mme_ar` record. -/
def mmeArReading : List CStr → Option (Nat → CStr → Option CStr)
  | owner :: meidList :: _ =>
    some fun place meid =>
      if clip owner ≠ [] ∧ meid ∈ (utaTokenise (clip meidList) 128 ' ').drop place then
        some (clip owner)
      else none
  | _ => none

/-- The fields of an `mme_del` record. -/
def mmeDelReading : List CStr → Option (CStr → Bool)
  | meidList :: _ => some fun meid => meid ∈ utaTokenise (clip meidList) 128 ' '
  | [] => none

/-- What the fields of a record of some kind are read as. -/
def RecKind.reading (conf : RtConf) (fields : List CStr) : RecKind → Reading
  | .other => .other
  | .del => .del (delReading conf fields)
  | .newrt => .newrt (newrtReading fields)
  | .updatert => .updatert (updatertReading fields)
  | .rte => .rte (rteReading conf fields)
  | .mse => .mse (mseReading conf fields)
  | .meidMap => .meidMap (meidMapReading fields)
  | .mmeAr => .mmeAr (mmeArReading fields)
  | .mmeDel => .mmeDel (mmeDelReading fields)

/-- What a record is read as. -/
def reading (conf : RtConf) (buf : CStr) : Reading :=
  match utaTokenise (trimEnd (buf.dropWhile isspace)) 128 '|' with
  | [] => .other
  | name :: fields => (recKind (clip name)).reading conf fields

/-- What is seen of a table: its flag and its counters, and what it has under each key. -/
structure TableView where
  error : Bool
  mt : UInt64 → Option Nat
  me : CStr → Option CStr
  updates : Int
  mupdates : Int
  refCount : Int

/-- What is seen of a table. -/
def RouteTable.view (table : RouteTable) : TableView where
  error := table.error
  mt := table.hash.mt.lookup
  me := table.hash.me.lookup
  updates := table.updates
  mupdates := table.mupdates
  refCount := table.refCount

/-- What a record can have an effect on. -/
structure Seen where
  tables : Nat → Option TableView
  /-- The payloads of the state messages. -/
  payloads : List CStr
  /-- The context, but for its tables and state messages. -/
  rest : RtCtx

/-- What is seen of a context, where a buffer that was never written to holds `wbuf`. -/
def RtCtx.seen (wbuf : CStr) (ctx : RtCtx) : Seen where
  tables rt := (ctx.tables rt).map RouteTable.view
  payloads := ctx.acks.map fun ack => ack.payload wbuf
  rest := { ctx with tables := fun _ => none, acks := [] }

/-- Two records have the same effect, from whatever state of the parser. -/
def SameEffect (conf : RtConf) (rec other : CStr) : Prop :=
  ∀ (ctx : RtCtx) (mem : Mem) (wbuf : CStr),
    (ctx.parseRtRec conf mem other).map (RtCtx.seen wbuf) =
      (ctx.parseRtRec conf mem rec).map (RtCtx.seen wbuf)

/-- Spaces and tabs only. -/
def Blanks (text : CStr) : Prop := ∀ c ∈ text, c = ' ' ∨ c = '\t'

/-- The second record has blanks around the field separators of the first one. -/
inductive Spaced : CStr → CStr → Prop where
  | nil : Spaced [] []
  | keep (c : Char) {rec other : CStr} : Spaced rec other → Spaced (c :: rec) (c :: other)
  | around {before after rec other : CStr} : Blanks before → Blanks after → Spaced rec other →
    Spaced ('|' :: rec) (before ++ '|' :: (after ++ other))

/-- The second record has blanks around the field separators of the first one, and maybe a comment.
-/
inductive Changed (rec : CStr) : CStr → Prop where
  | spaced {other : CStr} : Spaced rec other → Changed rec other
  | commented {other text : CStr} {sep : Char} : Spaced rec other → sep = ' ' ∨ sep = '\t' →
    '\n' ∉ text → Changed rec (other ++ sep :: '#' :: text)

end Rmr
