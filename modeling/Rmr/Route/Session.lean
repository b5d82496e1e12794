import Rmr.Route.Parse

/-! What a table is meant to hold once it was loaded: for each key, what the last record about it
tells. -/

namespace Rmr

/-- What a line between the start and the end of a table tells. -/
inductive Line where
  /-- Messages go to an endpoint of each group, or where the managed element id leads to. -/
  | route (senders : List CStr) (mtype subId : Int) (groups : Option (List (List CStr)))
  | remove (senders : List CStr) (mtype subId : Int)
  | own (owner : CStr) (meids : List CStr)
  | disown (meids : List CStr)
  | blank

/-- The fields of a line. -/
def fieldsOf (text : CStr) : List CStr := pieces '|' (trimEnd (text.dropWhile isspace))

/-- The senders that are named after a message type. -/
def sendersOf (tsField : CStr) : List CStr := (pieces ',' tsField).tail

/-- The endpoints of each group. -/
def groupsOf (rrField : CStr) : Option (List (List CStr)) :=
  if (pieces ';' rrField).head? = some ['%', 'm', 'e', 'i', 'd'] then none
  else some ((pieces ';' rrField).map (pieces ','))

/-- The endpoints of a group other than this process. -/
def othersIn (conf : RtConf) (group : List CStr) : List CStr :=
  group.filter fun ep => ep ∉ conf.ipList && ep ≠ conf.myName

/-- A message type field within the limits of the parser; the type itself is no name of a process.
-/
def TypeFits (tsField : CStr) : Prop :=
  (pieces ',' tsField).length ≤ 127 ∧ ∀ type_ ∈ (pieces ',' tsField).head?, ':' ∉ type_

/-- A list of groups within the limits of the parser. -/
def GroupsFit (conf : RtConf) (rrField : CStr) : Prop :=
  rrField ≠ [] ∧ (pieces ';' rrField).length ≤ 64 ∧ ∀ group ∈ pieces ';' rrField,
    (pieces ',' group).length ≤ 64 ∧ (othersIn conf (pieces ',' group)).length ≤ maxEpGroup

/-- A list of managed element ids within the limits of the parser. -/
def MeidsFit (meidList : CStr) : Prop := (pieces ' ' meidList).length ≤ 128

/-- What a well formed line, split into fields, tells. -/
inductive Tells (conf : RtConf) : List CStr → Line → Prop where
  | rte {name tsField rrField : CStr} (named : clip name = ['r', 't', 'e'])
    (type_ : TypeFits (clip tsField)) (groups : GroupsFit conf (clip rrField)) :
    Tells conf [name, tsField, rrField]
      (.route (sendersOf (clip tsField)) (atoi (clip tsField)) unsetSubid
        (groupsOf (clip rrField)))
  | rteSub {name tsField rrField subid : CStr} {rest : List CStr}
    (named : clip name = ['r', 't', 'e']) (type_ : TypeFits (clip tsField))
    (groups : GroupsFit conf (clip rrField)) :
    Tells conf (name :: tsField :: rrField :: subid :: rest)
      (.route (sendersOf (clip tsField)) (atoi (clip tsField)) (atoi subid)
        (groupsOf (clip rrField)))
  | mse {name tsField subid rrField : CStr} {rest : List CStr}
    (named : clip name = ['m', 's', 'e']) (type_ : TypeFits (clip tsField))
    (groups : GroupsFit conf (clip rrField)) :
    Tells conf (name :: tsField :: subid :: rrField :: rest)
      (.route (sendersOf (clip tsField)) (atoi (clip tsField)) (atoi subid)
        (groupsOf (clip rrField)))
  | del {name tsField subid : CStr} {rest : List CStr} (named : clip name = ['d', 'e', 'l'])
    (type_ : TypeFits (clip tsField)) :
    Tells conf (name :: tsField :: subid :: rest)
      (.remove (sendersOf (clip tsField)) (atoi (clip tsField)) (atoi subid))
  | mmeAr {name owner meids : CStr} {rest : List CStr}
    (named : clip name = ['m', 'm', 'e', '_', 'a', 'r']) (owned : clip owner ≠ [])
    (fits : MeidsFit (clip meids)) :
    Tells conf (name :: owner :: meids :: rest) (.own (clip owner) (pieces ' ' (clip meids)))
  | mmeDel {name meids : CStr} {rest : List CStr}
    (named : clip name = ['m', 'm', 'e', '_', 'd', 'e', 'l']) (fits : MeidsFit (clip meids)) :
    Tells conf (name :: meids :: rest) (.disown (pieces ' ' (clip meids)))
  | empty : Tells conf [] .blank
  | comment {name : CStr} {rest : List CStr}
    (named : (clip name).head? = none ∨ (clip name).head? = some '#') :
    Tells conf (name :: rest) .blank

/-- A line that is well formed, and what it tells. -/
def Reads (conf : RtConf) (text : CStr) (line : Line) : Prop :=
  (fieldsOf text).length ≤ 128 ∧ Tells conf (fieldsOf text) line

/-- The name of the records that start and end a table. -/
def TableKind.name : TableKind → CStr
  | .newrt => ['n', 'e', 'w', 'r', 't']
  | .updatert => ['u', 'p', 'd', 'a', 't', 'e', 'r', 't']
  | .meidMap => ['m', 'e', 'i', 'd', '_', 'm', 'a', 'p']

/-- The lines that are counted for a table. -/
def TableKind.counts (kind : TableKind) : Line → Bool
  | .route .. => kind ≠ .meidMap
  | .remove .. => kind ≠ .meidMap
  | .own .. => kind = .meidMap
  | .disown .. => kind = .meidMap
  | .blank => false

/-- A record that starts or ends a table. -/
def Delimits (kind : TableKind) (what : CStr) (rest : List CStr) (text : CStr) : Prop :=
  (fieldsOf text).length ≤ 128 ∧ ∃ name field, fieldsOf text = name :: field :: rest ∧
    clip name = kind.name ∧ clip field = what

/-- A well formed sequence of records for one table. -/
structure Session (conf : RtConf) where
  kind : TableKind
  start : CStr
  body : List CStr
  stop : CStr
  /-- What the records between the start and the end tell. -/
  lines : List Line
  /-- What follows on the start record: the id of the table. -/
  startRest : List CStr
  /-- What follows on the end record: the count, and more. -/
  stopRest : List CStr
  starts : Delimits kind ['s', 't', 'a', 'r', 't'] startRest start
  reads : List.Forall₂ (Reads conf) body lines
  stops : Delimits kind ['e', 'n', 'd'] stopRest stop
  counted : ∀ count ∈ stopRest[0]?, atoi count = toInt (lines.countP kind.counts)
  /-- A map of managed elements has no routes. -/
  apart : kind = .meidMap → ∀ line ∈ lines, TableKind.newrt.counts line = false

/-- The records of a session. -/
def Session.texts {conf : RtConf} (session : Session conf) : List CStr :=
  session.start :: session.body ++ [session.stop]

/-- Whether a list of senders is absent or names this process. -/
def names (conf : RtConf) (senders : List CStr) : Bool :=
  senders = [] || conf.myName ∈ senders || conf.ipList.any (· ∈ senders)

/-- The endpoint of a name. -/
def endpointOf (name : CStr) : Option CStr := if name = [] then none else some name

/-- The groups of an entry: those with an endpoint come first. -/
def rrgroupsOf (conf : RtConf) (groups : List (List CStr)) : List (Option RrGroup) :=
  let used := (groups.map (othersIn conf)).filter (· ≠ [])
  used.map (fun group => some ⟨group.map endpointOf⟩) ++
    List.replicate (groups.length - used.length) none

/-- The entry that a record is about. -/
def entryOf (conf : RtConf) (mtype subId : Int) (groups : Option (List (List CStr))) : Entry where
  key := buildRtKey subId mtype
  mtype := mtype
  rrgroups := (groups.map (rrgroupsOf conf)).getD []

/-- What a line tells of the entry for a pair: nothing, that there is none, or what it is. -/
def Line.route? (conf : RtConf) (mtype subId : Int) : Line → Option (Option Entry)
  | .route senders type_ sub groups =>
    if names conf senders ∧ type_ = mtype ∧ sub = subId then
      some (some (entryOf conf mtype subId groups))
    else none
  | .remove senders type_ sub =>
    if names conf senders ∧ type_ = mtype ∧ sub = subId then some none else none
  | _ => none

/-- What a line tells of the owner of a managed element. -/
def Line.owner? (meid : CStr) : Line → Option (Option CStr)
  | .own owner meids => if meid ∈ meids then some (some owner) else none
  | .disown meids => if meid ∈ meids then some none else none
  | _ => none

/-- What the last line tells that tells something, and else what it was. -/
def lastTold {α : Type} (told : Line → Option α) (lines : List Line) (before : α) : α :=
  (lines.reverse.findSome? told).getD before

namespace RtCtx

/-- What a lookup finds: the entry itself. -/
def answer (ctx : RtCtx) (rt : Nat) (sid mtype : Int) (tryAlt : Bool) : Option (Option Entry) :=
  (ctx.utaGetRte rt sid mtype tryAlt).map fun id => (ctx.rtes id).map (·.entry)

end RtCtx

end Rmr
