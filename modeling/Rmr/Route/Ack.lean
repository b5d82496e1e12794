import Rmr.Route.Parse

/-! The state messages that the sender of a table gets, and whether they reach it. -/

namespace Rmr

/-- What a record does to tables: it starts one, with the id that it comes with, or ends one. -/
inductive TableEvent where
  | start (kind : TableKind) (id : Option CStr)
  | stop (kind : TableKind) (count : Option CStr)
  deriving DecidableEq

/-- The event of a record that has a second field, by the first letter of its name. -/
def tableEvent (fullrt : Bool) (buf : CStr) : Option TableEvent :=
  match utaTokenise (trimEnd (buf.dropWhile isspace)) 128 '|' with
  | name :: what :: rest =>
    let start (kind : TableKind) := some (TableEvent.start kind (rest[0]?.map clip))
    let stop (kind : TableKind) := some (TableEvent.stop kind rest[0]?)
    match (clip name).head? with
    | some 'n' => if clip what = ['e', 'n', 'd'] then stop .newrt else start .newrt
    | some 'u' =>
      if fullrt = false then none
      else if clip what = ['e', 'n', 'd'] then stop .updatert else start .updatert
    | some 'm' =>
      if clip name = ['m', 'e', 'i', 'd', '_', 'm', 'a', 'p'] then
        if (clip what).head? = some 's' then start .meidMap
        else if clip what = ['e', 'n', 'd'] then stop .meidMap else none
      else none
    | _ => none
  | _ => none

/-- The record count that an end record is compared with. -/
def TableEvent.counted (event : TableEvent) (table : RouteTable) : Int :=
  match event with
  | .stop .meidMap _ => table.mupdates
  | _ => table.updates

/-- The counts of an end record that is not believed: the one that it came with, and ours. -/
def TableEvent.disputed (event : TableEvent) (table : RouteTable) : Option (CStr × Int) :=
  match event with
  | .start _ _ => none
  | .stop _ count => (count.filter (fun count => event.counted table ≠ atoi count)).map
    fun count => (count, event.counted table)

/-- The text for two counts that differ. -/
def missingText (expected : CStr) (got : Int) : CStr :=
  "missing table records: expected ".toList ++ expected ++ " got ".toList ++
    (toString got).toList ++ ['\n']

/-- The text of a reason; `wbuf` is what the buffer for it holds before anything is written to it.
-/
def NackReason.text (wbuf : CStr) : NackReason → CStr
  | .notComplete => "table not complete".toList
  | .missing expected got => (missingText expected got).take 1023
  | .unwritten => wbuf

/-- The format of a state message. -/
def tableState (ok : Bool) (tableId : Option CStr) (reason : CStr) : CStr :=
  (if ok then "OK" else "ERR").toList ++ ' ' :: tableId.getD "<id-missing>".toList ++
    ' ' :: reason ++ ['\n']

/-- How much of a state message there is room for. -/
def ackMax : Nat := 1022

/-- The payload of a state message. -/
def RtAck.payload (ack : RtAck) (wbuf : CStr) : CStr :=
  (tableState ack.reason.isNone ack.tableId ((ack.reason.map (·.text wbuf)).getD [])).take ackMax

/-- What becomes of a state message. -/
inductive AckOutcome where
  /-- There was no buffer for it. -/
  | noBuffer
  /-- It could not be sent. -/
  | refused
  | delivered
  deriving DecidableEq

/-- The way back to the sender of tables. -/
structure RtgLink where
  /-- `rtg_whid` of the private context is not negative. -/
  whid : Bool
  /-- The payloads that were sent, delivered or not. -/
  sent : List CStr

/-- `send_rt_ack`: when a message is not delivered the connection is taken for lost, and nothing is
sent from then on. -/
def RtgLink.sendRtAck (link : RtgLink) (payload : CStr) (outcome : AckOutcome) : RtgLink :=
  if link.whid = false then link
  else
    match outcome with
    | .noBuffer => link
    | .refused => { whid := false, sent := link.sent ++ [payload] }
    | .delivered => { link with sent := link.sent ++ [payload] }

/-- A table that was ended, rejected or superseded. The code keeps no such record. -/
structure Settled where
  /-- The id on its own start record. -/
  id : Option CStr
  /-- It became the active table. -/
  active : Bool
  disputed : Option (CStr × Int)
  deriving DecidableEq

/-- The reader of tables with the way back to their sender. -/
structure Reporter where
  ctx : RtCtx
  link : RtgLink
  /-- The id on the start record of the table in progress. The code has no such variable. -/
  own : Option CStr
  settled : List Settled

/-- A record, with what its allocations come to, what becomes of a state message sent for it, and
what is in the buffer for the reason. -/
structure TableRec where
  buf : CStr
  mem : Mem
  outcome : AckOutcome
  wbuf : CStr

namespace Reporter

/-- Nothing was received yet, and the route manager can be reached. -/
def init : Reporter where
  ctx := RtCtx.init
  link := ⟨true, []⟩
  own := none
  settled := []

/-- The event of a record. -/
def event (col : Reporter) (rec : TableRec) : Option TableEvent :=
  tableEvent col.ctx.fullrt rec.buf

/-- The table that a record settles: one that is in progress when a table is started or ended. -/
def settles (col : Reporter) (rec : TableRec) : Option (Nat × RouteTable × TableEvent) := do
  let rt ← col.ctx.newRtable
  let table ← col.ctx.tables rt
  let event ← col.event rec
  return (rt, table, event)

/-- What is noted of the table that a record settles. -/
def note (col : Reporter) (rec : TableRec) (next : RtCtx) : Option Settled :=
  (col.settles rec).map fun (rt, table, event) =>
    ⟨col.own, next.rtable = some rt, event.disputed table⟩

/-- One record. -/
def step (conf : RtConf) (col : Reporter) (rec : TableRec) : Except RtFault Reporter := do
  let next ← col.ctx.parseRtRec conf rec.mem rec.buf
  let acks := next.acks.drop col.ctx.acks.length
  return {
    ctx := next
    link := acks.foldl (fun link ack => link.sendRtAck (ack.payload rec.wbuf) rec.outcome) col.link
    own := match col.event rec with
      | some (.start _ id) => id
      | _ => col.own
    settled := col.settled ++ (col.note rec next).toList }

end Reporter

end Rmr
