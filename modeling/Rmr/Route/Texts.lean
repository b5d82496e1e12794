import Rmr.Route.Parse

/-! Texts of route tables: how records are found in a file, and in messages. -/

namespace Rmr

/-- What is read as a string in a buffer ends before the first nil character. -/
def cString (buf : List Char) : CStr := buf.takeWhile (· ≠ '\x00')

/-- `ensure_nlterm`. -/
def ensureNlterm (buf : CStr) : CStr :=
  if buf.getLast? = some '\n' then buf else buf ++ ['\n']

/-- Broken systems use a carriage return, which is made a newline. -/
def fixBroken (fbuf : CStr) : CStr := fbuf.map fun c => if c = '\r' then '\n' else c

/-- The records of a file: each must have a newline, so what comes after the last one is none. -/
def fileRecs (text : CStr) : List CStr :=
  ((fixBroken (ensureNlterm (cString text))).splitOn '\n').dropLast

/-- The records of a message; what comes after the last newline is one. -/
def msgRecs (pbuf : List Char) : List CStr := (cString pbuf).splitOn '\n'

/-- A context, and how many records were read that are not blank. The code does not count them; what
the allocations for the next one come to is told by that number. -/
structure TableRead where
  ctx : RtCtx
  count : Nat

namespace TableRead

/-- One record. -/
def readRec (conf : RtConf) (mems : Nat → Mem) (read : TableRead) (rec : CStr) :
    Except RtFault TableRead := do
  let ctx ← read.ctx.parseRtRec conf (mems read.count) rec
  return { ctx := ctx, count := if rec.all isspace then read.count else read.count + 1 }

/-- Records one after the other. -/
def readRecs (conf : RtConf) (mems : Nat → Mem) (read : TableRead) (recs : List CStr) :
    Except RtFault TableRead :=
  recs.foldlM (readRec conf mems) read

/-- `read_static_rt`, once `uta_fib` has returned the text of the file. There is no private context
that a state message could be sent with. -/
def readStaticRt (conf : RtConf) (mems : Nat → Mem) (read : TableRead) (text : CStr) :
    Except RtFault TableRead := do
  let next ← read.readRecs conf mems (fileRecs text)
  return { next with ctx := { next.ctx with acks := read.ctx.acks } }

/-- Everything about tables but the state messages that were sent. -/
def tables (read : TableRead) : RtCtx := { read.ctx with acks := [] }

end TableRead

/-- A message from the route manager; only the used part of the payload counts. -/
structure RtMsg where
  mtype : Int
  payload : List Char

/-- `RMRRM_TABLE_DATA`. -/
def rmrrmTableData : Int := 20

/-- What `rtc_parse_msg` keeps from one message to the next. -/
structure MsgReader where
  read : TableRead
  /-- `pbuf`, whose length is `pbuf_size`. -/
  pbuf : List Char
  /-- `RTCFL_HAVE_UPDATE`. -/
  haveUpdate : Bool

/-- The work buffer with room for a message; `junk` is what is in new memory. Twice the length is an
`int`, and there is no memory of a negative size. -/
def roomFor (junk : Nat → Char) (pbuf : List Char) (mlen : Nat) : Except RtFault (List Char) :=
  if pbuf.length ≤ mlen then
    let size := if mlen < 512 then 1024 else toInt (mlen * 2)
    if size < 0 then .error .nil else .ok ((List.range size.toNat).map junk)
  else .ok pbuf

/-- `rtc_parse_msg`. What the loop leaves in the buffer is not read again. -/
def MsgReader.rtcParseMsg (conf : RtConf) (mems : Nat → Mem) (junk : Nat → Char)
    (reader : MsgReader) (msg : RtMsg) : Except RtFault MsgReader :=
  if msg.mtype = rmrrmTableData then do
    let mlen := msg.payload.length
    let pbuf ← roomFor junk reader.pbuf mlen
    let pbuf := msg.payload ++ '\x00' :: pbuf.drop (mlen + 1)
    let read ← reader.read.readRecs conf mems (msgRecs pbuf)
    return { read := read, pbuf := pbuf, haveUpdate := true }
  else .ok reader

/-- The record terminators that are documented. -/
inductive Terminator where
  | newline
  | crlf
  | cr
  deriving DecidableEq

/-- The characters of a terminator. -/
def Terminator.text : Terminator → CStr
  | .newline => ['\n']
  | .crlf => ['\r', '\n']
  | .cr => ['\r']

/-- A record of a text with its terminator. -/
structure TextRec where
  text : CStr
  term : Terminator
  clean : ∀ c ∈ text, c ≠ '\n' ∧ c ≠ '\r' ∧ c ≠ '\x00'

/-- The text of records. -/
def textOf (recs : List TextRec) : CStr := recs.flatMap fun rec => rec.text ++ rec.term.text

/-- A message of records. -/
def tableMsg (recs : List TextRec) : RtMsg := ⟨rmrrmTableData, textOf recs⟩

/-- No two records that are not blank have only a carriage return between them. -/
def OnePerLine (text : CStr) : Prop :=
  ∀ line ∈ text.splitOn '\n', (line.splitOn '\r').countP (fun rec => !rec.all isspace) ≤ 1

instance decidableOnePerLine (text : CStr) : Decidable (OnePerLine text) :=
  inferInstanceAs (Decidable (∀ line ∈ _, _))

end Rmr
