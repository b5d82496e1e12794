import Rmr.Route.Texts
import Rmr.Transport.Collector

/-! The thread that collects tables: where it listens, whom it asks, and what it does with what
comes. -/

namespace Rmr

/-- The environment that `rtc` reads; a variable that is not set is nil. -/
structure RtcEnv where
  /-- `RMR_RTREQ_FREQ`. -/
  rtreqFreq : Option CStr
  /-- `RMR_CTL_PORT`. -/
  ctlPort : Option CStr
  /-- `RMR_RTG_SVC`. -/
  rtgAddr : Option CStr

/-- `DEF_CTL_PORT`. -/
def defCtlPort : CStr := "4561".toList

/-- `DEF_RTG_WK_ADDR`. -/
def defRtgWkAddr : CStr := "routemgr:4561".toList

/-- `DEF_RTREQ_FREQ`. -/
def defRtreqFreq : Int := 5

/-- What `rtc` makes of the environment. -/
structure RtcPlan where
  rtReqFreq : Int
  myPort : CStr
  rtgAddr : CStr
  /-- `RTCFL_HAVE_UPDATE` is set from the start: it only listens. -/
  listens : Bool

/-- The seconds between requests. -/
def RtcEnv.freq (env : RtcEnv) : Int :=
  match env.rtreqFreq with
  | none => defRtreqFreq
  | some text => if atoi text < 1 ∨ 300 < atoi text then defRtreqFreq else atoi text

/-- A variable that is set, and not empty. -/
def given (var : Option CStr) : Option CStr := var.filter (· ≠ [])

/-- `rtc` up to where it makes its private context. -/
def RtcEnv.plan (env : RtcEnv) : RtcPlan :=
  let daddr := if (given env.ctlPort).isSome then defRtgWkAddr else defCtlPort
  let plan : RtcPlan := {
    rtReqFreq := env.freq
    myPort := (given env.ctlPort).getD defCtlPort
    rtgAddr := (given env.rtgAddr).getD daddr
    listens := false }
  match utaTokenise plan.rtgAddr 120 ':' with
  | [] => plan
  -- Just a port: it is assumed that the route manager connects.
  | [port] => { plan with myPort := port, listens := true }
  | first :: second :: _ =>
    if first = "tcp".toList then { plan with myPort := second, listens := true } else plan

/-- Where the collector sends to. -/
def RtcPlan.conf (plan : RtcPlan) (alarmEndpt : CStr) : RtcConf := ⟨plan.rtgAddr, alarmEndpt⟩

/-- The outcome of an open, a reopen and a send. -/
structure RtcTry where
  opens : Bool
  connects : Bool
  result : SendResult

/-- The outcome of sending a state message. -/
structure RtcAckTry where
  useRts : Bool
  rts : Option SendResult
  connects : Bool
  result : SendResult

/-- What goes on outside of the thread. -/
inductive Outside where
  /-- The application works with wormholes, or one of its connections comes up or goes down. -/
  | user (event : WhEvent)
  /-- A connection of the private context comes up or goes down. -/
  | link (ep : CStr) (isOpen : Bool)

/-- What the thread meets in a turn. -/
structure RtcTurn where
  /-- What went on since the last turn, and for how many seconds. -/
  outside : List Outside
  idle : Nat
  /-- A request, if one is made, and how long it takes. -/
  request : RtcTry
  took : Nat
  /-- The message that comes, if one does, and how long it is waited for. -/
  recvd : Option RtMsg
  waited : Nat
  /-- The application's context is being closed, as is seen after the wait. -/
  shutdown : Bool
  /-- What `alarm_if_drops` sends, if it sends something. -/
  alarm : Option RtcTry
  /-- What becomes of the state messages. -/
  acks : Nat → RtcAckTry
  /-- The context is being closed, as is seen at the end of the turn. -/
  closing : Bool

/-- A request that was made: when it was, and when the next one was put off. The code keeps no list
of them. -/
structure RtRequest where
  start : Nat
  stop : Nat

/-- The thread. -/
structure Rtc where
  sys : RtcSys
  reader : MsgReader
  /-- The message that is to be handled, if it has a payload. -/
  msg : Option RtMsg
  nxtRtReq : Int
  now : Nat
  done : Bool
  /-- The requests, the last one first. -/
  requests : List RtRequest
  /-- The messages with a payload that were received; the code has no such list, nor the next one.
  -/
  received : List RtMsg
  /-- The messages that were passed to `rtc_parse_msg`. -/
  handled : List RtMsg

/-- The event of the collector. -/
def Outside.event : Outside → RtcEvent
  | .user event => .user event
  | .link ep isOpen => .link ep isOpen

namespace Rtc

/-- Before the loop, with what is known from the seed. -/
def start (plan : RtcPlan) (seed : TableRead) (now : Nat) : Rtc where
  sys := .init
  reader := ⟨seed, [], plan.listens⟩
  msg := none
  nxtRtReq := 0
  now := now
  done := false
  requests := []
  received := []
  handled := []

/-- Time passes, and what goes on outside of the thread. -/
def elapse (conf : RtcConf) (rtc : Rtc) (turn : RtcTurn) : Rtc :=
  { rtc with
    sys := (turn.outside.map Outside.event).foldl (RtcSys.step conf) rtc.sys
    now := rtc.now + turn.idle }

/-- A table is requested, as long as there was no message with one, and if the time for it has come.
-/
def ask (conf : RtcConf) (freq : Int) (rtc : Rtc) (turn : RtcTurn) : Rtc :=
  if rtc.reader.haveUpdate = false ∧ rtc.nxtRtReq ≤ rtc.now then
    { rtc with
      sys := rtc.sys.request conf turn.request.opens turn.request.connects turn.request.result
      now := rtc.now + turn.took
      nxtRtReq := toInt (rtc.now + turn.took + freq)
      requests := ⟨rtc.now, rtc.now + turn.took⟩ :: rtc.requests }
  else rtc

/-- `rmr_torcv_msg`, and the chores behind it. A message without a payload is none. -/
def receive (conf : RtcConf) (rtc : Rtc) (turn : RtcTurn) : Rtc :=
  let msg := turn.recvd.filter (·.payload ≠ [])
  { rtc with
    sys := match turn.alarm with
      | some alarm =>
        if turn.shutdown then rtc.sys
        else rtc.sys.utaAlarmSend conf alarm.opens alarm.connects alarm.result
      | none => rtc.sys
    now := rtc.now + turn.waited
    msg := msg
    received := rtc.received ++ msg.toList }

/-- The message that is there is handled. One of another type than that of tables is left there. -/
def handle (conf : RtConf) (mems : Nat → Mem) (junk : Nat → Char) (rtc : Rtc) (turn : RtcTurn) :
    Except RtFault Rtc :=
  match rtc.msg with
  | none => .ok rtc
  | some msg => do
    let reader ← rtc.reader.rtcParseMsg conf mems junk msg
    let sent := reader.read.ctx.acks.length - rtc.reader.read.ctx.acks.length
    return { rtc with
      sys := ((List.range sent).map turn.acks).foldl
        (fun sys ack => sys.sendRtAck ack.useRts ack.rts ack.connects ack.result) rtc.sys
      reader := reader
      msg := if msg.mtype = rmrrmTableData then none else some msg
      handled := rtc.handled ++ [msg] }

/-- A turn up to where a message is handled: while there is one, none is received. -/
def wait (plan : RtcPlan) (alarmEndpt : CStr) (rtc : Rtc) (turn : RtcTurn) : Rtc :=
  let conf := plan.conf alarmEndpt
  let rtc := rtc.elapse conf turn
  if rtc.msg.isSome then rtc else (rtc.ask conf plan.rtReqFreq turn).receive conf turn

/-- One turn. -/
def turn (plan : RtcPlan) (alarmEndpt : CStr) (conf : RtConf) (mems : Nat → Mem)
    (junk : Nat → Char) (rtc : Rtc) (turn : RtcTurn) : Except RtFault Rtc :=
  if rtc.done then .ok rtc
  else do
    let rtc ← (rtc.wait plan alarmEndpt turn).handle conf mems junk turn
    return { rtc with done := turn.shutdown || turn.closing }

/-- Turns one after the other. -/
def run (plan : RtcPlan) (alarmEndpt : CStr) (conf : RtConf) (mems : Nat → Mem)
    (junk : Nat → Char) (rtc : Rtc) (turns : List RtcTurn) : Except RtFault Rtc :=
  turns.foldlM (turn plan alarmEndpt conf mems junk) rtc

end Rtc

/-- A message with records of tables. -/
def RtMsg.isTable (msg : RtMsg) : Bool := msg.mtype = rmrrmTableData

/-- The messages with tables were handled one after the other; the first other one is kept. -/
structure Rtc.Takes (conf : RtConf) (mems : Nat → Mem) (junk : Nat → Char) (first : MsgReader)
    (rtc : Rtc) (good : List RtMsg) : Prop where
  tables : ∀ msg ∈ good, msg.isTable = true
  parsed : good.foldlM (MsgReader.rtcParseMsg conf mems junk) first = .ok rtc.reader
  rest : rtc.msg = none ∧ rtc.received = good ∧ rtc.handled = good ∨
    ∃ bad times, bad.isTable = false ∧ rtc.msg = some bad ∧ rtc.received = good ++ [bad] ∧
      rtc.handled = good ++ List.replicate (times + 1) bad

end Rmr
