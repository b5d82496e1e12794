import Rmr.Transport.Wormhole

/-! The route table collector: its private context, and what it does with wormholes. -/

namespace Rmr

/-- The context of the application and the private one of the collector. -/
structure RtcSys where
  user : WhSys
  /-- `pvt_cx`. -/
  pvt : WhCtx
  /-- `rtg_whid` of the application's context: the id of the route manager in the private one. -/
  rtgWhid : Int
  /-- `rtg_whid` of the private context, which is clear when the context is made. -/
  pvtRtgWhid : Int
  /-- The id that `uta_alarm_send` remembers. -/
  alarmWhid : Int

/-- Where the collector sends to. -/
structure RtcConf where
  rtgAddr : CStr
  alarmEndpt : CStr

/-- What happens, with the outcome of each open, reopen and send. -/
inductive RtcEvent where
  /-- The application works with wormholes, or one of its connections comes up or goes down. -/
  | user (event : WhEvent)
  /-- A table is requested. -/
  | request (opens connects : Bool) (result : SendResult)
  /-- The state of a table is sent, to where a message came from if there is one. -/
  | ack (useRts : Bool) (rts : Option SendResult) (connects : Bool) (result : SendResult)
  /-- An alarm is raised or cleared. -/
  | alarm (opens connects : Bool) (result : SendResult)
  /-- A connection of the private context comes up or goes down. -/
  | link (ep : CStr) (isOpen : Bool)

namespace RtcSys

/-- The collector was started. -/
def init : RtcSys where
  user := .init
  pvt := .init
  rtgWhid := -1
  pvtRtgWhid := 0
  alarmWhid := -1

/-- `send_update_req`. -/
def sendUpdateReq (sys : RtcSys) (connects : Bool) (result : SendResult) : RtcSys :=
  if sys.rtgWhid < 0 then sys
  else
    let sent := sys.pvt.rmrWhSendMsg sys.rtgWhid true connects result
    if sent.2 = some .ok then { sys with pvt := sent.1 }
    else
      -- The connection is assumed lost; the context is that of the application.
      { sys with
        user := { sys.user with ctx := sys.user.ctx.rmrWhClose sys.rtgWhid }
        pvt := sent.1
        rtgWhid := -1 }

/-- A table request as `rtc` makes it. -/
def request (conf : RtcConf) (sys : RtcSys) (opens connects : Bool) (result : SendResult) :
    RtcSys :=
  if sys.rtgWhid < 0 then
    let opened := sys.pvt.rmrWhOpen (some conf.rtgAddr) opens
    { sys with pvt := opened.1, rtgWhid := opened.2 }.sendUpdateReq connects result
  else sys.sendUpdateReq connects result

/-- `send_rt_ack`, with the private context. -/
def sendRtAck (sys : RtcSys) (useRts : Bool) (rts : Option SendResult) (connects : Bool)
    (result : SendResult) : RtcSys :=
  if sys.pvtRtgWhid < 0 then sys
  else
    let sent := if useRts then (sys.pvt, rts)
      else sys.pvt.rmrWhSendMsg sys.pvtRtgWhid true connects result
    if sent.2 = some .ok then { sys with pvt := sent.1 }
    else { sys with pvt := sent.1.rmrWhClose sys.pvtRtgWhid, pvtRtgWhid := -1 }

/-- `uta_alarm_send`, with the private context. -/
def utaAlarmSend (conf : RtcConf) (sys : RtcSys) (opens connects : Bool) (result : SendResult) :
    RtcSys :=
  if sys.alarmWhid < 0 then
    let opened := sys.pvt.rmrWhOpen (some conf.alarmEndpt) opens
    if opened.2 < 0 then { sys with pvt := opened.1, alarmWhid := opened.2 }
    else { sys with
      pvt := (opened.1.rmrWhSendMsg opened.2 true connects result).1
      alarmWhid := opened.2 }
  else { sys with pvt := (sys.pvt.rmrWhSendMsg sys.alarmWhid true connects result).1 }

/-- One event. -/
def step (conf : RtcConf) (sys : RtcSys) : RtcEvent → RtcSys
  | .user event => { sys with user := sys.user.step event }
  | .request opens connects result => sys.request conf opens connects result
  | .ack useRts rts connects result => sys.sendRtAck useRts rts connects result
  | .alarm opens connects result => sys.utaAlarmSend conf opens connects result
  | .link ep isOpen => { sys with pvt := sys.pvt.setOpen ep isOpen }

/-- Events one after the other. -/
def run (conf : RtcConf) (events : List RtcEvent) : RtcSys := events.foldl (step conf) init

/-- The id that a request is sent to. -/
def requestWhid (conf : RtcConf) (sys : RtcSys) (opens : Bool) : Int :=
  if sys.rtgWhid < 0 then (sys.pvt.rmrWhOpen (some conf.rtgAddr) opens).2 else sys.rtgWhid

/-- The private context that it is sent with. -/
def requestCtx (conf : RtcConf) (sys : RtcSys) (opens : Bool) : WhCtx :=
  if sys.rtgWhid < 0 then (sys.pvt.rmrWhOpen (some conf.rtgAddr) opens).1 else sys.pvt

end RtcSys

/-- What the application itself does. -/
def RtcEvent.own : RtcEvent → Option WhEvent
  | .user event => some event
  | _ => none

/-- The condition for an event: a request that cannot be sent has an id that refers to nothing in
the context of the application. -/
def RtcEvent.Apart (conf : RtcConf) (sys : RtcSys) : RtcEvent → Prop
  | .request opens _ result =>
    (sys.requestCtx conf opens).refers (sys.requestWhid conf opens) = none ∨ result ≠ .ok →
      sys.user.ctx.refers (sys.requestWhid conf opens) = none
  | _ => True

end Rmr
