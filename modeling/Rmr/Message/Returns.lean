import Rmr.Message.Api
import Rmr.Message.Retry
import Rmr.Transport.Link

/-! The return of messages to their senders, over the sessions that they arrived on. -/

namespace Rmr

/-- The string at a place in a block, as a name. -/
def Block.name (block : Block) (start : Nat) : CStr :=
  ((block.slice start (block.size - start)).takeWhile (· ≠ 0)).map fun byte => Char.ofNat byte.toNat

/-- What `rmr_rts_msg` turns to when the source of a message is not reached by its name. -/
inductive RtsTurn where
  /-- The descriptor that the message came with. -/
  | fd (sock : Int)
  /-- The address of the source. -/
  | addr
  | noEndpt
  deriving DecidableEq

/-- It takes the address only without a descriptor; that is there from version 2 on. -/
def Mbuf.rtsTurn (order : ByteOrder) (msg : Mbuf) : RtsTurn :=
  if 0 ≤ msg.rtsFd then .fd msg.rtsFd
  else if 2 < hdrGet order msg.tpBuf .rmrVer then .addr
  else .noEndpt

/-- Bytes that `rmr_rts_msg` wrote. -/
structure Return where
  src : CStr
  srcip : CStr
  /-- The session that the message arrived on. -/
  arrived : Option Nat
  session : Nat

/-- A call of `rmr_rts_msg` that a thread is in. -/
structure RtsCall where
  thread : Nat
  id : Nat
  src : CStr
  srcip : CStr
  /-- Not in the code: the session that the message arrived on. -/
  arrived : Option Nat
  /-- The source is looked up by its address. -/
  byAddr : Bool

/-- The message buffers of an application, and the sessions of its process. -/
structure RtsSys where
  net : Net
  api : Api
  /-- Not in the code: the session that each message arrived on, or the one that it was copied from.
  -/
  arrived : Nat → Option Nat
  calls : List RtsCall
  returned : List Return

/-- What happens. -/
inductive RtsEvent where
  /-- Sessions are opened, used and closed. -/
  | net (event : NetEvent)
  /-- The application does something, whatever sending comes to. -/
  | api (event : ApiEvent)
  /-- A frame has arrived on the session of a block, and is handed to the application. -/
  | receive (blk : Nat) (rawMsg : Block)
  /-- A thread calls `rmr_rts_msg`. -/
  | rts (thread id : Nat)
  /-- It did not reach the source, and turns to what else there is. -/
  | turn (thread : Nat)
  /-- It has a descriptor, and calls `SIsendt` or goes on in it. -/
  | sendt (thread : Nat) (poll : Poll) (ret : SendRet) (more : Bool)

/-- The thread that starts to send something in an event, goes on with it or leaves off. -/
def NetEvent.sender : NetEvent → Option Nat
  | .look thread _ _ | .take thread _ | .sendt thread _ _ _ | .leave thread => some thread
  | .ensure _ | .link _ _ | .read _ | .accept _ | .disc _ | .wait | .remove _ => none

/-- The message that an event is about, if there is one already. -/
def PoolEvent.about : PoolEvent → Option Nat
  | .apply id _ | .realloc id _ | .reallocPayload id _ _ _ | .send id _ | .rts id _ | .whSend id _
  | .free id => some id
  | .alloc _ | .tralloc _ _ | .receive _ _ => none

/-- Likewise for all that an application does. -/
def ApiEvent.about : ApiEvent → Option Nat
  | .pool event => event.about
  | .call id _ | .timeout id _ => some id

/-- `uta_epsock_byname` up to where it looks if the endpoint is open. There is none with an empty
name. -/
def Net.lookup (net : Net) (thread : Nat) (name : CStr) : Net :=
  let net := net.ensure name
  net.look thread (net.eps.idxOf name) true

namespace RtsSys

/-- A process of some threads that listens on a descriptor, and an application that has done nothing
so far. -/
def init (fd threads : Nat) (nnSock : Nat → Int) : RtsSys where
  net := Net.init fd threads nnSock
  api := Api.init
  arrived := fun _ => none
  calls := []
  returned := []

/-- Where a message that is new after an event came from. -/
def origin (sys : RtsSys) : ApiEvent → Option Nat
  | .pool (.realloc id _) => sys.arrived id
  | .pool (.reallocPayload id _ _ _) => sys.arrived id
  | _ => none

/-- The sessions that messages arrived on, when there may be one more. -/
def arrivedAfter (sys : RtsSys) (api : Api) (origin : Option Nat) (id : Nat) : Option Nat :=
  if id = sys.api.pool.count ∧ sys.api.pool.count < api.pool.count then origin else sys.arrived id

/-- An application does something with its message buffers. -/
def apply (conf : SendConf) (rcvConf : RcvConf) (left : Leftover) (sys : RtsSys) (event : ApiEvent)
    (origin : Option Nat) : Except Fault RtsSys := do
  let api ← sys.api.step conf rcvConf left event
  return { sys with api := api, arrived := sys.arrivedAfter api origin }

/-- The call that a thread is in. -/
def callOf (sys : RtsSys) (thread : Nat) : Option RtsCall :=
  sys.calls.find? fun call => call.thread = thread

/-- A message was given to a call. -/
def Given (sys : RtsSys) (id : Nat) : Prop := ∃ call ∈ sys.calls, call.id = id

instance decidableGiven (sys : RtsSys) (id : Nat) : Decidable (sys.Given id) :=
  inferInstanceAs (Decidable (∃ call ∈ sys.calls, call.id = id))

/-- A thread calls `rmr_rts_msg`, which looks the source up by its name. -/
def rts (sys : RtsSys) (thread id : Nat) (msg : Mbuf) : Except Fault RtsSys :=
  if sys.net.Free thread ∧ sys.callOf thread = none ∧ ¬ sys.Given id then do
    let _ ← msg.tpBuf.strdup HdrField.src.offset
    let call := {
      thread := thread
      id := id
      src := msg.tpBuf.name HdrField.src.offset
      srcip := msg.tpBuf.name HdrField.srcip.offset
      arrived := sys.arrived id
      byAddr := false }
    return { sys with net := sys.net.lookup thread call.src, calls := call :: sys.calls }
  else .ok sys

/-- `rmr_rts_msg` returns, with no endpoint to send to or with what sending came to. -/
def finish (conf : SendConf) (rcvConf : RcvConf) (left : Leftover) (sys : RtsSys) (call : RtsCall)
    (result : Option SendResult) : Except Fault RtsSys :=
  let sys := { sys with
    net := sys.net.leave call.thread
    calls := sys.calls.filter fun other => other.thread ≠ call.thread }
  sys.apply conf rcvConf left (.pool (.rts call.id result)) none

/-- A thread that has not reached the source goes on. -/
def turn (conf : SendConf) (rcvConf : RcvConf) (left : Leftover) (sys : RtsSys) (call : RtsCall)
    (msg : Mbuf) : Except Fault RtsSys :=
  if call.byAddr then sys.finish conf rcvConf left call none
  else
    match msg.rtsTurn conf.order with
    | .fd sock => .ok { sys with net := sys.net.step (.take call.thread sock) }
    | .addr => do
      let _ ← msg.tpBuf.strdup HdrField.srcip.offset
      return { sys with
        net := sys.net.lookup call.thread call.srcip
        calls := sys.calls.map fun other =>
          if other.thread = call.thread then { other with byAddr := true } else other }
    | .noEndpt => sys.finish conf rcvConf left call none

/-- `send_msg` with one try, as there are to be no retries. -/
def sendt (conf : SendConf) (rcvConf : RcvConf) (left : Leftover) (sys : RtsSys) (call : RtsCall)
    (poll : Poll) (ret : SendRet) (more : Bool) : Except Fault RtsSys :=
  let tried := sys.net.sendt call.thread poll ret more
  let back := (tried.1.written.drop sys.net.written.length).map fun bytes => {
    src := call.src
    srcip := call.srcip
    arrived := call.arrived
    session := bytes.session }
  let sys := { sys with net := tried.1, returned := sys.returned ++ back }
  match tried.2 with
  | none => .ok sys
  | some ret => sys.finish conf rcvConf left call (some ((SendTry.enter (-1)).pass ret).result)

/-- One event. -/
def step (conf : SendConf) (rcvConf : RcvConf) (left : Leftover) (sys : RtsSys) :
    RtsEvent → Except Fault RtsSys
  | .net event =>
    -- A thread does nothing else while it is in a call.
    if ∃ thread ∈ event.sender, sys.callOf thread ≠ none then .ok sys
    else .ok { sys with net := sys.net.step event }
  -- Messages are received and returned over the sessions only.
  | .api (.pool (.receive _ _)) => .ok sys
  | .api (.pool (.rts _ _)) => .ok sys
  | .api event =>
    -- The application has given a message up that is being returned.
    if ∃ id ∈ event.about, sys.Given id then .ok sys
    else sys.apply conf rcvConf left event (sys.origin event)
  | .receive blk rawMsg =>
    if sys.net.closing ≠ .idle then .ok sys
    else
      match sys.net.si.fdOf blk with
      | none => .ok sys
      | some fd => sys.apply conf rcvConf left (.pool (.receive rawMsg fd)) (sys.net.si.os fd)
  | .rts thread id =>
    match sys.api.pool.msgs id with
    | none => .ok sys
    | some msg => sys.rts thread id msg
  | .turn thread =>
    match sys.callOf thread with
    | none => .ok sys
    | some call =>
      match sys.api.pool.msgs call.id with
      | none => .ok sys
      | some msg => if sys.net.Free thread then sys.turn conf rcvConf left call msg else .ok sys
  | .sendt thread poll ret more =>
    match sys.callOf thread with
    | none => .ok sys
    | some call => sys.sendt conf rcvConf left call poll ret more

/-- Events one after the other, in a process of some threads that listens on a descriptor. -/
def run (conf : SendConf) (rcvConf : RcvConf) (left : Leftover) (fd threads : Nat)
    (nnSock : Nat → Int) (events : List RtsEvent) : Except Fault RtsSys :=
  events.foldlM (step conf rcvConf left) (init fd threads nnSock)

end RtsSys

/-- The descriptor for return to sender is none, or that of an open session, which the message
arrived on. -/
def Net.Fallback (net : Net) (arrived : Option Nat) (rtsFd : Int) : Prop :=
  rtsFd = -1 ∨ ∃ fd session : Nat, rtsFd = fd ∧ arrived = some session ∧ net.si.os fd = some session

/-- Messages were returned to their senders, and those that the application has would be. -/
structure RtsSys.Returns (sys : RtsSys) : Prop where
  /-- Each was written to a session that was established to its source, or that it arrived on. -/
  returned : ∀ back ∈ sys.returned, sys.net.peer back.session = some back.src ∨
    sys.net.peer back.session = some back.srcip ∨ back.arrived = some back.session
  fallback : ∀ id msg, sys.api.pool.msgs id = some msg →
    sys.net.Fallback (sys.arrived id) msg.rtsFd

end Rmr
