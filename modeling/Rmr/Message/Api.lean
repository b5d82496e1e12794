import Rmr.Message.Pool

/-! Calls, receives that time out, and the frames that an application sends. -/

namespace Rmr

/-- `MAX_CALL_ID`: the largest id of a call, and the last chute. -/
def maxCallId : Int := 255

/-- `mt_call` makes a request of a message: the call flag, the id of the call in data 1, and no
buffer for a next message. -/
def Mbuf.request (order : ByteOrder) (msg : Mbuf) (callId : UInt8) : Except Fault Mbuf := do
  let msg := msg.markCall order
  let d1 ← msg.tpBuf.memcpy (data1Addr order msg.tpBuf) (Block.ofList [callId]) 0 1
  return { msg with tpBuf := d1, noAlloc := true }

/-- `mt_call` up to where it waits for the answer: the request if it could not be sent. -/
def mtCall (order : ByteOrder) (draft : Draft) (callId : UInt8)
    (send : Draft → Except Fault (Option Draft)) : Except Fault (Option Draft) := do
  let request ← draft.msg.request order callId
  let sent ← send { draft with msg := request }
  -- A message that came back from a send that went well is forgotten.
  return sent.filter fun draft => draft.msg.state ≠ .ok

/-- The functions that call. -/
inductive Calling where
  /-- `rmr_call`. -/
  | call (groups : List (Option SendResult))
  /-- `rmr_mt_call`. -/
  | mtCall (callId : Int) (groups : List (Option SendResult))
  /-- `rmr_wh_call`. -/
  | whCall (callId : Int) (wormhole : Wormhole)

/-- `rmr_call`, with the reserved id. -/
def rmrCall (conf : SendConf) (left : Leftover) (draft : Draft)
    (groups : List (Option SendResult)) : Except Fault (Option Draft) :=
  mtCall conf.order draft 1 fun draft => mtosendMsg conf left draft groups

/-- `rmr_mt_call`. -/
def rmrMtCall (conf : SendConf) (left : Leftover) (draft : Draft) (callId : Int)
    (groups : List (Option SendResult)) : Except Fault (Option Draft) :=
  if maxCallId < callId ∨ callId < 2 then
    .ok (some { draft with msg := { draft.msg with state := .badArg } })
  else
    mtCall conf.order draft (UInt8.ofNat callId.toNat) fun draft =>
      mtosendMsg conf left draft groups

/-- `rmr_wh_call`. -/
def rmrWhCall (conf : SendConf) (left : Leftover) (draft : Draft) (callId : Int) :
    Wormhole → Except Fault (Option Draft)
  | .noneOpen => .ok (some { draft with msg := { draft.msg with state := .noWhOpen } })
  | .invalid => .ok (some { draft with msg := { draft.msg with state := .whid } })
  | .open_ result =>
    -- Nobody looks at the id before it is the index of a chute.
    if callId < 0 ∨ maxCallId < callId then .error .range
    else
      mtCall conf.order { draft with msg := { draft.msg with state := .ok } }
        (UInt8.ofNat callId.toNat) fun draft => trySend conf left draft result

/-- One of these, up to where it waits. -/
def Calling.call_ (conf : SendConf) (left : Leftover) (draft : Draft) :
    Calling → Except Fault (Option Draft)
  | .call groups => rmrCall conf left draft groups
  | .mtCall callId groups => rmrMtCall conf left draft callId groups
  | .whCall callId wormhole => rmrWhCall conf left draft callId wormhole

/-- The frame of a send that went well. -/
def trySendFrames (conf : SendConf) (draft : Draft) (result : SendResult) :
    Except Fault (List (List UInt8)) := do
  let bytes ← sendMsg conf draft.msg
  return match result with
    | .ok => [bytes]
    | .blocked => []
    | .failed => []

/-- The frames that the loop of `mtosend_msg` sends: where there are more groups, a clone is sent
next. -/
def fanOutFrames (conf : SendConf) (left : Leftover) (draft : Draft) :
    List (Option SendResult) → Except Fault (List (List UInt8))
  | [] => .ok []
  | none :: groups =>
    fanOutFrames conf left { draft with msg := { draft.msg with state := .noEndpt } } groups
  | [some result] => trySendFrames conf draft result
  | some result :: groups => do
    let clone ← cloneMsg conf.order left draft
    let frames ← trySendFrames conf draft result
    let later ← fanOutFrames conf left clone groups
    return frames ++ later

/-- The frames that `rmr_send_msg` and `rmr_mtosend_msg` send. -/
def rmrSendFrames (conf : SendConf) (left : Leftover) (draft : Draft)
    (groups : List (Option SendResult)) : Except Fault (List (List UInt8)) := do
  let msg ← (draft.msg.unmarkCall conf.order).blotCallId conf.order
  fanOutFrames conf left { draft with msg := msg } groups

/-- The message that `rmr_rts_msg` sends. -/
def Mbuf.rtsMsg (conf : SendConf) (msg : Mbuf) : Mbuf :=
  let msg := msg.unmarkCall conf.order
  { msg with
    tpBuf := ztBufFill msg.tpBuf HdrField.src.offset conf.myName rmrMaxSrc
    state := .ok }

/-- The frame that `rmr_rts_msg` sends. -/
def rmrRtsFrames (conf : SendConf) (draft : Draft) :
    Option SendResult → Except Fault (List (List UInt8))
  | none => .ok []
  | some result => trySendFrames conf { draft with msg := draft.msg.rtsMsg conf } result

/-- The frame that `rmr_wh_send_msg` sends. -/
def rmrWhSendFrames (conf : SendConf) (draft : Draft) :
    Wormhole → Except Fault (List (List UInt8))
  | .noneOpen => .ok []
  | .invalid => .ok []
  | .open_ result => do
    let msg ← { draft.msg with state := .ok }.blotCallId conf.order
    trySendFrames conf { draft with msg := msg } result

namespace Pool

/-- The frames that a call of the library sends with the message under a number, if there is one. -/
def framesOf (pool : Pool) (id : Nat) (send : Draft → Except Fault (List (List UInt8))) :
    Except Fault (List (List UInt8)) :=
  match pool.msgs id with
  | none => .ok []
  | some msg => send ⟨msg, pool.allocs⟩

/-- The frames that are sent. -/
def frames (conf : SendConf) (left : Leftover) (pool : Pool) :
    PoolEvent → Except Fault (List (List UInt8))
  | .send id groups => pool.framesOf id fun draft => rmrSendFrames conf left draft groups
  | .rts id result => pool.framesOf id fun draft => rmrRtsFrames conf draft result
  | .whSend id wormhole => pool.framesOf id fun draft => rmrWhSendFrames conf draft wormhole
  | .alloc _ => .ok []
  | .tralloc _ _ => .ok []
  | .apply _ _ => .ok []
  | .realloc _ _ => .ok []
  | .reallocPayload _ _ _ _ => .ok []
  | .receive _ _ => .ok []
  | .free _ => .ok []

/-- The message that `rmr_mt_rcv` was given comes back, as there is none; only where it does not
wait it says that the source is to be put in. -/
def timeOut (pool : Pool) (id : Nat) (polled : Bool) : Pool :=
  match pool.msgs id with
  | none => pool
  | some msg =>
    let msg := { msg with state := .timeout, len := 0, addSrc := msg.addSrc || polled }
    pool.put id (some ⟨msg, pool.allocs⟩)

end Pool

/-- What an application does. -/
inductive ApiEvent where
  | pool (event : PoolEvent)
  /-- A call, with no answer so far. -/
  | call (id : Nat) (calling : Calling)
  /-- `rmr_mt_rcv`, `rmr_rcv_msg` or `rmr_torcv_msg`, given a message, receives none. -/
  | timeout (id : Nat) (polled : Bool)

/-- The message buffers of an application, and the frames that it sent. -/
structure Api where
  pool : Pool
  wire : List (List UInt8)
  /-- Not in the code: the header may have a source that is not this process, with no flag that it
  is to be put in. -/
  foreign : Nat → Bool

namespace Api

/-- Nothing was allocated, and nothing sent. -/
def init : Api where
  pool := Pool.init
  wire := []
  foreign := fun _ => false

/-- Whether a frame is taken for the answer of a call. -/
def answers (rcvConf : RcvConf) (rawMsg : Block) (fd : Int) : Bool :=
  match buf2mbuf rcvConf rawMsg rawMsg.size fd with
  | .ok (.chute _ _) => true
  | _ => false

/-- Whether a message that is new after an event is foreign. -/
def bearsForeign (rcvConf : RcvConf) (api : Api) : PoolEvent → Bool
  | .realloc id _ => api.foreign id
  -- The flag of a message that is cloned is not taken over.
  | .reallocPayload id _ _ _ => api.foreign id || (api.pool.msgs id).any Mbuf.addSrc
  | .receive rawMsg fd => answers rcvConf rawMsg fd
  | _ => false

/-- The message that is not foreign after an event, whatever it was: it is a new one, as the send
went well, or it is to be given the source. -/
def makesOwn : PoolEvent → Option Nat
  | .send id groups => if groups.getLast? = some (some .ok) then some id else none
  | .rts id (some _) => some id
  | .whSend id (.open_ .ok) => some id
  | _ => none

/-- The messages that are foreign after an event that leaves a pool. -/
def foreignAfter (rcvConf : RcvConf) (api : Api) (event : PoolEvent) (pool : Pool) (id : Nat) :
    Bool :=
  if id = api.pool.count ∧ api.pool.count < pool.count then api.bearsForeign rcvConf event
  else api.foreign id && makesOwn event ≠ some id

/-- One call of the library. -/
def step (conf : SendConf) (rcvConf : RcvConf) (left : Leftover) (api : Api) :
    ApiEvent → Except Fault Api
  | .pool event => do
    let frames ← api.pool.frames conf left event
    let pool ← api.pool.step conf rcvConf left event
    return {
      pool := pool
      wire := api.wire ++ frames
      foreign := api.foreignAfter rcvConf event pool }
  | .call id calling => do
    let pool ← api.pool.withMsg id fun draft => do
      let back ← calling.call_ conf left draft
      return api.pool.put id back
    return { api with pool := pool }
  | .timeout id polled => .ok { api with
    pool := api.pool.timeOut id polled
    foreign := if polled then Function.update api.foreign id false else api.foreign }

/-- Calls one after the other. -/
def run (conf : SendConf) (rcvConf : RcvConf) (left : Leftover) (events : List ApiEvent) :
    Except Fault Api :=
  events.foldlM (step conf rcvConf left) init

end Api

end Rmr
