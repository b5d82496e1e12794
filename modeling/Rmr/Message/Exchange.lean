import Rmr.Message.Api

/-! A call between two processes: the requests that one sends, and what the other does with one
before it returns it. -/

namespace Rmr

/-- The id of a call as it is put into data 1. -/
def Calling.callId : Calling → UInt8
  | .call _ => 1
  | .mtCall callId _ => UInt8.ofNat callId.toNat
  | .whCall callId _ => UInt8.ofNat callId.toNat

/-- The frames that `mt_call` sends, with the function that tells those of the request. -/
def mtCallFrames (order : ByteOrder) (draft : Draft) (callId : UInt8)
    (frames : Draft → Except Fault (List (List UInt8))) : Except Fault (List (List UInt8)) := do
  let request ← draft.msg.request order callId
  frames { draft with msg := request }

/-- The frames of a request; there are none if the call is refused. -/
def Calling.frames (conf : SendConf) (left : Leftover) (draft : Draft) :
    Calling → Except Fault (List (List UInt8))
  | .call groups =>
    mtCallFrames conf.order draft 1 fun draft => fanOutFrames conf left draft groups
  | .mtCall callId groups =>
    if maxCallId < callId ∨ callId < 2 then .ok []
    else
      mtCallFrames conf.order draft (UInt8.ofNat callId.toNat) fun draft =>
        fanOutFrames conf left draft groups
  | .whCall _ .noneOpen => .ok []
  | .whCall _ .invalid => .ok []
  | .whCall callId (.open_ result) =>
    if callId < 0 ∨ maxCallId < callId then .error .range
    else
      mtCallFrames conf.order { draft with msg := { draft.msg with state := .ok } }
        (UInt8.ofNat callId.toNat) fun draft => trySendFrames conf draft result

/-- What an application does with a message that it received before it returns it. -/
inductive ReplyOp where
  | mtype (value : Int)
  | subId (value : Int)
  | len (value : Int)
  /-- The payload is written in place. -/
  | payload (bytes : List UInt8)
  /-- `rmr_realloc_payload`, and whether the application goes on with what that returns. -/
  | realloc (payloadLen : Int) (copy clone takes : Bool)

/-- One such step. -/
def Draft.reply (order : ByteOrder) (left : Leftover) (draft : Draft) :
    ReplyOp → Except Fault Draft
  | .mtype value => .ok { draft with msg := { draft.msg with mtype := value } }
  | .subId value => .ok { draft with msg := { draft.msg with subId := value } }
  | .len value => .ok { draft with msg := { draft.msg with len := value } }
  | .payload bytes => do
    let filled ← draft.msg.tpBuf.memcpy draft.msg.payload (Block.ofList bytes) 0 bytes.length
    return { draft with msg := { draft.msg with tpBuf := filled } }
  | .realloc payloadLen copy clone takes => do
    match ← reallocPayload order left draft payloadLen copy clone with
    | .refused => return draft
    | .same => return draft
    -- Unless it was to be cloned, there is no message any more.
    | .failed => if clone then return draft else .error .nil
    -- A message that was cloned is still there.
    | .made nm => return if takes ∨ clone = false then nm else { draft with allocs := nm.allocs }

/-- All that an application does with a message before it returns it. -/
def Draft.replies (order : ByteOrder) (left : Leftover) (draft : Draft) (ops : List ReplyOp) :
    Except Fault Draft :=
  ops.foldlM (fun draft op => draft.reply order left op) draft

end Rmr
