import Rmr.Lib.Run
import Rmr.Message.Send
import Rmr.Receive.Deliver

/-! The message buffers that an application holds, and all that the library does to them. -/

namespace Rmr

/-- `clone_msg`: a copy of a message in a buffer of its own. -/
def cloneMsg (order : ByteOrder) (left : Leftover) (draft : Draft) : Except Fault Draft := do
  let old := draft.msg
  let fresh := left.malloc draft.allocs (old.allocLen + tpHdrLen)
  -- The parts behind the header proper are counted twice.
  let count := toUint ((rmrHdrLen order old.tpBuf : Int) + rmrTrLen order old.tpBuf +
    rmrD1Len order old.tpBuf + rmrD2Len order old.tpBuf)
  let hdr ← fresh.memcpy tpHdrLen old.tpBuf tpHdrLen count
  if hdr.size < HdrField.len3.offset + 4 then .error .range
  else
    let payload := payloadAddr order hdr
    let filled ← hdr.memcpy payload old.tpBuf old.payload old.len
    return {
      msg := { old with tpBuf := filled, payload := payload, rtsFd := 0 }
      allocs := draft.allocs + 1 }

/-- What `realloc_payload` comes to. -/
inductive Realloc where
  /-- The arguments make no sense. -/
  | refused
  /-- The payload is large enough as it is. -/
  | same
  /-- There is no memory, and the message is gone unless it was to be cloned. -/
  | failed
  | made (draft : Draft)

/-- The message, as good as new or a new one, that `realloc_payload` gives another buffer to. -/
def reallocTarget (old : Mbuf) (tpBuf : Block) (clone : Bool) : Mbuf :=
  if clone then { old with tpBuf := tpBuf, noAlloc := false, addSrc := false, huge := false }
  else { old with tpBuf := tpBuf }

/-- `realloc_payload`: a buffer with room for a payload of a length. -/
def reallocPayload (order : ByteOrder) (left : Leftover) (draft : Draft) (payloadLen : Int)
    (copy clone : Bool) : Except Fault Realloc :=
  let old := draft.msg
  let oldPsize := rmrPayloadSize order old
  if payloadLen ≤ 0 then .ok .refused
  else if clone = false ∧ payloadLen ≤ oldPsize then .ok .same
  else do
    let mlen ← addInt (toInt (toUint ((rmrHdrLen order old.tpBuf : Int) + tpHdrLen)))
      (max payloadLen oldPsize)
    -- As a size this would be more than there can be.
    if mlen < 0 then return .failed
    else if mlen < HdrField.subId.offset + 4 then .error .range
    else
      let fresh := hdrSet order (left.malloc draft.allocs mlen) .len0 mhdrLen
      let count := if copy then toUint (oldPsize + rmrHdrLen order old.tpBuf)
        else rmrHdrLen order old.tpBuf
      let filled ← fresh.memcpy tpHdrLen old.tpBuf tpHdrLen count
      let nm ← (reallocTarget old filled clone).refTpbuf order mlen
      -- What the header says may be out of date, if the message was not received.
      return .made {
        msg := if copy then { nm with len := old.len, mtype := old.mtype, subId := old.subId }
          else { nm with len := 0, mtype := -1, subId := -1 }
        allocs := draft.allocs + 1 }

/-- What `SIsendt` answers with in the end. -/
inductive SendResult where
  | ok
  | blocked
  | failed
  deriving DecidableEq

/-- `send_msg`: a message to send next after a success, unless none is wanted. -/
def trySend (conf : SendConf) (left : Leftover) (draft : Draft) (result : SendResult) :
    Except Fault (Option Draft) := do
  let bytes ← sendMsg conf draft.msg
  let msg := prepare conf draft.msg
  let msg := { msg with tpBuf := insertMlen conf.order bytes.length msg.tpBuf }
  match result with
  | .ok =>
    if msg.noAlloc then return none
    else
      let next ← allocZcmsg conf left draft.allocs (some msg) 0 .ok
        (toInt (rmrTrLen conf.order msg.tpBuf))
      return some next
  | .blocked => return some { draft with msg := { msg with state := .retry } }
  | .failed => return some { draft with msg := { msg with state := .sendFailed } }

/-- The loop of `mtosend_msg` over the groups of a route table entry, each with no endpoint to send
to or with what sending comes to, and whether any but the last send went well. -/
def fanOut (conf : SendConf) (left : Leftover) (draft : Draft) (okSends : Bool) :
    List (Option SendResult) → Except Fault (Option Draft × Bool)
  | [] => .ok (some draft, okSends)
  | none :: groups =>
    fanOut conf left { draft with msg := { draft.msg with state := .noEndpt } } okSends groups
  | [some result] => do
    let sent ← trySend conf left draft result
    return (sent, okSends)
  | some result :: groups => do
    let clone ← cloneMsg conf.order left draft
    let msg := { draft.msg with noAlloc := true }
    match ← trySend conf left { msg := msg, allocs := clone.allocs } result with
    -- The message that was not sent is freed, and the clone is sent next in either case.
    | some _ => fanOut conf left clone okSends groups
    | none => fanOut conf left { clone with msg := { clone.msg with state := .ok } } true groups

/-- `mtosend_msg`, where there are no groups if there is no route table entry. -/
def mtosendMsg (conf : SendConf) (left : Leftover) (draft : Draft)
    (groups : List (Option SendResult)) : Except Fault (Option Draft) :=
  if groups = [] then .ok (some { draft with msg := { draft.msg with state := .noEndpt } })
  else do
    let (sent, okSends) ← fanOut conf left draft false groups
    return sent.map fun draft => { draft with
      msg := { draft.msg with
        noAlloc := false
        state := if okSends then .ok else draft.msg.state } }

/-- The call flag is off. -/
def Mbuf.unmarkCall (order : ByteOrder) (msg : Mbuf) : Mbuf :=
  let flags := msg.tpBuf.get32 order HdrField.flags.offset
  { msg with tpBuf := msg.tpBuf.put32 order HdrField.flags.offset (flags - (flags &&& hflCallMsg)) }

/-- The call id in data 1 is none, also where there is no data 1. -/
def Mbuf.blotCallId (order : ByteOrder) (msg : Mbuf) : Except Fault Mbuf := do
  let blotted ← msg.tpBuf.memcpy (data1Addr order msg.tpBuf) (Block.ofList [0]) 0 1
  return { msg with tpBuf := blotted }

/-- `rmr_send_msg` and `rmr_mtosend_msg`. -/
def rmrSendMsg (conf : SendConf) (left : Leftover) (draft : Draft)
    (groups : List (Option SendResult)) : Except Fault (Option Draft) := do
  let msg ← (draft.msg.unmarkCall conf.order).blotCallId conf.order
  mtosendMsg conf left { draft with msg := msg } groups

/-- `strdup` of the string at a place in a block. -/
def Block.strdup (block : Block) (start : Nat) : Except Fault (List UInt8) :=
  let behind := block.slice start (block.size - start)
  if 0 ∈ behind then .ok (behind.takeWhile (· ≠ 0)) else .error .range

/-- The message goes back to where it came from, so its source is put into it again. -/
def Draft.restoreSource (draft : Draft) (holdSrc holdIp : List UInt8) : Draft :=
  let tpBuf := ztBufFill draft.msg.tpBuf HdrField.src.offset holdSrc rmrMaxSrc
  let tpBuf := ztBufFill tpBuf HdrField.srcip.offset holdIp rmrMaxSrc
  { draft with msg := { draft.msg with tpBuf := tpBuf, addSrc := true } }

/-- `rmr_rts_msg`, with no endpoint to send to or with what sending comes to. -/
def rmrRtsMsg (conf : SendConf) (left : Leftover) (draft : Draft) (result : Option SendResult) :
    Except Fault (Option Draft) :=
  let msg := draft.msg.unmarkCall conf.order
  match result with
  | none => .ok (some { draft with msg := { msg with state := .noEndpt } })
  | some result => do
    let holdSrc ← msg.tpBuf.strdup HdrField.src.offset
    let holdIp ← msg.tpBuf.strdup HdrField.srcip.offset
    let tpBuf := ztBufFill msg.tpBuf HdrField.src.offset conf.myName rmrMaxSrc
    let sent ← trySend conf left { draft with msg := { msg with tpBuf := tpBuf, state := .ok } }
      result
    return sent.map fun draft => draft.restoreSource holdSrc holdIp

/-- What a wormhole id stands for. -/
inductive Wormhole where
  | noneOpen
  | invalid
  /-- It is one, and sending to its endpoint comes to a result. -/
  | open_ (result : SendResult)
  deriving DecidableEq

/-- `rmr_wh_send_msg`. -/
def rmrWhSendMsg (conf : SendConf) (left : Leftover) (draft : Draft) :
    Wormhole → Except Fault (Option Draft)
  | .noneOpen => .ok (some { draft with msg := { draft.msg with state := .noWhOpen } })
  | .invalid => .ok (some { draft with msg := { draft.msg with state := .whid } })
  | .open_ result => do
    let msg ← { draft.msg with state := .ok }.blotCallId conf.order
    trySend conf left { draft with msg := msg } result

/-- The message buffers that an application holds, each under the number it was given. -/
structure Pool where
  msgs : Nat → Option Mbuf
  count : Nat
  allocs : Nat

/-- What happens to a message buffer. -/
inductive PoolEvent where
  /-- `rmr_alloc_msg`. -/
  | alloc (size : Int)
  /-- `rmr_tralloc_msg`. -/
  | tralloc (size : Int) (data : List UInt8)
  /-- The application works on it, or calls `rmr_set_trace`. -/
  | apply (id : Nat) (op : MsgOp)
  /-- `rmr_realloc_msg`. -/
  | realloc (id : Nat) (trLen : Int)
  /-- `rmr_realloc_payload`. -/
  | reallocPayload (id : Nat) (payloadLen : Int) (copy clone : Bool)
  /-- `rmr_send_msg` or `rmr_mtosend_msg`. -/
  | send (id : Nat) (groups : List (Option SendResult))
  /-- `rmr_rts_msg`. -/
  | rts (id : Nat) (result : Option SendResult)
  /-- `rmr_wh_send_msg`. -/
  | whSend (id : Nat) (wormhole : Wormhole)
  /-- `rmr_rcv_msg`, or a call that gets its answer, for a frame in the buffer that it was
  accumulated in. -/
  | receive (rawMsg : Block) (fd : Int)
  /-- `rmr_free_msg`. -/
  | free (id : Nat)

namespace Pool

/-- No message buffers. -/
def init : Pool where
  msgs := fun _ => none
  count := 0
  allocs := 0

/-- There is one more. -/
def add (pool : Pool) (draft : Draft) : Pool where
  msgs := Function.update pool.msgs pool.count (some draft.msg)
  count := pool.count + 1
  allocs := draft.allocs

/-- What came back is under the number that it had. -/
def put (pool : Pool) (id : Nat) : Option Draft → Pool
  | none => { pool with msgs := Function.update pool.msgs id none }
  | some draft => { pool with
    msgs := Function.update pool.msgs id (some draft.msg)
    allocs := draft.allocs }

/-- What `rmr_realloc_payload` makes of the message buffers. -/
def putRealloc (pool : Pool) (id : Nat) (clone : Bool) : Realloc → Pool
  | .refused => pool
  | .same => pool
  | .failed => if clone then pool else pool.put id none
  | .made draft => if clone then pool.add draft else pool.put id (some draft)

/-- A message that was received, if there is one. -/
def receive (pool : Pool) : Delivery → Pool
  | .dropped => pool
  -- `rmr_mt_rcv` sees to it that the source is put in when the buffer is sent.
  | .normal mbuf => pool.add { msg := { mbuf with addSrc := true }, allocs := pool.allocs }
  -- `mt_call` returns the answer as it is.
  | .chute _ mbuf => pool.add { msg := mbuf, allocs := pool.allocs }

/-- A call with the message under a number, if there is one. -/
def withMsg (pool : Pool) (id : Nat) (call : Draft → Except Fault Pool) : Except Fault Pool :=
  match pool.msgs id with
  | none => .ok pool
  | some msg => call ⟨msg, pool.allocs⟩

/-- One call. -/
def step (conf : SendConf) (rcvConf : RcvConf) (left : Leftover) (pool : Pool) :
    PoolEvent → Except Fault Pool
  | .alloc size => do
    let draft ← allocZcmsg conf left pool.allocs none size .ok (-1)
    return pool.add draft
  | .tralloc size data => do
    let draft ← allocZcmsg conf left pool.allocs none size .ok data.length
    let traced ← rmrSetTrace conf.order left draft data
    return pool.add traced
  | .apply id op => pool.withMsg id fun draft => do
    let next ← draft.apply conf.order left op
    return pool.put id (some next)
  | .realloc id trLen => pool.withMsg id fun draft => do
    let nm ← reallocMsg conf.order left draft trLen
    return pool.add nm
  | .reallocPayload id payloadLen copy clone => pool.withMsg id fun draft => do
    let made ← reallocPayload conf.order left draft payloadLen copy clone
    return pool.putRealloc id clone made
  | .send id groups => pool.withMsg id fun draft => do
    let sent ← rmrSendMsg conf left draft groups
    return pool.put id sent
  | .rts id result => pool.withMsg id fun draft => do
    let sent ← rmrRtsMsg conf left draft result
    return pool.put id sent
  | .whSend id wormhole => pool.withMsg id fun draft => do
    let sent ← rmrWhSendMsg conf left draft wormhole
    return pool.put id sent
  | .receive rawMsg fd => do
    let delivery ← buf2mbuf rcvConf rawMsg rawMsg.size fd
    return pool.receive delivery
  | .free id => .ok (pool.put id none)

/-- Calls one after the other. -/
def run (conf : SendConf) (rcvConf : RcvConf) (left : Leftover) (events : List PoolEvent) :
    Except Fault Pool :=
  events.foldlM (step conf rcvConf left) init

end Pool

end Rmr
