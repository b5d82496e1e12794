import Rmr.Receive.River
import Rmr.Message.Mbuf

/-! Messages on the sending side: allocation, the setters an application has, and the send itself.
-/

namespace Rmr

/-- What the sending side is configured with. -/
structure SendConf where
  order : ByteOrder
  /-- `trace_data_len`: trace data that every message is allocated with. -/
  traceDataLen : Nat
  /-- `d1_len`: data 1 that every message is allocated with. -/
  d1Len : Nat
  /-- `max_plen`: the payload of a message allocated without a size. -/
  maxPlen : Nat
  /-- `my_name`: the registered name of this process, without the byte that ends it. -/
  myName : List UInt8
  /-- `my_ip`: the address put into messages as their source. -/
  myIp : List UInt8

/-- `insert_mlen`: the size in host order and in network order, the marker and four clear bytes. -/
def insertMlen (order : ByteOrder) (len : Nat) (buf : Block) : Block :=
  buf.overlay 0 (Block.ofList (bytes32 order len ++ bytes32 .big len ++ [tpSzMarker, 0, 0, 0, 0])) 0
    13

/-- `zt_buf_fill`: as much of a string as a field has room for, and a byte that ends it. -/
def ztBufFill (dest : Block) (start : Nat) (src : List UInt8) (len : Nat) : Block :=
  dest.overlay start (Block.ofList (src.take (len - 1) ++ [0])) 0 ((src.take (len - 1)).length + 1)

/-- The source fields of a header. -/
def fillSource (conf : SendConf) (tpBuf : Block) : Block :=
  ztBufFill (ztBufFill tpBuf HdrField.src.offset conf.myName rmrMaxSrc)
    HdrField.srcip.offset conf.myIp rmrMaxSrc

/-- The header of a message that was allocated just now. -/
def freshHeader (conf : SendConf) (tpBuf : Block) : Block :=
  let hdr := tpBuf.overlay tpHdrLen (Block.ofList (List.replicate mhdrLen 0)) 0 mhdrLen
  let hdr := hdrSet conf.order hdr .rmrVer rmrMsgVer
  let hdr := hdrSet conf.order hdr .subId unsetId
  let hdr := hdrSet conf.order hdr .len0 mhdrLen
  -- This is the length from the context, also when the caller asked for another one.
  let hdr := hdrSet conf.order hdr .len1 conf.traceDataLen
  let hdr := hdrSet conf.order hdr .len2 conf.d1Len
  fillSource conf hdr

/-- A message under construction, with the number of buffers allocated so far. -/
structure Draft where
  msg : Mbuf
  allocs : Nat

/-- The size of the transport buffer that `alloc_zcmsg` asks for. -/
def zcmsgLen (conf : SendConf) (size trlo : Int) : Int :=
  (mhdrLen : Int) + (if 0 < trlo then trlo else (conf.traceDataLen : Int)) + conf.d1Len +
    (if 0 < size then size else (conf.maxPlen : Int)) + tpHdrLen

/-- `alloc_zcmsg`: a message to send; the buffer of a message passed in is used if it will do. -/
def allocZcmsg (conf : SendConf) (left : Leftover) (allocs : Nat) (msg : Option Mbuf)
    (size : Int) (state : MsgState) (trlo : Int) : Except Fault Draft := do
  let mlen := zcmsgLen conf size trlo
  let (tpBuf, mlen, allocs) := match msg with
    | none => (left.malloc allocs mlen, mlen, allocs + 1)
    | some old =>
      -- The comparison is unsigned, so a negative length is taken as large enough.
      if 0 ≤ old.allocLen ∧ old.allocLen < mlen then (left.malloc allocs mlen, mlen, allocs + 1)
      else (old.tpBuf, old.allocLen, allocs)
  if tpBuf.size < tpHdrLen + mhdrLen then .error .range
  else
    let tpBuf := freshHeader conf (insertMlen conf.order (toUint mlen) tpBuf)
    return {
      msg := {
        state := state
        mtype := unsetId
        len := 0
        payload := payloadAddr conf.order tpBuf
        subId := unsetId
        tpBuf := tpBuf
        allocLen := toInt mlen
        noAlloc := false
        addSrc := false
        huge := false
        rtsFd := -1 }
      allocs := allocs }

/-- Data 1 or data 2 copied from one header to another, if there is any. -/
def copyData (hdr : Block) (start : Nat) (old : Block) (origin len : Nat) : Except Fault Block :=
  if len = 0 then .ok hdr else hdr.memcpy start old origin len

/-- `realloc_msg`: a copy of a message with room for trace data of another length. -/
def reallocMsg (order : ByteOrder) (left : Leftover) (draft : Draft) (trLen : Int) :
    Except Fault Draft := do
  let old := draft.msg
  let trOldLen := toInt (rmrTrLen order old.tpBuf)
  let mlen ← addInt old.allocLen (← subInt trLen trOldLen)
  let tpbLen ← addInt mlen tpHdrLen
  let fresh := insertMlen order (toUint tpbLen) (left.malloc draft.allocs tpbLen)
  -- Only the header proper is copied, as trace data and data 1 might have moved.
  let hdr ← fresh.memcpy tpHdrLen old.tpBuf tpHdrLen mhdrLen
  let hdr := hdrSet order hdr .len1 trLen
  let hdr ← copyData hdr (data1Addr order hdr) old.tpBuf (data1Addr order old.tpBuf)
    (rmrD1Len order hdr)
  let hdr ← copyData hdr (data2Addr order hdr) old.tpBuf (data2Addr order old.tpBuf)
    (rmrD2Len order hdr)
  let payload := payloadAddr order hdr
  let filled ← hdr.memcpy payload old.tpBuf old.payload old.len
  return {
    msg := { old with tpBuf := filled, payload := payload, allocLen := mlen, rtsFd := 0 }
    allocs := draft.allocs + 1 }

/-- The message is given the buffer of a reallocated copy, but keeps the length of its own one. -/
def Draft.takeBuffer (draft nm : Draft) : Draft where
  msg := { draft.msg with tpBuf := nm.msg.tpBuf, payload := nm.msg.payload }
  allocs := nm.allocs

/-- The message with room for trace data of a length. -/
def Draft.sizeTrace (order : ByteOrder) (left : Leftover) (draft : Draft) (size : Nat) :
    Except Fault Draft :=
  if rmrTrLen order draft.msg.tpBuf = size then .ok draft
  else do
    let nm ← reallocMsg order left draft size
    return draft.takeBuffer nm

/-- `rmr_set_trace`: put trace data into the header, which may need another buffer. -/
def rmrSetTrace (order : ByteOrder) (left : Leftover) (draft : Draft) (data : List UInt8) :
    Except Fault Draft :=
  if data.length = 0 then .ok draft
  else do
    let sized ← draft.sizeTrace order left data.length
    let traced ← sized.msg.tpBuf.memcpy (traceAddr order sized.msg.tpBuf) (Block.ofList data) 0
      data.length
    return { sized with msg := { sized.msg with tpBuf := traced } }

/-- `rmr_alloc_msg`. -/
def rmrAllocMsg (conf : SendConf) (left : Leftover) (size : Int) : Except Fault Draft :=
  allocZcmsg conf left 0 none size .ok (-1)

/-- `rmr_tralloc_msg`. -/
def rmrTrallocMsg (conf : SendConf) (left : Leftover) (size : Int) (data : List UInt8) :
    Except Fault Draft := do
  let draft ← allocZcmsg conf left 0 none size .ok data.length
  rmrSetTrace conf.order left draft data

/-- `rmr_payload_size`, computed in unsigned arithmetic. -/
def rmrPayloadSize (order : ByteOrder) (msg : Mbuf) : Int :=
  toInt (toUint (msg.allocLen - rmrHdrLen order msg.tpBuf - tpHdrLen))

/-- `rmr_bytes2xact`: at most as many bytes as the field holds. -/
def rmrBytes2xact (msg : Mbuf) (src : List UInt8) : Mbuf :=
  let len := min src.length rmrMaxXid
  { msg with tpBuf := msg.tpBuf.overlay HdrField.xid.offset (Block.ofList src) 0 len }

/-- `rmr_bytes2meid`: at most as many bytes as the field holds, always ended by a zero byte. -/
def rmrBytes2meid (msg : Mbuf) (src : List UInt8) : Mbuf :=
  let len := min src.length rmrMaxMeid
  let copied := msg.tpBuf.overlay HdrField.meid.offset (Block.ofList src) 0 len
  let zeroAt := if len = rmrMaxMeid then HdrField.meid.offset + len - 1
    else HdrField.meid.offset + len
  { msg with tpBuf := copied.overlay zeroAt (Block.ofList [0]) 0 1 }

/-- What an application does with a message before it sends it. -/
inductive MsgOp where
  | mtype (value : Int)
  | subId (value : Int)
  | xact (src : List UInt8)
  | meid (src : List UInt8)
  | trace (data : List UInt8)
  /-- The payload is written in place, and its length set. -/
  | payload (bytes : List UInt8)

/-- One such step. -/
def Draft.apply (order : ByteOrder) (left : Leftover) (draft : Draft) :
    MsgOp → Except Fault Draft
  | .mtype value => .ok { draft with msg := { draft.msg with mtype := value } }
  | .subId value => .ok { draft with msg := { draft.msg with subId := value } }
  | .xact src => .ok { draft with msg := rmrBytes2xact draft.msg src }
  | .meid src => .ok { draft with msg := rmrBytes2meid draft.msg src }
  | .trace data => rmrSetTrace order left draft data
  | .payload bytes => do
    let filled ← draft.msg.tpBuf.memcpy draft.msg.payload (Block.ofList bytes) 0 bytes.length
    return { draft with msg := { draft.msg with tpBuf := filled, len := bytes.length } }

/-- All that an application does with a message before it sends it. -/
def Draft.applyAll (order : ByteOrder) (left : Leftover) (draft : Draft) (ops : List MsgOp) :
    Except Fault Draft :=
  ops.foldlM (fun draft op => draft.apply order left op) draft

/-- Whether a header says, to the host that reads it, that its message was sent via a call. -/
def isCall (order : ByteOrder) (tpBuf : Block) : Bool :=
  tpBuf.get32 order HdrField.flags.offset &&& hflCallMsg ≠ 0

/-- `mt_call` signals that a message is sent with a call; the flags are not converted. -/
def Mbuf.markCall (order : ByteOrder) (msg : Mbuf) : Mbuf :=
  let flags := msg.tpBuf.get32 order HdrField.flags.offset
  { msg with tpBuf := msg.tpBuf.put32 order HdrField.flags.offset (flags ||| hflCallMsg) }

/-- The message as `send_msg` leaves it for the transport. -/
def prepare (conf : SendConf) (msg : Mbuf) : Mbuf :=
  let hdr := hdrSet conf.order msg.tpBuf .mtype msg.mtype
  let hdr := hdrSet conf.order hdr .subId msg.subId
  let hdr := hdrSet conf.order hdr .plen msg.len
  { msg with tpBuf := if msg.addSrc then fillSource conf hdr else hdr }

/-- The bytes that `send_msg` hands to `SIsendt`, each time that it tries. -/
def sendMsg (conf : SendConf) (msg : Mbuf) : Except Fault (List UInt8) :=
  let msg := prepare conf msg
  let totLen := toInt (toUint (msg.len + rmrHdrLen conf.order msg.tpBuf + tpHdrLen))
  -- A length that is too large is likely a bad one from the user.
  let totLen := if msg.allocLen < totLen then msg.allocLen else totLen
  if totLen < 0 ∨ (msg.tpBuf.size : Int) < totLen then .error .range
  else .ok ((insertMlen conf.order (toUint totLen) msg.tpBuf).slice 0 totLen.toNat)

end Rmr
