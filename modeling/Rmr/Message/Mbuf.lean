import Rmr.Wire.Header

/-! The message buffer that an application works with. -/

namespace Rmr

/-- The states of a message that the functions modelled here set. -/
inductive MsgState where
  /-- `RMR_OK`. -/
  | ok
  /-- `RMR_ERR_UNSET`: the message has no transport buffer yet. -/
  | unset
  /-- `RMR_ERR_TRUNC`: the received message was likely truncated. -/
  | trunc
  /-- `RMR_ERR_TIMEOUT`: no message came in time. -/
  | timeout
  /-- `RMR_ERR_OVERFLOW`: the operation would have overrun a buffer. -/
  | overflow
  /-- `RMR_ERR_NOENDPT`: no endpoint to send to was found. -/
  | noEndpt
  /-- `RMR_ERR_SENDFAILED`. -/
  | sendFailed
  /-- `RMR_ERR_RETRY`: the send may be tried again. -/
  | retry
  /-- `RMR_ERR_NOWHOPEN`: no wormhole was ever opened. -/
  | noWhOpen
  /-- `RMR_ERR_WHID`: not the id of a wormhole. -/
  | whid
  /-- `RMR_ERR_BADARG`: an argument was invalid. -/
  | badArg
  deriving DecidableEq, Repr

/-- `UNSET_MSGTYPE` and `UNSET_SUBID`. -/
def unsetId : Int := -1

/-- `rmr_mbuf_t`. The header always starts at `tpHdrLen` in the transport buffer, and `xaction`
at its field there. -/
structure Mbuf where
  state : MsgState
  mtype : Int
  /-- Length of the data in the payload. -/
  len : Int
  /-- Where the payload starts in the transport buffer. -/
  payload : Nat
  subId : Int
  tpBuf : Block
  /-- The length of the allocated space, as far as the message knows. -/
  allocLen : Int
  /-- `MFL_NOALLOC`: send should not allocate a new buffer before returning. -/
  noAlloc : Bool
  /-- `MFL_ADDSRC`: the source must be added on send. -/
  addSrc : Bool
  /-- `MFL_HUGE`: the buffer is larger than usual. -/
  huge : Bool
  /-- The descriptor for return to sender. -/
  rtsFd : Int

/-- `alloc_mbuf`: a message with a received transport buffer that is not yet looked at. -/
def Mbuf.alloc (tpBuf : Block) (state : MsgState) : Mbuf where
  state := state
  mtype := unsetId
  len := -1
  payload := 0
  subId := unsetId
  tpBuf := tpBuf
  allocLen := 0
  noAlloc := false
  addSrc := false
  huge := false
  rtsFd := 0

/-- `ref_tpbuf`: take the fields of a message from its transport buffer. -/
def Mbuf.refTpbuf (order : ByteOrder) (msg : Mbuf) (alen : Int) : Except Fault Mbuf := do
  let len := toInt (hdrGet order msg.tpBuf .plen)
  let hlen := toInt (rmrHdrLen order msg.tpBuf)
  let space ← subInt alen hlen
  let msg := { msg with
    len := len
    allocLen := alen
    payload := payloadAddr order msg.tpBuf
    mtype := toInt (hdrGet order msg.tpBuf .mtype)
    subId := toInt (hdrGet order msg.tpBuf .subId) }
  if space < len then
    -- The length is adjusted down so that an application does not overrun.
    return { msg with state := .trunc, len := space }
  else
    return { msg with state := .ok }

/-- The bytes of the payload that are in use. -/
def Mbuf.payloadBytes (msg : Mbuf) : List UInt8 := msg.tpBuf.slice msg.payload msg.len.toNat

/-- The trace data, as `rmr_get_trace` and `rmr_trace_ref` find it. -/
def Mbuf.traceBytes (order : ByteOrder) (msg : Mbuf) : List UInt8 :=
  msg.tpBuf.slice (traceAddr order msg.tpBuf) (rmrTrLen order msg.tpBuf)

/-- Data 1 of the header. -/
def Mbuf.data1Bytes (order : ByteOrder) (msg : Mbuf) : List UInt8 :=
  msg.tpBuf.slice (data1Addr order msg.tpBuf) (rmrD1Len order msg.tpBuf)

end Rmr
