import Rmr.Message.Send

/-! Reading the trace data of a message, and copying data into its payload. -/

namespace Rmr

/-- Conversion to `size_t`: the residue modulo `2^64`. -/
def toSize (n : Int) : Nat := (n % 18446744073709551616).toNat

/-- `rmr_get_trlen`. -/
def rmrGetTrlen (order : ByteOrder) (msg : Mbuf) : Int := toInt (rmrTrLen order msg.tpBuf)

/-- `rmr_get_trace` into memory of some size: the bytes that are copied there. -/
def rmrGetTrace (order : ByteOrder) (msg : Mbuf) (size : Int) : Except Fault (List UInt8) :=
  if size ≤ 0 then .ok []
  else
    -- The smaller one is taken of two unsigned words.
    let n2copy := toInt (min (toUint size) (rmrTrLen order msg.tpBuf))
    if n2copy ≤ 0 then .ok []
    else if traceAddr order msg.tpBuf + n2copy ≤ msg.tpBuf.size then
      .ok (msg.tpBuf.slice (traceAddr order msg.tpBuf) n2copy.toNat)
    else .error .range

/-- `rmr_bytes2payload`: no more is copied than the message has room for. -/
def rmrBytes2payload (msg : Mbuf) (src : List UInt8) (len : Int) : Except Fault Mbuf := do
  -- The room is what was allocated less the header proper, in unsigned arithmetic.
  let room := toSize (msg.allocLen - mhdrLen)
  let (state, len) := if room < toSize len then (MsgState.overflow, toInt room) else (.ok, len)
  let filled ← msg.tpBuf.memcpy msg.payload (Block.ofList src) 0 len
  return { msg with state := state, len := len, tpBuf := filled }

/-- `rmr_str2payload`: the string is copied with the byte that ends it. -/
def rmrStr2payload (msg : Mbuf) (str : List UInt8) : Except Fault Mbuf :=
  rmrBytes2payload msg (str ++ [0]) (toInt ((str.length : Int) + 1))

/-- All that a message says but for its trace data is as it was. -/
structure Mbuf.Untouched (order : ByteOrder) (msg next : Mbuf) : Prop where
  payload : next.payloadBytes = msg.payloadBytes
  len : next.len = msg.len
  mtype : next.mtype = msg.mtype
  subId : next.subId = msg.subId
  xaction : next.tpBuf.slice HdrField.xid.offset rmrMaxXid =
    msg.tpBuf.slice HdrField.xid.offset rmrMaxXid
  meid : next.tpBuf.slice HdrField.meid.offset rmrMaxMeid =
    msg.tpBuf.slice HdrField.meid.offset rmrMaxMeid
  data1 : next.data1Bytes order = msg.data1Bytes order

/-- Trace data was put into a message: it is all that is found there, and all else is as it was. -/
structure Mbuf.TraceSet (order : ByteOrder) (data : List UInt8) (msg next : Mbuf) : Prop
    extends Mbuf.Untouched order msg next where
  trace : ∀ size, InInt size → rmrGetTrace order next size = .ok (data.take size.toNat)
  trlen : rmrGetTrlen order next = data.length

/-- So it is after each of several sets of trace data, one after the other. -/
def Draft.TracesAll (order : ByteOrder) (left : Leftover) (draft : Draft) :
    List (List UInt8) → Prop
  | [] => True
  | data :: later => ∃ next, rmrSetTrace order left draft data = .ok next ∧
      draft.msg.TraceSet order data next.msg ∧ next.TracesAll order left later

/-- There is room for trace data of several sizes, one after the other. What is in front of trace
data and behind it in the message stays the same, and so does the length that the message says it
has; what changes are the bytes of its buffer and the length of the trace data. -/
def TraceRoom (allocLen front behind : Int) : Int → Nat → List Nat → Prop
  | _, _, [] => True
  | held, trLen, size :: sizes =>
    if size = trLen then front + size ≤ held ∧ TraceRoom allocLen front behind held trLen sizes
    else
      front + trLen + behind ≤ held ∧ front + trLen + behind ≤ allocLen + tpHdrLen ∧
        allocLen + size - trLen + tpHdrLen ≤ intMax ∧
        TraceRoom allocLen front behind (allocLen + size - trLen + tpHdrLen) size sizes

/-- Whether there is can be told. -/
def decideTraceRoom (allocLen front behind : Int) : (held : Int) → (trLen : Nat) →
    (sizes : List Nat) → Decidable (TraceRoom allocLen front behind held trLen sizes)
  | _, _, [] => .isTrue trivial
  | held, trLen, size :: sizes =>
    have := decideTraceRoom allocLen front behind held trLen sizes
    have := decideTraceRoom allocLen front behind (allocLen + size - trLen + tpHdrLen) size sizes
    inferInstanceAs (Decidable (if size = trLen then _ else _))

instance (allocLen front behind held : Int) (trLen : Nat) (sizes : List Nat) :
    Decidable (TraceRoom allocLen front behind held trLen sizes) :=
  decideTraceRoom allocLen front behind held trLen sizes

end Rmr
