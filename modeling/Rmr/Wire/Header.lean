import Rmr.Lib.Block

/-! The transport header and the RMR header of a message, as laid out in its transport buffer. -/

namespace Rmr

/-- `TP_HDR_LEN`: bytes added to each message for transport needs. -/
def tpHdrLen : Nat := 50

/-- `TP_SZFIELD_LEN`: bytes needed for the message size in the transport header. -/
def tpSzfieldLen : Nat := 9

/-- `TP_SZ_MARKER`: the `$` which marks a size that is also given in network byte order. -/
def tpSzMarker : UInt8 := 36

/-- `sizeof( uta_mhdr_t )` with eight byte alignment of the time stamp. -/
def mhdrLen : Nat := 280

/-- `RMR_MAX_XID`: space in the header reserved for the user transaction id. -/
def rmrMaxXid : Nat := 32

/-- `RMR_MAX_SRC`: space in the header for the name of a source. -/
def rmrMaxSrc : Nat := 64

/-- `RMR_MAX_MEID`: space in the header for the managed element id. -/
def rmrMaxMeid : Nat := 32

/-- `RMR_MSG_VER`: the message version this code was designed to handle. -/
def rmrMsgVer : Nat := 3

/-- `HFL_CALL_MSG`: the header flag of a message sent via a blocking call. -/
def hflCallMsg : Nat := 4

/-- Offsets of the fields of `uta_mhdr_t` in a transport buffer. -/
inductive HdrField where
  | mtype | plen | rmrVer | xid | sid | src | meid | ts | flags
  | len0 | len1 | len2 | len3 | subId | srcip
  deriving DecidableEq, Repr

/-- Where a field starts, counted from the start of the transport buffer. -/
def HdrField.offset : HdrField → Nat
  | .mtype => tpHdrLen
  | .plen => tpHdrLen + 4
  | .rmrVer => tpHdrLen + 8
  | .xid => tpHdrLen + 12
  | .sid => tpHdrLen + 44
  | .src => tpHdrLen + 76
  | .meid => tpHdrLen + 140
  -- The time stamp is aligned on eight bytes, so four bytes of padding stand before it.
  | .ts => tpHdrLen + 176
  | .flags => tpHdrLen + 192
  | .len0 => tpHdrLen + 196
  | .len1 => tpHdrLen + 200
  | .len2 => tpHdrLen + 204
  | .len3 => tpHdrLen + 208
  | .subId => tpHdrLen + 212
  | .srcip => tpHdrLen + 216

/-- A 32 bit header field converted from network order; `htonl` and `ntohl` are the same map. -/
def hdrGet (order : ByteOrder) (tpBuf : Block) (field : HdrField) : Nat :=
  tpBuf.net32 order field.offset

/-- The buffer with a 32 bit header field set, converted to network order. -/
def hdrSet (order : ByteOrder) (tpBuf : Block) (field : HdrField) (value : Int) : Block :=
  tpBuf.setNet32 order field.offset (toUint value)

/-- `RMR_HDR_LEN`: all header parts, summed in 32 bit unsigned arithmetic. -/
def rmrHdrLen (order : ByteOrder) (tpBuf : Block) : Nat :=
  toUint ((hdrGet order tpBuf .len0 : Int) + hdrGet order tpBuf .len1 +
    hdrGet order tpBuf .len2 + hdrGet order tpBuf .len3)

/-- `RMR_TR_LEN`: the length of the trace data. -/
def rmrTrLen (order : ByteOrder) (tpBuf : Block) : Nat := hdrGet order tpBuf .len1

/-- `RMR_D1_LEN`: the length of data 1. -/
def rmrD1Len (order : ByteOrder) (tpBuf : Block) : Nat := hdrGet order tpBuf .len2

/-- `RMR_D2_LEN`: the length of data 2. -/
def rmrD2Len (order : ByteOrder) (tpBuf : Block) : Nat := hdrGet order tpBuf .len3

/-- `TRACE_ADDR`, counted from the start of the transport buffer. -/
def traceAddr (order : ByteOrder) (tpBuf : Block) : Nat :=
  tpHdrLen + hdrGet order tpBuf .len0

/-- `DATA1_ADDR`: lengths are added to a pointer one at a time, so they do not wrap. -/
def data1Addr (order : ByteOrder) (tpBuf : Block) : Nat :=
  traceAddr order tpBuf + hdrGet order tpBuf .len1

/-- `DATA2_ADDR`, counted from the start of the transport buffer. -/
def data2Addr (order : ByteOrder) (tpBuf : Block) : Nat :=
  data1Addr order tpBuf + hdrGet order tpBuf .len2

/-- `PAYLOAD_ADDR`, counted from the start of the transport buffer. -/
def payloadAddr (order : ByteOrder) (tpBuf : Block) : Nat :=
  data2Addr order tpBuf + hdrGet order tpBuf .len3

/-- A header word is below `2^32`. -/
theorem hdrGet_lt (order : ByteOrder) (tpBuf : Block) (field : HdrField) :
    hdrGet order tpBuf field < 4294967296 :=
  Block.net32_lt _ _ _

/-- A header word is decided by its own four bytes. -/
theorem hdrGet_congr (order : ByteOrder) {left right : Block} (field : HdrField)
    (same : left.slice field.offset 4 = right.slice field.offset 4) :
    hdrGet order left field = hdrGet order right field := by
  rw [hdrGet, hdrGet, Block.net32_eq, Block.net32_eq, same]

/-- Writing a field keeps the size of the buffer. -/
@[simp] theorem hdrSet_size (order : ByteOrder) (tpBuf : Block) (field : HdrField)
    (value : Int) : (hdrSet order tpBuf field value).size = tpBuf.size := rfl

/-- A header word that was set reads back, as an unsigned word, as the value it was set to. -/
theorem hdrGet_hdrSet (order : ByteOrder) (tpBuf : Block) (field : HdrField) (value : Int) :
    hdrGet order (hdrSet order tpBuf field value) field = toUint value :=
  Block.net32_setNet32 _ _ _ (toUint_lt value)

/-- Setting a header word leaves every byte outside it alone. -/
theorem hdrSet_slice_outside (order : ByteOrder) (tpBuf : Block) (field : HdrField)
    (value : Int) {other part : Nat}
    (apart : other + part ≤ field.offset ∨ field.offset + 4 ≤ other) :
    (hdrSet order tpBuf field value).slice other part = tpBuf.slice other part :=
  Block.setNet32_slice_outside _ _ _ _ apart

end Rmr
