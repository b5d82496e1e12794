import Rmr.Message.Send

/-! What each step of composing a message does to the parts of its transport buffer. -/

namespace Rmr

/-- What a message says, as an application reads it. -/
structure Content where
  mtype : Int
  subId : Int
  len : Int
  payload : List UInt8
  xact : List UInt8
  meid : List UInt8
  trace : List UInt8
  src : List UInt8
  srcip : List UInt8

/-- What a message buffer says. -/
def Mbuf.content (order : ByteOrder) (msg : Mbuf) : Content where
  mtype := msg.mtype
  subId := msg.subId
  len := msg.len
  payload := msg.payloadBytes
  xact := msg.tpBuf.slice HdrField.xid.offset rmrMaxXid
  meid := msg.tpBuf.slice HdrField.meid.offset rmrMaxMeid
  trace := msg.traceBytes order
  src := msg.tpBuf.slice HdrField.src.offset rmrMaxSrc
  srcip := msg.tpBuf.slice HdrField.srcip.offset rmrMaxSrc

/-- Bytes put over the front of a field. -/
def overFront (field bytes : List UInt8) : List UInt8 := bytes ++ field.drop bytes.length

/-- What a step of an application makes of what a message says. -/
def Content.apply (content : Content) : MsgOp → Content
  | .mtype value => { content with mtype := value }
  | .subId value => { content with subId := value }
  | .xact src => { content with xact := overFront content.xact (src.take rmrMaxXid) }
  | .meid src => { content with
      meid := overFront content.meid (src.take (min src.length (rmrMaxMeid - 1)) ++ [0]) }
  | .trace data => { content with trace := if data.length = 0 then content.trace else data }
  | .payload bytes => { content with payload := bytes, len := bytes.length }

/-- How the buffer of a message to be sent is laid out. -/
structure Mbuf.Laid (order : ByteOrder) (d1Len : Nat) (msg : Mbuf) (trLen : Nat) : Prop where
  len0 : hdrGet order msg.tpBuf .len0 = mhdrLen
  len1 : hdrGet order msg.tpBuf .len1 = trLen
  len2 : hdrGet order msg.tpBuf .len2 = d1Len
  len3 : hdrGet order msg.tpBuf .len3 = 0
  payload : msg.payload = 330 + trLen + d1Len
  len : 0 ≤ msg.len
  room : (msg.payload : Int) + msg.len ≤ msg.tpBuf.size
  traceFits : (trLen : Int) ≤ intMax
  keepSrc : msg.addSrc = false
  mtype : InInt msg.mtype
  subId : InInt msg.subId

section
variable {order : ByteOrder} {d1Len trLen : Nat} {msg : Mbuf}

/-- The trace data follows the header. -/
theorem Mbuf.Laid.traceAddr (laid : msg.Laid order d1Len trLen) :
    traceAddr order msg.tpBuf = 330 := by
  rw [Rmr.traceAddr, laid.len0]
  rfl

/-- Data 1 follows the trace data. -/
theorem Mbuf.Laid.data1Addr (laid : msg.Laid order d1Len trLen) :
    data1Addr order msg.tpBuf = 330 + trLen := by
  rw [Rmr.data1Addr, laid.traceAddr, laid.len1]

/-- The payload follows data 1. -/
theorem Mbuf.Laid.payloadAddr (laid : msg.Laid order d1Len trLen) :
    payloadAddr order msg.tpBuf = msg.payload := by
  rw [Rmr.payloadAddr, data2Addr, laid.data1Addr, laid.len2, laid.len3, laid.payload, Nat.add_zero]

/-- The trace data of a message that is laid out. -/
theorem Mbuf.Laid.traceBytes (laid : msg.Laid order d1Len trLen) :
    msg.traceBytes order = msg.tpBuf.slice 330 trLen := by
  rw [Mbuf.traceBytes, laid.traceAddr, rmrTrLen, laid.len1]

end

/-- A header word apart from a copied range keeps its value. -/
theorem hdrGet_overlay (order : ByteOrder) (tpBuf : Block) (field : HdrField) (start : Nat)
    (src : Block) (origin count : Nat)
    (apart : field.offset + 4 ≤ start ∨ start + count ≤ field.offset) :
    hdrGet order (tpBuf.overlay start src origin count) field = hdrGet order tpBuf field :=
  hdrGet_congr order field (Block.overlay_slice_outside _ _ _ _ _ apart)

/-- A header word keeps its value when another one is set. -/
theorem hdrGet_hdrSet_ne (order : ByteOrder) (tpBuf : Block) {field other : HdrField}
    (value : Int) (apart : other.offset + 4 ≤ field.offset ∨ field.offset + 4 ≤ other.offset) :
    hdrGet order (hdrSet order tpBuf field value) other = hdrGet order tpBuf other :=
  hdrGet_congr order other (hdrSet_slice_outside _ _ _ _ apart)

/-- A copy to the front of a range leaves the rest of the range behind it. -/
theorem overlay_slice_front (dst : Block) (start : Nat) (src : Block) (origin count rest : Nat) :
    (dst.overlay start src origin count).slice start (count + rest) =
      src.slice origin count ++ dst.slice (start + count) rest := by
  rw [Block.slice_add, Block.overlay_slice_inside,
    Block.overlay_slice_outside _ _ _ _ _ (Or.inr (Nat.le_refl _))]

/-- Bytes copied to the front of a field are put over it. -/
theorem overlay_overFront (dst : Block) (start count : Nat) (bytes : List UInt8)
    (within : bytes.length ≤ count) :
    (dst.overlay start (Block.ofList bytes) 0 bytes.length).slice start count =
      overFront (dst.slice start count) bytes := by
  -- The field falls into the bytes that are copied and the rest of it.
  obtain ⟨rest, rfl⟩ := Nat.exists_eq_add_of_le within
  rw [overlay_slice_front, overFront, Block.slice_add dst, List.drop_append,
    List.drop_of_length_le (by simp), List.nil_append, Block.slice_length, Nat.sub_self,
    List.drop_zero, Block.ofList_slice _ _ _ (by omega), List.drop_zero, List.take_length]

/-- A copy of the first bytes of a list is a copy of the list cut to them. -/
theorem overlay_ofList_take (dst : Block) (start : Nat) (bytes : List UInt8) {count : Nat}
    (within : count ≤ bytes.length) :
    dst.overlay start (Block.ofList bytes) 0 count =
      dst.overlay start (Block.ofList (bytes.take count)) 0 (bytes.take count).length := by
  -- Inside the copied range the bytes are those of the part; outside nothing is copied by either.
  have length : (bytes.take count).length = count := by
    rw [List.length_take]
    omega
  rw [length]
  unfold Block.overlay
  congr 1
  funext i
  by_cases inside : start ≤ i ∧ i < start + count
  · rw [if_pos inside, if_pos inside]
    have below : 0 + (i - start) < count := by omega
    simp only [Block.ofList, List.getD, List.getElem?_take, if_pos below]
  · rw [if_neg inside, if_neg inside]

/-- A message whose buffer was changed apart from its lengths, trace data and payload. -/
theorem Mbuf.Laid.overlay {order : ByteOrder} {d1Len trLen : Nat} {msg : Mbuf}
    (laid : msg.Laid order d1Len trLen) (start : Nat) (src : Block) (origin count : Nat)
    (apart : start + count ≤ HdrField.len0.offset) :
    Mbuf.Laid order d1Len { msg with tpBuf := msg.tpBuf.overlay start src origin count } trLen := by
  -- The lengths are behind the changed bytes, so that each of their words reads as before.
  have word : ∀ field : HdrField, HdrField.len0.offset ≤ field.offset →
      hdrGet order (msg.tpBuf.overlay start src origin count) field =
        hdrGet order msg.tpBuf field :=
    fun field behind => hdrGet_overlay _ _ _ _ _ _ _ (Or.inr (by omega))
  exact ⟨(word _ (Nat.le_refl _)).trans laid.len0, (word _ (by decide)).trans laid.len1,
    (word _ (by decide)).trans laid.len2, (word _ (by decide)).trans laid.len3, laid.payload,
    laid.len, laid.room, laid.traceFits, laid.keepSrc, laid.mtype, laid.subId⟩

/-- What a message says that is laid out, part by part. -/
theorem Mbuf.Laid.content_eq {order : ByteOrder} {d1Len trLen : Nat} {msg : Mbuf}
    (laid : msg.Laid order d1Len trLen) :
    msg.content order = {
      mtype := msg.mtype
      subId := msg.subId
      len := msg.len
      payload := msg.tpBuf.slice (330 + trLen + d1Len) msg.len.toNat
      xact := msg.tpBuf.slice 62 32
      meid := msg.tpBuf.slice 190 32
      trace := msg.tpBuf.slice 330 trLen
      src := msg.tpBuf.slice 126 64
      srcip := msg.tpBuf.slice 266 64 } := by
  rw [Mbuf.content, laid.traceBytes, Mbuf.payloadBytes, laid.payload]
  rfl

/-- Setting the transaction id keeps the layout, and changes nothing else that is said. -/
theorem Mbuf.Laid.bytes2xact {order : ByteOrder} {d1Len trLen : Nat} {msg : Mbuf}
    (laid : msg.Laid order d1Len trLen) (src : List UInt8) :
    (rmrBytes2xact msg src).Laid order d1Len trLen ∧
      (rmrBytes2xact msg src).content order = (msg.content order).apply (.xact src) := by
  have short : (src.take rmrMaxXid).length ≤ 32 := List.length_take_le _ _
  have cut : msg.tpBuf.overlay 62 (Block.ofList src) 0 (min src.length 32) =
      msg.tpBuf.overlay 62 (Block.ofList (src.take 32)) 0 (src.take 32).length := by
    have same : src.take (min src.length 32) = src.take 32 := by
      rcases Nat.le_total src.length 32 with short | long
      · rw [Nat.min_eq_left short, List.take_length, List.take_of_length_le short]
      · rw [Nat.min_eq_right long]
    rw [overlay_ofList_take _ _ _ (Nat.min_le_left _ _), same]
  have after : (rmrBytes2xact msg src).Laid order d1Len trLen := by
    refine laid.overlay 62 (Block.ofList src) 0 (min src.length 32) ?_
    have := Nat.min_le_right src.length 32
    simp only [HdrField.offset, tpHdrLen]
    omega
  refine ⟨after, ?_⟩
  rw [after.content_eq, laid.content_eq]
  -- Everything else lies behind the transaction id.
  have outside : ∀ other part, 94 ≤ other →
      (rmrBytes2xact msg src).tpBuf.slice other part = msg.tpBuf.slice other part :=
    fun other part behind => Block.overlay_slice_outside _ _ _ _ _ (Or.inr (by
      have := Nat.min_le_right src.length rmrMaxXid
      simp only [HdrField.offset, tpHdrLen, rmrMaxXid] at this ⊢
      omega))
  have fronted : (rmrBytes2xact msg src).tpBuf.slice 62 32 =
      overFront (msg.tpBuf.slice 62 32) (src.take rmrMaxXid) := by
    change (msg.tpBuf.overlay 62 (Block.ofList src) 0 (min src.length 32)).slice 62 32 = _
    rw [cut]
    exact overlay_overFront _ _ _ _ short
  rw [fronted, outside _ _ (by omega), outside _ _ (by omega), outside _ _ (by omega),
    outside _ _ (by omega), outside _ _ (by omega)]
  rfl

/-- Setting the managed element id keeps the layout, and changes nothing else that is said. -/
theorem Mbuf.Laid.bytes2meid {order : ByteOrder} {d1Len trLen : Nat} {msg : Mbuf}
    (laid : msg.Laid order d1Len trLen) (src : List UInt8) :
    (rmrBytes2meid msg src).Laid order d1Len trLen ∧
      (rmrBytes2meid msg src).content order = (msg.content order).apply (.meid src) := by
  -- The id proper is at most 31 bytes, and the byte that ends it follows.
  obtain ⟨count, countIs⟩ : ∃ count, count = min src.length 31 := ⟨_, rfl⟩
  have zeroAt : (if min src.length rmrMaxMeid = rmrMaxMeid
      then HdrField.meid.offset + min src.length rmrMaxMeid - 1
      else HdrField.meid.offset + min src.length rmrMaxMeid) = 190 + count := by
    rcases Nat.lt_or_ge src.length 32 with short | long
    · rw [if_neg (by simp only [rmrMaxMeid]; omega)]
      simp only [HdrField.offset, tpHdrLen, rmrMaxMeid]
      omega
    · rw [if_pos (by simp only [rmrMaxMeid]; omega)]
      simp only [HdrField.offset, tpHdrLen, rmrMaxMeid]
      omega
  have buffer : (rmrBytes2meid msg src).tpBuf =
      (msg.tpBuf.overlay 190 (Block.ofList src) 0 (min src.length 32)).overlay (190 + count)
        (Block.ofList [0]) 0 1 := by
    simp only [rmrBytes2meid, zeroAt]
    rfl
  have after : (rmrBytes2meid msg src).Laid order d1Len trLen := by
    have first := laid.overlay 190 (Block.ofList src) 0 (min src.length 32)
      (by simp only [HdrField.offset, tpHdrLen]; omega)
    have second := first.overlay (190 + count) (Block.ofList [0]) 0 1
      (by simp only [HdrField.offset, tpHdrLen]; omega)
    simp only [rmrBytes2meid, zeroAt]
    exact second
  refine ⟨after, ?_⟩
  rw [after.content_eq, laid.content_eq, buffer]
  have outside : ∀ other part, other + part ≤ 190 ∨ 222 ≤ other →
      ((msg.tpBuf.overlay 190 (Block.ofList src) 0 (min src.length 32)).overlay (190 + count)
        (Block.ofList [0]) 0 1).slice other part = msg.tpBuf.slice other part := by
    intro other part apart
    rw [Block.overlay_slice_outside _ _ _ _ _ (by omega),
      Block.overlay_slice_outside _ _ _ _ _ (by omega)]
  have fronted : ((msg.tpBuf.overlay 190 (Block.ofList src) 0 (min src.length 32)).overlay
        (190 + count) (Block.ofList [0]) 0 1).slice 190 32 =
      overFront (msg.tpBuf.slice 190 32) (src.take count ++ [0]) := by
    have cut := Block.slice_add ((msg.tpBuf.overlay 190 (Block.ofList src) 0
      (min src.length 32)).overlay (190 + count) (Block.ofList [0]) 0 1) 190 count
      (1 + (31 - count))
    rw [show count + (1 + (31 - count)) = 32 by omega] at cut
    have taken : (src.take count).length = count := by
      rw [List.length_take]
      omega
    have first : ((msg.tpBuf.overlay 190 (Block.ofList src) 0 (min src.length 32)).overlay
        (190 + count) (Block.ofList [0]) 0 1).slice 190 count = src.take count := by
      have part := Block.overlay_slice_part msg.tpBuf 190 (Block.ofList src) 0
        (min src.length 32) 0 count (by omega)
      rw [Block.overlay_slice_outside _ _ _ _ _ (Or.inl (Nat.le_refl _))]
      rw [Block.ofList_slice _ _ _ (by omega), List.drop_zero] at part
      exact part
    have behind : (msg.tpBuf.overlay 190 (Block.ofList src) 0 (min src.length 32)).slice
        (190 + count + 1) (31 - count) = msg.tpBuf.slice (190 + count + 1) (31 - count) := by
      rcases Nat.lt_or_ge count 31 with short | long
      · exact Block.overlay_slice_outside _ _ _ _ _ (by omega)
      · have none_ : 31 - count = 0 := by omega
        rw [none_, Block.slice_zero, Block.slice_zero]
    rw [cut, first, overlay_slice_front, behind, overFront, List.length_append,
      taken, List.length_singleton, List.append_assoc]
    congr 1
    rw [Block.ofList_slice _ _ _ (by simp)]
    have rest := Block.slice_drop_take msg.tpBuf 190 32 (count + 1) (31 - count) (by omega)
    rw [List.take_of_length_le (by simp)] at rest
    rw [rest, Nat.add_assoc]
    rfl
  rw [fronted, outside _ _ (by omega), outside _ _ (by omega), outside _ _ (by omega),
    outside _ _ (by omega), outside _ _ (by omega), countIs]
  rfl

/-- Writing the payload keeps the layout, and changes nothing else that is said. -/
theorem Mbuf.Laid.fill {order : ByteOrder} {d1Len trLen : Nat} {msg : Mbuf}
    (laid : msg.Laid order d1Len trLen) {bytes : List UInt8}
    (fits : msg.payload + bytes.length ≤ msg.tpBuf.size) :
    ∃ filled, msg.tpBuf.memcpy msg.payload (Block.ofList bytes) 0 bytes.length = .ok filled ∧
      Mbuf.Laid order d1Len { msg with tpBuf := filled, len := bytes.length } trLen ∧
      Mbuf.content order { msg with tpBuf := filled, len := bytes.length } =
        (msg.content order).apply (.payload bytes) := by
  -- The payload lies behind every field, so that the copy changes none of them.
  have payload := laid.payload
  have copied := Block.memcpy_ok msg.tpBuf msg.payload (Block.ofList bytes) 0 bytes.length fits
    (by simp)
  refine ⟨_, copied, ?_⟩
  have before : ∀ other part, other + part ≤ msg.payload →
      (msg.tpBuf.overlay msg.payload (Block.ofList bytes) 0 bytes.length).slice other part =
        msg.tpBuf.slice other part :=
    fun other part apart => Block.overlay_slice_outside _ _ _ _ _ (Or.inl apart)
  have word : ∀ field : HdrField, field.offset + 4 ≤ 330 →
      hdrGet order (msg.tpBuf.overlay msg.payload (Block.ofList bytes) 0 bytes.length) field =
        hdrGet order msg.tpBuf field :=
    fun field header => hdrGet_overlay _ _ _ _ _ _ _ (Or.inl (by omega))
  have after : Mbuf.Laid order d1Len { msg with
      tpBuf := msg.tpBuf.overlay msg.payload (Block.ofList bytes) 0 bytes.length
      len := bytes.length } trLen := by
    refine ⟨(word _ (by decide)).trans laid.len0, (word _ (by decide)).trans laid.len1,
      (word _ (by decide)).trans laid.len2, (word _ (by decide)).trans laid.len3, payload, ?_, ?_,
      laid.traceFits, laid.keepSrc, laid.mtype, laid.subId⟩
    · exact Int.natCast_nonneg _
    · simp only [Block.overlay_size]
      omega
  refine ⟨after, ?_⟩
  have written : (msg.tpBuf.overlay msg.payload (Block.ofList bytes) 0 bytes.length).slice
      msg.payload bytes.length = bytes := by
    rw [Block.overlay_slice_inside, Block.ofList_slice _ _ _ (by omega), List.drop_zero,
      List.take_length]
  rw [payload] at written before
  rw [after.content_eq, laid.content_eq]
  simp only [Int.toNat_natCast, payload]
  rw [written, before _ _ (by omega), before _ _ (by omega), before _ _ (by omega),
    before _ _ (by omega), before _ _ (by omega)]
  rfl

end Rmr
