import Rmr.Proofs.Message.Fidelity

/-! Hosts of different byte orders: what a receiver finds in the headers that a sender wrote. -/

namespace Rmr

/-- What a host reads where one of the other byte order stored a word. -/
def swap32 (word : Nat) : Nat := ntohl .little word

/-- A word is read as it was stored, or with its bytes the other way round. -/
theorem word32_bytes32_cross (sender receiver : ByteOrder) {word : Nat}
    (small : word < 4294967296) :
    word32 receiver (bytes32 sender word) = if sender = receiver then word else swap32 word := by
  by_cases same : sender = receiver
  · rw [if_pos same, same, word32_bytes32 receiver small]
  · rw [if_neg same]
    -- There are only two orders, and both ways the bytes are reversed.
    cases sender with
    | little =>
      cases receiver with
      | little => exact absurd rfl same
      | big => rfl
    | big =>
      cases receiver with
      | little => rfl
      | big => exact absurd rfl same

/-- The word of the flags, as a host reads it. -/
theorem get32_cross (sender receiver : ByteOrder) (buf : Block) (at_ : Nat) :
    buf.get32 receiver at_ =
      if sender = receiver then buf.get32 sender at_ else swap32 (buf.get32 sender at_) := by
  rw [← word32_bytes32_cross sender receiver (Block.get32_lt sender buf at_), Block.get32,
    Block.get32, bytes32_word32 sender (Block.slice_length _ _ _)]

/-- A converted word is the same on every host. -/
theorem hdrGet_cross (sender receiver : ByteOrder) (tpBuf : Block) (field : HdrField) :
    hdrGet receiver tpBuf field = hdrGet sender tpBuf field := by
  rw [hdrGet, hdrGet, Block.net32_eq, Block.net32_eq]

variable {conf : SendConf} {msg : Mbuf} {total : Nat}

/-- What `send_msg` does not put into the header stays as it was. -/
theorem prepare_apart {start count : Nat} (mtype : start + count ≤ 50 ∨ 54 ≤ start)
    (plen : start + count ≤ 54 ∨ 58 ≤ start) (src : start + count ≤ 126 ∨ 190 ≤ start)
    (subId : start + count ≤ 262 ∨ 266 ≤ start) (srcip : start + count ≤ 266 ∨ 330 ≤ start) :
    (prepare conf msg).tpBuf.slice start count = msg.tpBuf.slice start count := by
  -- The three words and the two source fields are the only places written, all apart from the
  -- range.
  have words : (hdrSet conf.order (hdrSet conf.order (hdrSet conf.order msg.tpBuf .mtype msg.mtype)
      .subId msg.subId) .plen msg.len).slice start count = msg.tpBuf.slice start count := by
    rw [hdrSet_slice_outside _ _ _ _ plen, hdrSet_slice_outside _ _ _ _ subId,
      hdrSet_slice_outside _ _ _ _ mtype]
  unfold prepare
  dsimp only
  split
  · rw [fillSource, ztBufFill_outside _ _ _ _ (by decide) srcip,
      ztBufFill_outside _ _ _ _ (by decide) src, words]
  · exact words

/-- The words that `send_msg` puts into the header, whether it adds the source or not. -/
theorem prepare_puts (conf : SendConf) (msg : Mbuf) :
    hdrGet conf.order (prepare conf msg).tpBuf .mtype = toUint msg.mtype ∧
    hdrGet conf.order (prepare conf msg).tpBuf .subId = toUint msg.subId ∧
    hdrGet conf.order (prepare conf msg).tpBuf .plen = toUint msg.len := by
  let plain := { msg with addSrc := false }
  have bare : hdrGet conf.order (prepare conf plain).tpBuf .mtype = toUint msg.mtype ∧
      hdrGet conf.order (prepare conf plain).tpBuf .subId = toUint msg.subId ∧
      hdrGet conf.order (prepare conf plain).tpBuf .plen = toUint msg.len :=
    prepare_words conf rfl
  -- The source is filled in elsewhere.
  have same : ∀ field : HdrField, field.offset + 4 ≤ 126 ∨ 190 ≤ field.offset →
      field.offset + 4 ≤ 266 ∨ 330 ≤ field.offset →
      hdrGet conf.order (prepare conf msg).tpBuf field =
        hdrGet conf.order (prepare conf plain).tpBuf field := by
    intro field src srcip
    apply hdrGet_congr
    unfold prepare
    dsimp only
    split
    · rw [fillSource, ztBufFill_outside _ _ _ _ (by decide) srcip,
        ztBufFill_outside _ _ _ _ (by decide) src]
      rfl
    · rfl
  rw [same .mtype (by decide) (by decide), same .subId (by decide) (by decide),
    same .plen (by decide) (by decide)]
  exact bare

/-- What the receiver of a message recovers from the headers that its sender wrote. -/
structure Recovered (sender receiver : ByteOrder) (msg : Mbuf) (total : Nat) (wire : Block) :
    Prop where
  total : extractMlen receiver wire 0 = total
  mtype : toInt (hdrGet receiver wire .mtype) = msg.mtype
  subId : toInt (hdrGet receiver wire .subId) = msg.subId
  len : toInt (hdrGet receiver wire .plen) = msg.len
  /-- The version, and the lengths of the parts of the header. -/
  words : ∀ field ∈ [HdrField.rmrVer, .len0, .len1, .len2, .len3],
    hdrGet receiver wire field = hdrGet sender msg.tpBuf field
  call : isCall receiver wire = isCall sender msg.tpBuf

/-- What a receiver makes of senders that know of no other byte order than its own. -/
structure OldSenders (receiver : ByteOrder) : Prop where
  /-- There is no marker. -/
  unmarked : ∀ (buf : Block) (total : Nat), total < 4294967296 → buf.byte 8 ≠ tpSzMarker →
    extractMlen receiver (buf.put32 receiver 0 total) 0 = total
  /-- A message is returned to its sender, and only the first word is written anew. -/
  returned : ∀ (order : ByteOrder) (buf : Block) (before total : Nat), total < 4294967296 →
    extractMlen receiver ((insertMlen order before buf).put32 receiver 0 total) 0 = total

/-- Senders of the receiver's own byte order are understood, however old they are. -/
theorem oldSenders (receiver : ByteOrder) : OldSenders receiver := by
  -- The size of an old sender is read from the same first four bytes.
  have first : ∀ (buf : Block) (total : Nat), total < 4294967296 →
      extractMlen receiver (buf.put32 receiver 0 total) 0 = total := by
    intro buf total small
    rw [extractMlen_eq, Block.get32, Block.put32_slice, word32_bytes32 receiver small]
  exact ⟨fun buf total small _ => first buf total small,
    fun order buf before total small => first _ total small⟩

/-- A word of the header is on the wire as `send_msg` left it. -/
theorem wire_word {field : HdrField} (behind : 50 ≤ field.offset) :
    hdrGet conf.order (wireBlock conf msg total) field =
      hdrGet conf.order (prepare conf msg).tpBuf field :=
  hdrGet_congr _ _ (wireBlock_slice behind)

/-- The flags of a message are not changed by the send. -/
theorem wire_flags (receiver : ByteOrder) :
    (wireBlock conf msg total).get32 receiver HdrField.flags.offset =
      msg.tpBuf.get32 receiver HdrField.flags.offset := by
  rw [Block.get32, Block.get32, wireBlock_slice (by decide),
    prepare_apart (by decide) (by decide) (by decide) (by decide) (by decide)]

/-- A sender and a receiver of different byte orders understand each other if and only if the bytes
of the size are the same read backwards, and the flag for calls is in the first byte of the flags
what it is in the last one. -/
theorem recovered_iff (conf : SendConf) (receiver : ByteOrder) (msg : Mbuf) (total : Nat)
    (mtype : InInt msg.mtype) (subId : InInt msg.subId) (len : InInt msg.len)
    (small : total < 4294967296) :
    (Recovered conf.order receiver msg total (wireBlock conf msg total) ∧ OldSenders receiver) ↔
      (conf.order = receiver ∨ (swap32 total = total ∧
        (swap32 (msg.tpBuf.get32 conf.order HdrField.flags.offset) &&& hflCallMsg ≠ 0 ↔
          msg.tpBuf.get32 conf.order HdrField.flags.offset &&& hflCallMsg ≠ 0))) := by
  have size : extractMlen receiver (wireBlock conf msg total) 0 =
      if conf.order = receiver then total else swap32 total := by
    rw [wireBlock, extractMlen_insertMlen, word32_bytes32_cross _ _ small]
  have flags : isCall receiver (wireBlock conf msg total) =
      decide ((if conf.order = receiver then msg.tpBuf.get32 conf.order HdrField.flags.offset
        else swap32 (msg.tpBuf.get32 conf.order HdrField.flags.offset)) &&& hflCallMsg ≠ 0) := by
    rw [isCall, wire_flags, get32_cross conf.order receiver]
  constructor
  · rintro ⟨recovered, -⟩
    by_cases same : conf.order = receiver
    · exact Or.inl same
    · right
      have total' := recovered.total
      have call := recovered.call
      rw [size, if_neg same] at total'
      rw [flags, if_neg same, isCall, decide_eq_decide] at call
      exact ⟨total', call⟩
  · intro alike
    refine ⟨⟨?_, ?_, ?_, ?_, ?_, ?_⟩, oldSenders receiver⟩
    · rw [size]
      split
      · rfl
      · rename_i differ
        exact (alike.resolve_left differ).1
    · -- Converted words mean the same everywhere.
      rw [hdrGet_cross conf.order, wire_word (by decide), (prepare_puts conf msg).1,
        toInt_toUint mtype]
    · rw [hdrGet_cross conf.order, wire_word (by decide), (prepare_puts conf msg).2.1,
        toInt_toUint subId]
    · rw [hdrGet_cross conf.order, wire_word (by decide), (prepare_puts conf msg).2.2,
        toInt_toUint len]
    · intro field among
      rw [hdrGet_cross conf.order, wire_word (by cases field <;> decide)]
      apply hdrGet_congr
      simp only [List.mem_cons, List.not_mem_nil, or_false] at among
      rcases among with rfl | rfl | rfl | rfl | rfl <;>
        exact prepare_apart (by decide) (by decide) (by decide) (by decide) (by decide)
    · rw [flags]
      split
      · rfl
      · rename_i differ
        rw [isCall, decide_eq_decide]
        exact (alike.resolve_left differ).2

/-- A message of nothing but its headers, which is sent via a call. -/
def bareCall : Mbuf :=
  { Mbuf.alloc (Block.ofList (List.replicate 330 0)) .ok with
    mtype := 1
    len := 0 }.markCall .little

/-- Hosts of one byte order understand each other. -/
theorem recovered_iff_same :
    Recovered .little .little bareCall 330 (wireBlock SendConf.plain bareCall 330) ∧
      OldSenders .little :=
  (recovered_iff SendConf.plain .little bareCall 330 (by decide) (by decide) (by decide)
    (by decide)).mpr (Or.inl rfl)

/-- A big endian host takes the 330 bytes of a little endian one for 1241579520. -/
theorem size_not_recovered :
    ¬ (Recovered .little .big bareCall 330 (wireBlock SendConf.plain bareCall 330) ∧
      OldSenders .big) := by
  -- The total is the length word read with the bytes turned around.
  rintro ⟨recovered, -⟩
  have size := recovered.total
  rw [wireBlock, extractMlen_insertMlen] at size
  revert size
  decide

end Rmr
