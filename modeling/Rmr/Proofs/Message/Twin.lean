import Rmr.Message.Fanout
import Rmr.Proofs.Message.Exchange

/-! When a message can be cloned, and that a clone is sent as the same bytes. -/

namespace Rmr

section
variable {order : ByteOrder} {conf : SendConf} {left : Leftover} {draft nm : Draft}
  {msg other third : Mbuf}

/-- What goes out is the lesser of what is used and what was allocated. -/
theorem totLen_min (order : ByteOrder) (msg : Mbuf) :
    msg.totLen order =
      min msg.allocLen (toInt (toUint (msg.len + rmrHdrLen order msg.tpBuf + tpHdrLen))) := by
  -- The length is cut down only where it is above what was allocated.
  unfold Mbuf.totLen
  generalize toInt (toUint (msg.len + rmrHdrLen order msg.tpBuf + tpHdrLen)) = used
  split
  · omega
  · omega

/-- A message can be sent if and only if the bytes that go out are there. -/
theorem shippable_iff :
    msg.Shippable order ↔ 0 ≤ msg.totLen order ∧ msg.totLen order ≤ msg.tpBuf.size := by
  -- The total is the smaller one of two lengths, so that it bounds both from below.
  rw [totLen_min]
  constructor
  · intro shippable
    exact ⟨le_min shippable.allocLen shippable.length, shippable.held⟩
  · intro within
    exact ⟨(le_min_iff.mp within.1).1, (le_min_iff.mp within.1).2, within.2⟩

/-- Sending a message does not fail if and only if it can be sent. -/
theorem sendMsg_iff : (∃ bytes, sendMsg conf msg = .ok bytes) ↔ msg.Shippable conf.order := by
  -- A send reads as many bytes as the total says, and nothing else can fail.
  rw [shippable_iff]
  constructor
  · intro sends
    obtain ⟨bytes, bytesIs⟩ := sends
    obtain ⟨nonneg, held, -⟩ := sendMsg_frame bytesIs
    exact ⟨nonneg, by rwa [prepare_size] at held⟩
  · intro within
    exact sendMsg_of_room within.1 within.2

/-- The header in a copy leads to the payload as that of the message does, if all lengths are
copied. -/
theorem copiedHdr_payload (copied : HdrField.len3.offset + 4 ≤ tpHdrLen + msg.cloneCount order)
    (fresh : Block) :
    payloadAddr order (fresh.overlay tpHdrLen msg.tpBuf tpHdrLen (msg.cloneCount order)) =
      payloadAddr order msg.tpBuf := by
  -- The lengths are among the copied bytes, and the payload's address is made of them.
  have lens : (fresh.overlay tpHdrLen msg.tpBuf tpHdrLen (msg.cloneCount order)).slice 246 16 =
      msg.tpBuf.slice 246 16 :=
    Block.overlay_slice_part _ _ _ _ _ 196 16 (by
      simp only [HdrField.offset, tpHdrLen] at copied
      omega)
  obtain ⟨len0, len1, len2, len3⟩ := lens_congr order lens
  rw [payloadAddr, payloadAddr, data2Addr, data2Addr, data1Addr, data1Addr, traceAddr,
    traceAddr, len0,
    len1, len2, len3]

/-- All lengths in the header of a message are copied with it. -/
theorem cloneCount_copied (framed : msg.Framed order) :
    HdrField.len3.offset + 4 ≤ tpHdrLen + msg.cloneCount order := by
  have counted : 280 ≤ msg.cloneCount order := cloneCount framed.headed framed.near
  simp only [HdrField.offset, tpHdrLen]
  omega

/-- The header in a copy of a message leads to the payload as that of the message does. -/
theorem cloneHdr_payload (framed : msg.Framed order) (fresh : Block) :
    payloadAddr order (fresh.overlay tpHdrLen msg.tpBuf tpHdrLen (msg.cloneCount order)) =
      msg.payload :=
  (copiedHdr_payload (cloneCount_copied framed) fresh).trans framed.headed.starts.symm

/-- The buffer of a clone: the headers and the payload laid over fresh memory. -/
def Draft.cloneBuf (order : ByteOrder) (left : Leftover) (draft : Draft) : Block :=
  ((left.malloc draft.allocs (draft.msg.allocLen + tpHdrLen)).overlay tpHdrLen draft.msg.tpBuf
    tpHdrLen (draft.msg.cloneCount order)).overlay draft.msg.payload draft.msg.tpBuf
    draft.msg.payload draft.msg.len.toNat

/-- What `clone_msg` makes of a message that it has room for, if all lengths are copied. -/
theorem cloneMsg_filled (clonable : draft.msg.Clonable order)
    (copied : HdrField.len3.offset + 4 ≤ tpHdrLen + draft.msg.cloneCount order)
    (starts : draft.msg.payload = payloadAddr order draft.msg.tpBuf) :
    cloneMsg order left draft = .ok {
      msg := { draft.msg with tpBuf := draft.cloneBuf order left, rtsFd := 0 }
      allocs := draft.allocs + 1 } := by
  obtain ⟨hdrHeld, hdrRoom, len, payloadHeld, payloadRoom⟩ := clonable
  have size : ((left.malloc draft.allocs (draft.msg.allocLen + tpHdrLen)).size : Int) =
      draft.msg.allocLen + tpHdrLen := Int.toNat_of_nonneg (by simp only [tpHdrLen]; omega)
  have hdr := Block.memcpy_ok (left.malloc draft.allocs (draft.msg.allocLen + tpHdrLen)) tpHdrLen
    draft.msg.tpBuf tpHdrLen (draft.msg.cloneCount order) (by omega) hdrHeld
  have payload := copiedHdr_payload copied
    (left.malloc draft.allocs (draft.msg.allocLen + tpHdrLen))
  rw [← starts] at payload
  refine bind_eq_ok.mpr ⟨_, hdr, ?_⟩
  dsimp only
  have room : ¬ (left.malloc draft.allocs (draft.msg.allocLen + tpHdrLen)).size <
      HdrField.len3.offset + 4 := by
    omega
  rw [Block.overlay_size, if_neg room, payload]
  -- The length is used as a size, so it is one.
  obtain ⟨used, usedIs⟩ := Int.eq_ofNat_of_zero_le len
  rw [Draft.cloneBuf, usedIs]
  rw [usedIs] at payloadHeld payloadRoom
  have filled := Block.memcpy_ok ((left.malloc draft.allocs (draft.msg.allocLen + tpHdrLen)).overlay
    tpHdrLen draft.msg.tpBuf tpHdrLen (draft.msg.cloneCount order)) draft.msg.payload
    draft.msg.tpBuf draft.msg.payload used (by rw [Block.overlay_size]; omega) (by omega)
  rw [filled]
  rfl

/-- What `clone_msg` makes of a message that it has room for. -/
theorem cloneMsg_made (framed : draft.msg.Framed order) (clonable : draft.msg.Clonable order) :
    cloneMsg order left draft = .ok {
      msg := { draft.msg with tpBuf := draft.cloneBuf order left, rtsFd := 0 }
      allocs := draft.allocs + 1 } :=
  cloneMsg_filled clonable (cloneCount_copied framed) framed.headed.starts

/-- A message can be cloned if and only if there is room for all that `clone_msg` copies. -/
theorem cloneMsg_iff (framed : draft.msg.Framed order) :
    (∃ nm, cloneMsg order left draft = .ok nm) ↔ draft.msg.Clonable order := by
  -- Either copy is in bounds exactly when both of its blocks have room.
  constructor
  · intro clones
    obtain ⟨nm, cloned⟩ := clones
    obtain ⟨hdr, hdrIs, cloned⟩ := bind_eq_ok.mp cloned
    dsimp only at cloned
    split at cloned
    · cases cloned
    · obtain ⟨filled, filledIs, -⟩ := bind_eq_ok.mp cloned
      obtain ⟨⟨-, -, room, -, held⟩, hdrIs⟩ := Block.memcpy_inside hdrIs
      obtain ⟨⟨used, -, room', -, held'⟩, -⟩ := Block.memcpy_inside filledIs
      have payload := cloneHdr_payload framed
        (left.malloc draft.allocs (draft.msg.allocLen + tpHdrLen))
      have counted : 280 ≤ draft.msg.cloneCount order := cloneCount framed.headed framed.near
      change (tpHdrLen : Int) + draft.msg.cloneCount order ≤
        ((draft.msg.allocLen + tpHdrLen).toNat : Int) at room
      change (tpHdrLen : Int) + draft.msg.cloneCount order ≤ draft.msg.tpBuf.size at held
      rw [hdrIs] at room'
      change (payloadAddr order (Block.overlay (left.malloc draft.allocs
        (draft.msg.allocLen + tpHdrLen)) tpHdrLen draft.msg.tpBuf tpHdrLen
        (draft.msg.cloneCount order)) : Int) + draft.msg.len ≤
          ((draft.msg.allocLen + tpHdrLen).toNat : Int) at room'
      rw [payload] at room'
      simp only [tpHdrLen] at room held room'
      exact {
        hdrHeld := by simp only [tpHdrLen]; omega
        hdrRoom := by omega
        len := used
        payloadHeld := held'
        payloadRoom := by simp only [tpHdrLen]; omega }
  · intro clonable
    exact ⟨_, cloneMsg_made framed clonable⟩

/-- A message that can stand for another one when that is sent. -/
structure Mbuf.Twin (order : ByteOrder) (other msg : Mbuf) : Prop where
  mtype : other.mtype = msg.mtype
  subId : other.subId = msg.subId
  len : other.len = msg.len
  allocLen : other.allocLen = msg.allocLen
  payload : other.payload = msg.payload
  noAlloc : other.noAlloc = msg.noAlloc
  addSrc : other.addSrc = msg.addSrc
  whole : tpHdrLen + mhdrLen ≤ other.tpBuf.size
  shippable : msg.Shippable order → other.Shippable order
  clonable : msg.Clonable order → other.Clonable order
  /-- All that goes out is the same, behind the transport header. -/
  bytes : ∀ i, tpHdrLen ≤ i → i < msg.payload ∨ (i : Int) < msg.totLen order →
    other.tpBuf.byte i = msg.tpBuf.byte i

/-- A message with another state stands for itself. -/
theorem Mbuf.Twin.withState (twin : other.Twin order msg) (state : MsgState) :
    Mbuf.Twin order { other with state := state } msg where
  mtype := twin.mtype
  subId := twin.subId
  len := twin.len
  allocLen := twin.allocLen
  payload := twin.payload
  noAlloc := twin.noAlloc
  addSrc := twin.addSrc
  whole := twin.whole
  shippable := fun ships => ⟨(twin.shippable ships).1, (twin.shippable ships).2,
    (twin.shippable ships).3⟩
  clonable := fun clones => ⟨(twin.clonable clones).1, (twin.clonable clones).2,
    (twin.clonable clones).3, (twin.clonable clones).4, (twin.clonable clones).5⟩
  bytes := twin.bytes

/-- A message stands for itself. -/
theorem Mbuf.Twin.refl (whole : tpHdrLen + mhdrLen ≤ msg.tpBuf.size) : msg.Twin order msg where
  mtype := rfl
  subId := rfl
  len := rfl
  allocLen := rfl
  payload := rfl
  noAlloc := rfl
  addSrc := rfl
  whole := whole
  shippable := id
  clonable := id
  bytes := fun _ _ _ => rfl

/-- It leads to the payload by the same lengths. -/
theorem Mbuf.Twin.lens (twin : other.Twin order msg) (framed : msg.Framed order) :
    other.tpBuf.slice 246 16 = msg.tpBuf.slice 246 16 := by
  -- The four lengths are among the bytes that were copied.
  have behind := framed.behind
  apply Block.slice_congr
  intro i within
  exact twin.bytes (246 + i) (by simp only [tpHdrLen]; omega) (.inl (by omega))

/-- It is framed as well. -/
theorem Mbuf.Twin.framed (twin : other.Twin order msg) (framed : msg.Framed order) :
    other.Framed order :=
  framed.keep twin.allocLen twin.payload (twin.lens framed)

/-- It is sent in as many bytes. -/
theorem Mbuf.Twin.totLen (twin : other.Twin order msg) (framed : msg.Framed order) :
    other.totLen order = msg.totLen order :=
  totLen_congr order twin.allocLen twin.len (twin.lens framed)

/-- What stands for a message that stands for another one stands for that. -/
theorem Mbuf.Twin.trans (second : third.Twin order other) (first : other.Twin order msg)
    (framed : msg.Framed order) : third.Twin order msg where
  mtype := second.mtype.trans first.mtype
  subId := second.subId.trans first.subId
  len := second.len.trans first.len
  allocLen := second.allocLen.trans first.allocLen
  payload := second.payload.trans first.payload
  noAlloc := second.noAlloc.trans first.noAlloc
  addSrc := second.addSrc.trans first.addSrc
  whole := second.whole
  shippable := fun ships => second.shippable (first.shippable ships)
  clonable := fun clones => second.clonable (first.clonable clones)
  bytes := by
    intro i behind within
    have within' : i < other.payload ∨ (i : Int) < other.totLen order := by
      rw [first.payload, first.totLen framed]
      exact within
    exact (second.bytes i behind within').trans (first.bytes i behind within)

/-- No more goes out than the headers and the payload. -/
theorem totLen_le (framed : msg.Framed order) (nonneg : 0 ≤ msg.len) :
    msg.totLen order ≤ msg.payload + msg.len := by
  have starts := framed.headed.hdrLen
  have used : toInt (toUint (msg.len + rmrHdrLen order msg.tpBuf + tpHdrLen)) ≤
      msg.len + rmrHdrLen order msg.tpBuf + tpHdrLen := by
    rw [toInt_of_toUint]
    exact toInt_le (by simp only [intMin]; omega)
  rw [totLen_min]
  generalize toInt (toUint (msg.len + rmrHdrLen order msg.tpBuf + tpHdrLen)) = total at *
  omega

/-- The headers are counted alike where the lengths are the same. -/
theorem cloneCount_congr (order : ByteOrder)
    (lens : other.tpBuf.slice 246 16 = msg.tpBuf.slice 246 16) :
    other.cloneCount order = msg.cloneCount order := by
  obtain ⟨-, len1, len2, len3⟩ := lens_congr order lens
  simp only [Mbuf.cloneCount, rmrHdrLen_congr order lens, rmrTrLen, rmrD1Len, rmrD2Len, len1, len2,
    len3]

/-- All that goes out of a message is in the buffer of its clone. -/
theorem cloneBuf_byte (framed : draft.msg.Framed order) (nonneg : 0 ≤ draft.msg.len) {i : Nat}
    (after : tpHdrLen ≤ i) (within : i < draft.msg.payload ∨ (i : Int) < draft.msg.totLen order) :
    (draft.cloneBuf order left).byte i = draft.msg.tpBuf.byte i := by
  have counted : draft.msg.payload ≤ tpHdrLen + draft.msg.cloneCount order :=
    cloneCount_head framed.headed framed.near
  have upTo := totLen_le framed nonneg
  simp only [Draft.cloneBuf, Block.overlay]
  -- The header is copied as far as the payload, and then the payload.
  split
  · congr 1
    omega
  · rw [if_pos (by omega)]
    congr 1
    omega

/-- A clone stands for the message. -/
theorem cloneMsg_twin (framed : draft.msg.Framed order)
    (cloned : cloneMsg order left draft = .ok nm) : nm.msg.Twin order draft.msg := by
  -- Behind the transport header each byte is copied, either with the head or with the payload.
  have clonable := (cloneMsg_iff framed).mp ⟨nm, cloned⟩
  have hdrRoom := clonable.hdrRoom
  have nonneg := clonable.len
  have payloadRoom := clonable.payloadRoom
  have counted : 280 ≤ draft.msg.cloneCount order := cloneCount framed.headed framed.near
  have behind := framed.behind
  rw [cloneMsg_made framed clonable] at cloned
  obtain rfl := Except.ok.inj cloned
  have size : ((draft.cloneBuf order left).size : Int) = draft.msg.allocLen + tpHdrLen :=
    Int.toNat_of_nonneg (by omega)
  have same : ∀ i, tpHdrLen ≤ i → i < draft.msg.payload ∨ (i : Int) < draft.msg.totLen order →
      (draft.cloneBuf order left).byte i = draft.msg.tpBuf.byte i :=
    fun _ => cloneBuf_byte framed nonneg
  generalize draft.cloneBuf order left = buf at size same
  have lens : buf.slice 246 16 = draft.msg.tpBuf.slice 246 16 := by
    apply Block.slice_congr
    intro i within
    exact same (246 + i) (by simp only [tpHdrLen]; omega) (.inl (by omega))
  exact {
    mtype := rfl
    subId := rfl
    len := rfl
    allocLen := rfl
    payload := rfl
    noAlloc := rfl
    addSrc := rfl
    whole := by
      simp only [tpHdrLen, mhdrLen] at size ⊢
      omega
    shippable := by
      intro ships
      have total : Mbuf.totLen order { draft.msg with tpBuf := buf, rtsFd := 0 } =
          draft.msg.totLen order := totLen_congr order rfl rfl lens
      have less : draft.msg.totLen order ≤ draft.msg.allocLen :=
        totLen_min order draft.msg ▸ min_le_left _ _
      rw [shippable_iff, total]
      exact ⟨(shippable_iff.mp ships).1, by dsimp only; omega⟩
    clonable := by
      intro clones
      have count : Mbuf.cloneCount order { draft.msg with tpBuf := buf, rtsFd := 0 } =
          draft.msg.cloneCount order := cloneCount_congr order lens
      refine ⟨?_, ?_, nonneg, ?_, payloadRoom⟩
      · rw [count]
        dsimp only
        omega
      · rw [count]
        exact hdrRoom
      · dsimp only
        omega
    bytes := same }

/-- What is laid over a block is the same wherever it is laid. -/
theorem overlay_byte_congr {dst next : Block} {i : Nat} (same : next.byte i = dst.byte i)
    (start : Nat) (src : Block) (origin count : Nat) :
    (next.overlay start src origin count).byte i = (dst.overlay start src origin count).byte i := by
  simp only [Block.overlay, same]

/-- `send_msg` puts the same words and the same source into both. -/
theorem Mbuf.Twin.prepare (twin : other.Twin conf.order msg) {i : Nat} (behind : tpHdrLen ≤ i)
    (within : i < msg.payload ∨ (i : Int) < msg.totLen conf.order) :
    (prepare conf other).tpBuf.byte i = (prepare conf msg).tpBuf.byte i := by
  -- Either message gets the same words at the same places, and the source only by its flag.
  have words : (hdrSet conf.order (hdrSet conf.order (hdrSet conf.order other.tpBuf .mtype
      other.mtype) .subId other.subId) .plen other.len).byte i =
      (hdrSet conf.order (hdrSet conf.order (hdrSet conf.order msg.tpBuf .mtype msg.mtype) .subId
        msg.subId) .plen msg.len).byte i := by
    rw [twin.mtype, twin.subId, twin.len]
    exact overlay_byte_congr (overlay_byte_congr (overlay_byte_congr
      (twin.bytes i behind within) _ _ _ _) _ _ _ _) _ _ _ _
  unfold Rmr.prepare
  dsimp only
  rw [twin.addSrc]
  split
  · exact overlay_byte_congr (overlay_byte_congr words _ _ _ _) _ _ _ _
  · exact words

/-- What stands for a message is sent as the same bytes, behind the transport header. -/
theorem Mbuf.Twin.carried {bytes : List UInt8} (twin : other.Twin conf.order msg)
    (framed : msg.Framed conf.order) (ships : msg.Shippable conf.order)
    (sent : sendMsg conf other = .ok bytes) : some (bytes.drop tpHdrLen) = msg.carried conf := by
  -- Byte by byte, behind the transport header that is written anew for each.
  obtain ⟨frame, frameIs⟩ := sendMsg_iff.mpr ships
  obtain ⟨-, -, bytesIs⟩ := sendMsg_frame sent
  obtain ⟨-, -, made⟩ := sendMsg_frame frameIs
  rw [Mbuf.carried, frameIs, bytesIs, made, twin.totLen framed]
  simp only [Except.toOption, Option.map_some, Option.some.injEq]
  apply List.ext_getElem
  · simp
  · intro i low high
    simp only [List.length_drop, Block.slice_length] at low
    rw [List.getElem_drop, List.getElem_drop]
    simp only [Block.slice, List.getElem_map, List.getElem_range, Nat.zero_add]
    exact overlay_byte_congr (twin.prepare (by omega) (.inr (by omega))) _ _ _ _

end

end Rmr
