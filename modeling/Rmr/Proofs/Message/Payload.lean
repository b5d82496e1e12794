import Rmr.Message.MbufApi
import Rmr.Proofs.Message.Kin

/-! Copying data into the payload of a message, and the room that there is for it. -/

namespace Rmr

/-- Data was copied into the payload of a message, as much of it as there is room for. -/
structure Mbuf.PayloadSet (order : ByteOrder) (src : List UInt8) (asked : Int) (msg next : Mbuf) :
    Prop where
  len : next.len = min asked (rmrPayloadSize order msg)
  payload : next.payload = msg.payload
  copied : next.payloadBytes = src.take next.len.toNat
  /-- No other byte is written. -/
  kept : ∀ i, i < msg.payload ∨ msg.payload + next.len ≤ i → next.tpBuf.byte i = msg.tpBuf.byte i
  overflow : next.state = .overflow ↔ rmrPayloadSize order msg < asked

section
variable {order : ByteOrder} {msg next : Mbuf} {src : List UInt8} {len : Int}

/-- The room that `rmr_bytes2payload` sees is the header and more than there is for the payload. -/
theorem toSize_room (framed : msg.Framed order) (fits : len ≤ intMax) :
    (toSize (msg.allocLen - mhdrLen) : Int) < len →
      rmrPayloadSize order msg < toSize (msg.allocLen - mhdrLen) ∧
        toInt (toSize (msg.allocLen - mhdrLen)) = toSize (msg.allocLen - mhdrLen) := by
  -- Only 280 bytes are taken off what was allocated, and the payload starts behind byte 330.
  intro less
  have behind := framed.behind
  have near := framed.near
  obtain ⟨low, high⟩ := framed.inInt
  refine ⟨?_, toInt_of_inInt ⟨by simp only [intMin]; omega, by omega⟩⟩
  rw [rmrPayloadSize_behind framed]
  simp only [toSize, mhdrLen, tpHdrLen, intMin, intMax] at *
  rw [toInt_of_inInt ⟨by simp only [intMin]; omega, by simp only [intMax]; omega⟩]
  omega

/-- Where there is room for the data, `rmr_bytes2payload` sees it, too. -/
theorem toSize_enough (framed : msg.Framed order) (enough : len ≤ rmrPayloadSize order msg)
    (fits : len ≤ intMax) : ¬ (toSize (msg.allocLen - mhdrLen) : Int) < len := by
  intro less
  have more := (toSize_room framed fits less).1
  omega

/-- Data is copied into the payload as it should be exactly if there is room for all of it. -/
theorem rmrBytes2payload_iff (framed : msg.Framed order) (asked : 0 ≤ len) (fits : len ≤ intMax)
    (given : len ≤ src.length) :
    (∃ next, rmrBytes2payload msg src len = .ok next ∧ msg.PayloadSet order src len next) ↔
      len ≤ rmrPayloadSize order msg ∧ msg.payload + len ≤ msg.tpBuf.size := by
  have size : ((toSize len : Nat) : Int) = len := by
    simp only [intMax] at fits
    simp only [toSize]
    omega
  constructor
  · intro sets
    obtain ⟨next, made, set_⟩ := sets
    unfold rmrBytes2payload at made
    dsimp only at made
    by_cases short : toSize (msg.allocLen - mhdrLen) < toSize len
    · -- Where more was asked for than is seen, as much is copied as is seen.
      rw [if_pos short] at made
      obtain ⟨filled, -, is⟩ := bind_eq_ok.mp made
      cases is
      obtain ⟨more, room⟩ := toSize_room framed fits (by omega)
      have told := set_.len
      change toInt (toSize (msg.allocLen - mhdrLen)) = _ at told
      rw [room] at told
      omega
    · rw [if_neg short] at made
      obtain ⟨filled, filledIs, is⟩ := bind_eq_ok.mp made
      cases is
      obtain ⟨⟨-, -, held, -, -⟩, -⟩ := Block.memcpy_inside filledIs
      have overflow := set_.overflow
      refine ⟨?_, held⟩
      by_contra more
      have is := overflow.mpr (Int.not_le.mp more)
      cases is
  · intro room
    obtain ⟨enough, held⟩ := room
    obtain ⟨count, countIs⟩ := Int.eq_ofNat_of_zero_le asked
    subst countIs
    have seen := toSize_enough framed enough fits
    have copied := Block.memcpy_ok msg.tpBuf msg.payload (Block.ofList src) 0 count (by omega)
      (by rw [Block.ofList_size]; omega)
    refine ⟨{ msg with
      state := .ok
      len := count
      tpBuf := msg.tpBuf.overlay msg.payload (Block.ofList src) 0 count }, ?_, ?_⟩
    · unfold rmrBytes2payload
      dsimp only
      rw [if_neg (by omega)]
      exact bind_eq_ok.mpr ⟨_, copied, rfl⟩
    · exact {
        len := (min_eq_left enough).symm
        payload := rfl
        copied := by
          change (msg.tpBuf.overlay msg.payload (Block.ofList src) 0 count).slice
            msg.payload count =
            src.take count
          rw [Block.overlay_slice_inside, Block.ofList_slice _ _ _ (by omega), List.drop_zero]
        kept := by
          intro i outside
          have apart : ¬ (msg.payload ≤ i ∧ i < msg.payload + count) := by
            clear seen size
            change i < msg.payload ∨ (msg.payload : Int) + (count : Int) ≤ i at outside
            omega
          simp only [Block.overlay]
          rw [if_neg apart]
        overflow := by
          constructor
          · intro is
            cases is
          · intro more
            omega }

/-- Copying bytes or a string into a payload keeps to its size exactly if all of them fit. -/
theorem payloadSet_iff (framed : msg.Framed order) :
    (∀ (src : List UInt8) (len : Int), 0 ≤ len → len ≤ intMax → len ≤ src.length →
      ((∃ next, rmrBytes2payload msg src len = .ok next ∧ msg.PayloadSet order src len next) ↔
        len ≤ rmrPayloadSize order msg ∧ msg.payload + len ≤ msg.tpBuf.size)) ∧
    (∀ str : List UInt8, (str.length : Int) + 1 ≤ intMax →
      ((∃ next, rmrStr2payload msg str = .ok next ∧
          msg.PayloadSet order (str ++ [0]) (str.length + 1) next) ↔
        (str.length : Int) + 1 ≤ rmrPayloadSize order msg ∧
          msg.payload + (str.length + 1) ≤ msg.tpBuf.size)) := by
  -- A string is copied as its bytes with the zero behind them, which make one more.
  constructor
  · intro src len asked fits given
    exact rmrBytes2payload_iff framed asked fits given
  · intro str fits
    have whole : toInt ((str.length : Int) + 1) = (str.length : Int) + 1 :=
      toInt_of_inInt ⟨by simp only [intMin]; omega, fits⟩
    have given : (str.length : Int) + 1 ≤ (str ++ [0]).length := by
      rw [List.length_append]
      exact le_of_eq (by simp)
    rw [rmrStr2payload, whole]
    clear whole
    rw [rmrBytes2payload_iff framed (by omega) fits given]
    constructor
    · intro room
      exact ⟨room.1, by omega⟩
    · intro room
      exact ⟨room.1, by omega⟩

end

/-- Four bytes are copied into a payload of four. -/
theorem payloadSet_four :
    Yields (fun draft => ∃ next, rmrBytes2payload draft.msg [1, 2, 3, 4] 4 = .ok next ∧
        draft.msg.PayloadSet .little [1, 2, 3, 4] 4 next)
      (rmrAllocMsg SendConf.plain (fun _ _ => 0) 4) := by
  -- The room is decided for the message composed; the theorem then gives the copy.
  have room : Yields (fun draft => 4 ≤ rmrPayloadSize .little draft.msg ∧
        (draft.msg.payload : Int) + 4 ≤ draft.msg.tpBuf.size)
      (compose SendConf.plain (fun _ _ => 0) (.alloc 4) []) := by
    decide +kernel
  obtain ⟨draft, composed, enough, held⟩ := room.exists
  have copies := (payloadSet_iff (compose_framed plain_sane composed)).1
  exact Yields.intro composed ((copies [1, 2, 3, 4] 4 (by decide) (by decide) (by decide)).mpr
    ⟨enough, held⟩)

/-- Five are not: the fifth one is written behind the buffer of the message. -/
theorem bytes2payload_overruns :
    Yields (fun draft => rmrPayloadSize .little draft.msg = 4 ∧ draft.msg.tpBuf.size = 338 ∧
        draft.msg.payload = 334 ∧
        rmrBytes2payload draft.msg [1, 2, 3, 4, 5] 5 = .error .range ∧
        ¬ ∃ next, rmrBytes2payload draft.msg [1, 2, 3, 4, 5] 5 = .ok next ∧
          draft.msg.PayloadSet .little [1, 2, 3, 4, 5] 5 next)
      (rmrAllocMsg SendConf.plain (fun _ _ => 0) 4) := by
  -- The limit is what was allocated less 280, so that the fifth byte passes and leaves the buffer.
  have fails : Yields (fun draft => rmrPayloadSize .little draft.msg = 4 ∧
        draft.msg.tpBuf.size = 338 ∧ draft.msg.payload = 334 ∧
        (rmrBytes2payload draft.msg [1, 2, 3, 4, 5] 5).map (fun _ => ()) = .error .range)
      (rmrAllocMsg SendConf.plain (fun _ _ => 0) 4) := by
    decide +kernel
  obtain ⟨draft, allocated, size, held, payload, overruns⟩ := fails.exists
  have fault : rmrBytes2payload draft.msg [1, 2, 3, 4, 5] 5 = .error .range := by
    cases made : rmrBytes2payload draft.msg [1, 2, 3, 4, 5] 5 with
    | ok next =>
      rw [made] at overruns
      cases overruns
    | error fault =>
      rw [made] at overruns
      cases overruns
      rfl
  refine Yields.intro allocated ⟨size, held, payload, fault, fun sets => ?_⟩
  obtain ⟨next, made, -⟩ := sets
  rw [fault] at made
  cases made

end Rmr
