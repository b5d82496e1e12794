import Rmr.Receive.Stage

/-! What one pass of the data callback's loop does to the bytes of the message in progress. -/

namespace Rmr

/-- The bytes from the start of the message in progress to the end of the transport buffer. -/
def Flow.pending (buf : Block) (flow : Flow) : List UInt8 :=
  (flow.river.accum.getD (Block.ofList [])).slice 0 flow.river.ipt.toNat ++
    buf.slice flow.bidx.toNat flow.remain.toNat

/-- What holds of a river in flow whenever its callback is between two passes. -/
structure River.Flowing (conf : RcvConf) (river : River) : Prop where
  /-- The accumulator is really as large as recorded. -/
  held : ∃ accum, river.accum = some accum ∧ (accum.size : Int) = river.nbytes
  usual : conf.usual ≤ river.nbytes
  fits : river.nbytes ≤ intMax
  ipt : 0 ≤ river.ipt
  /-- While the size is unknown less than a size field has been captured. -/
  unsized : river.msgSize ≤ 0 → river.ipt < tpSzfieldLen
  /-- Once it is known the message fits the accumulator and is not yet whole. -/
  sized : 0 < river.msgSize → river.ipt < river.msgSize ∧ river.msgSize ≤ river.nbytes
  keep : river.drop = false

/-- What holds of the loop variables before a pass. -/
structure Flow.Ok (conf : RcvConf) (buf : Block) (flow : Flow) : Prop where
  flowing : flow.river.Flowing conf
  bidx : 0 ≤ flow.bidx
  remain : 0 < flow.remain
  inside : flow.bidx + flow.remain ≤ buf.size

/-- A fresh accumulator holds at least the headers. -/
theorem RcvConf.usual_low (conf : RcvConf) : 2446 ≤ conf.usual := by
  have low := conf.maxIbm_low
  simp only [mhdrLen, tpHdrLen] at low
  simp only [usual]
  omega

/-- The size that is used is always the old one: a new one that differs is not believed. -/
theorem extractMlen_eq (order : ByteOrder) (buf : Block) (at_ : Nat) :
    extractMlen order buf at_ = buf.get32 order at_ := by
  -- Both branches give the old size: a new one is read, but used only if it is the same.
  unfold extractMlen
  split
  · dsimp only
    split
    · rfl
    · rename_i same
      exact (not_not.mp same).symm
  · rfl

/-- The size of a message is decided by the bytes of its size field. -/
theorem extractMlen_congr (order : ByteOrder) {left right : Block} {at_ other : Nat}
    (same : left.slice at_ 9 = right.slice other 9) :
    extractMlen order left at_ = extractMlen order right other := by
  -- The size is read from the first four of the nine bytes.
  have first : left.slice at_ 4 = right.slice other 4 := by
    rw [← Block.slice_take left at_ 9 4 (by decide),
      ← Block.slice_take right other 9 4 (by decide), same]
  rw [extractMlen_eq, extractMlen_eq, Block.get32, Block.get32, first]

/-- Nine bytes at the front of the pending ones announce the size wherever they are read. -/
theorem announced_eq (order : ByteOrder) {pending : List UInt8} {block : Block} {at_ : Nat}
    (nine : 9 ≤ pending.length) (same : block.slice at_ 9 = pending.take 9) :
    toInt (extractMlen order block at_) = announced order pending := by
  have read : (Block.ofList pending).slice 0 9 = pending.take 9 := by
    simpa using Block.ofList_slice pending 0 9 (by omega)
  rw [announced, extractMlen_congr order (same.trans read.symm)]

/-- There are as many pending bytes as were captured and still remain. -/
theorem Flow.pending_length (buf : Block) {flow : Flow} (ipt : 0 ≤ flow.river.ipt)
    (remain : 0 ≤ flow.remain) :
    ((flow.pending buf).length : Int) = flow.river.ipt + flow.remain := by
  simp only [pending, List.length_append, Block.slice_length]
  omega

/-- Grabbing bytes that fit puts them behind the captured ones. -/
theorem River.grab_ok {river : River} (buf : Block) (bidx count : Nat) {accum : Block} {ipt : Nat}
    (held : river.accum = some accum) (at_ : river.ipt = ipt)
    (room : ipt + count ≤ accum.size) (inside : bidx + count ≤ buf.size) :
    river.grab buf bidx count =
      .ok { river with accum := some (accum.overlay ipt buf bidx count) } := by
  simp only [grab, held, at_, Block.memcpy_ok _ _ _ _ _ room inside, Bind.bind,
    Except.bind, Pure.pure,
    Except.pure]

/-- Behind a copy to the insertion point stand the captured bytes and then the copied ones. -/
theorem overlay_captured (accum buf : Block) (ipt bidx count : Nat) :
    (accum.overlay ipt buf bidx count).slice 0 (ipt + count) =
      accum.slice 0 ipt ++ buf.slice bidx count := by
  rw [Block.slice_add, Block.overlay_slice_outside _ _ _ _ _ (Or.inl (by omega)), Nat.zero_add,
    Block.overlay_slice_inside]

/-- The size of the message in progress, read from its first bytes when it is not yet known. -/
def Flow.expects (order : ByteOrder) (buf : Block) (flow : Flow) : Int :=
  if flow.river.msgSize ≤ 0 then announced order (flow.pending buf) else flow.river.msgSize

/-- While the size is not known, the message is as long as its first bytes announce. -/
theorem Flow.expects_unsized (flow : Flow) (order : ByteOrder) (buf : Block)
    (unsized : flow.river.msgSize ≤ 0) :
    flow.expects order buf = announced order (flow.pending buf) := if_pos unsized

/-- Once the size is known, the message is that long. -/
theorem Flow.expects_known (flow : Flow) (order : ByteOrder) (buf : Block)
    (known : 0 < flow.river.msgSize) : flow.expects order buf = flow.river.msgSize :=
  if_neg (by omega)

/-- What the first half of a pass leaves for the second one. -/
structure Flow.Ready (buf : Block) (flow sized : Flow) (size room : Int) (made : Nat) :
    Prop where
  msgSize : sized.river.msgSize = size
  nbytes : sized.river.nbytes = room
  allocs : sized.allocs = made
  held : ∃ accum, sized.river.accum = some accum ∧ (accum.size : Int) = room
  /-- A size field that arrived in two parts is in the accumulator; a whole one is not. -/
  ipt : sized.river.ipt =
    if 0 < flow.river.msgSize ∨ flow.river.ipt = 0 then flow.river.ipt else tpSzfieldLen
  bidx : sized.bidx = flow.bidx + (sized.river.ipt - flow.river.ipt)
  remain : sized.remain = flow.remain - (sized.river.ipt - flow.river.ipt)
  /-- The bytes of the message in progress are where they were, or one copy further. -/
  pending : sized.pending buf = flow.pending buf
  state : sized.river.state = flow.river.state
  notified : sized.river.notified = flow.river.notified
  drop : sized.river.drop = flow.river.drop

/-- With less than a size field at hand, the bytes are captured and the callback returns. -/
theorem takeSize_short {conf : RcvConf} (order : ByteOrder) (left : Leftover) {buf : Block}
    {flow : Flow} (ok : flow.Ok conf buf) (unsized : flow.river.msgSize ≤ 0)
    (short : flow.river.ipt + flow.remain < tpSzfieldLen) :
    ∃ accum : Block,
      takeSize order left buf flow = .ok (.returned
        { flow.river with accum := some accum, ipt := flow.river.ipt + flow.remain }
        flow.allocs) ∧
      (accum.size : Int) = flow.river.nbytes ∧
      accum.slice 0 (flow.pending buf).length = flow.pending buf := by
  -- The bytes that the buffer has are copied behind those captured before, all in the size field.
  obtain ⟨⟨⟨accum, held, size⟩, usual, fits, iptLow, small, _, _⟩, bidxLow, remainLow, inside⟩ := ok
  have room := conf.usual_low
  have captured := small unsized
  simp only [tpSzfieldLen] at short captured
  obtain ⟨ipt, iptIs⟩ := Int.eq_ofNat_of_zero_le iptLow
  obtain ⟨bidx, bidxIs⟩ := Int.eq_ofNat_of_zero_le bidxLow
  obtain ⟨remain, remainIs⟩ := Int.eq_ofNat_of_zero_le (Int.le_of_lt remainLow)
  have need : toInt (tpSzfieldLen - flow.river.ipt) = tpSzfieldLen - flow.river.ipt :=
    toInt_of_inInt (by simp only [InInt, intMin, intMax, tpSzfieldLen]; omega)
  have copied := River.grab_ok buf bidx remain held iptIs
    (by omega) (by omega)
  have advanced : addInt (ipt : Int) remain = .ok ((ipt : Int) + remain) :=
    addInt_ok (by simp only [InInt, intMin, intMax]; omega)
  refine ⟨accum.overlay ipt buf bidx remain, ?_, by simpa using size, ?_⟩
  · simp only [takeSize, if_pos unsized, need]
    rw [if_pos (by simp only [tpSzfieldLen]; omega), bidxIs, remainIs, copied]
    simp only [Bind.bind, Except.bind, iptIs, advanced, Pure.pure, Except.pure]
  · simp only [Flow.pending, held, Option.getD_some, iptIs, bidxIs, remainIs, Int.toNat_natCast,
      List.length_append, Block.slice_length]
    exact overlay_captured accum buf ipt bidx remain

/-- A size field that is whole in the transport buffer is read there, and nothing moves. -/
theorem readSize_whole {order : ByteOrder} {buf : Block} {flow : Flow} {need : Int}
    (fresh : flow.river.ipt = 0) (enough : tpSzfieldLen ≤ flow.remain) :
    readSize order buf flow need = .ok { flow with river := { flow.river with
      msgSize := announced order (flow.pending buf) } } := by
  -- Nothing was captured before, so that the pending bytes are those of the buffer.
  simp only [tpSzfieldLen] at enough
  have bytes : flow.pending buf = buf.slice flow.bidx.toNat flow.remain.toNat := by
    simp [Flow.pending, fresh]
  have read : toInt (extractMlen order buf flow.bidx.toNat) =
      announced order (flow.pending buf) := by
    apply announced_eq
    · rw [bytes, Block.slice_length]
      omega
    · rw [bytes, Block.slice_take _ _ _ _ (by omega)]
  rw [readSize, if_neg (by omega), read]
  rfl

/-- A size field whose start was captured before is completed in the accumulator. -/
theorem readSize_split {conf : RcvConf} (order : ByteOrder) {buf : Block} {flow : Flow}
    (ok : flow.Ok conf buf) (unsized : flow.river.msgSize ≤ 0) (begun : 0 < flow.river.ipt)
    (enough : tpSzfieldLen ≤ flow.river.ipt + flow.remain) :
    ∃ accum : Block,
      readSize order buf flow (tpSzfieldLen - flow.river.ipt) = .ok { flow with
        river := { flow.river with
          accum := some accum
          ipt := tpSzfieldLen
          msgSize := announced order (flow.pending buf) }
        bidx := flow.bidx + (tpSzfieldLen - flow.river.ipt)
        remain := flow.remain - (tpSzfieldLen - flow.river.ipt) } ∧
      (accum.size : Int) = flow.river.nbytes ∧
      accum.slice 0 tpSzfieldLen = (flow.pending buf).take tpSzfieldLen := by
  obtain ⟨⟨⟨accum, held, size⟩, usual, fits, iptLow, small, _, _⟩, bidxLow, remainLow, inside⟩ := ok
  have room := conf.usual_low
  have captured := small unsized
  simp only [tpSzfieldLen] at enough captured ⊢
  obtain ⟨ipt, iptIs⟩ := Int.eq_ofNat_of_zero_le iptLow
  obtain ⟨bidx, bidxIs⟩ := Int.eq_ofNat_of_zero_le bidxLow
  obtain ⟨remain, remainIs⟩ := Int.eq_ofNat_of_zero_le (Int.le_of_lt remainLow)
  obtain ⟨need, needIs⟩ : ∃ need : Nat, (9 : Int) - flow.river.ipt = need :=
    Int.eq_ofNat_of_zero_le (by omega)
  have copied := River.grab_ok buf bidx need held iptIs
    (by omega) (by omega)
  have advanced : addInt (ipt : Int) need = .ok 9 := by
    rw [addInt_ok (by simp only [InInt, intMin, intMax]; omega)]
    congr 1
    omega
  -- The nine bytes now in the accumulator are the first nine of the message.
  have nine : (accum.overlay ipt buf bidx need).slice 0 9 = (flow.pending buf).take 9 := by
    have whole : 9 = ipt + need := by omega
    rw [whole, overlay_captured]
    simp only [Flow.pending, held, Option.getD_some, iptIs, bidxIs, remainIs, Int.toNat_natCast]
    rw [List.take_append, Block.slice_length, Nat.add_sub_cancel_left,
      List.take_of_length_le (by simp), Block.slice_take _ _ _ _ (by omega)]
  have long : 9 ≤ (flow.pending buf).length := by
    have := Flow.pending_length buf iptLow (Int.le_of_lt remainLow)
    omega
  refine ⟨accum.overlay ipt buf bidx need, ?_, by simpa using size, nine⟩
  have read := announced_eq order long nine
  simp only [Nat.cast_ofNat]
  rw [readSize, if_pos begun, needIs, bidxIs, copied]
  simp only [Bind.bind, Except.bind, iptIs, advanced, Pure.pure, Except.pure, Option.getD_some,
    read]

/-- A flow whose size alone was set is ready, as nothing else of it has changed. -/
theorem Flow.Ok.ready_sized {conf : RcvConf} {buf : Block} {flow : Flow} (ok : flow.Ok conf buf)
    (fresh : flow.river.ipt = 0) (size : Int) :
    flow.Ready buf { flow with river := { flow.river with msgSize := size } } size
      flow.river.nbytes flow.allocs := by
  refine ⟨rfl, rfl, rfl, ok.flowing.held, ?_, ?_, ?_, ?_, rfl, rfl, rfl⟩ <;>
    simp [fresh, Flow.pending]

/-- Once a size field is at hand the announced size is known, and no byte is lost. -/
theorem readSize_ready {conf : RcvConf} (order : ByteOrder) {buf : Block} {flow : Flow}
    (ok : flow.Ok conf buf) (unsized : flow.river.msgSize ≤ 0)
    (enough : tpSzfieldLen ≤ flow.river.ipt + flow.remain) :
    ∃ sized, readSize order buf flow (tpSzfieldLen - flow.river.ipt) = .ok sized ∧
      flow.Ready buf sized (announced order (flow.pending buf)) flow.river.nbytes
        flow.allocs := by
  have iptLow := ok.flowing.ipt
  have captured := ok.flowing.unsized unsized
  by_cases fresh : flow.river.ipt = 0
  · exact ⟨_, readSize_whole fresh (by simpa [fresh] using enough), ok.ready_sized fresh _⟩
  · have begun : 0 < flow.river.ipt := by omega
    obtain ⟨accum, read, size, nine⟩ := readSize_split order ok unsized begun enough
    generalize announced order (flow.pending buf) = msgSize at read ⊢
    refine ⟨_, read, rfl, rfl, rfl, ⟨accum, rfl, size⟩, ?_, ?_, ?_, ?_, rfl, rfl, rfl⟩
    · simp [fresh, show ¬ 0 < flow.river.msgSize by omega]
    · simp
    · simp
    · -- The nine captured bytes and the rest of the buffer are the bytes pending before.
      obtain ⟨old, oldHeld, _⟩ := ok.flowing.held
      have bidxLow := ok.bidx
      have remainLow := ok.remain
      simp only [tpSzfieldLen] at captured enough nine ⊢
      simp only [Flow.pending, oldHeld, Option.getD_some] at nine ⊢
      have rest : buf.slice (flow.bidx + (((9 : Nat) : Int) - flow.river.ipt)).toNat
            (flow.remain - (((9 : Nat) : Int) - flow.river.ipt)).toNat =
          (old.slice 0 flow.river.ipt.toNat ++
            buf.slice flow.bidx.toNat flow.remain.toNat).drop 9 := by
        have start : (flow.bidx + (((9 : Nat) : Int) - flow.river.ipt)).toNat =
            flow.bidx.toNat + (9 - flow.river.ipt.toNat) := by omega
        have count : (flow.remain - (((9 : Nat) : Int) - flow.river.ipt)).toNat =
            flow.remain.toNat - (9 - flow.river.ipt.toNat) := by omega
        rw [start, count, List.drop_append, Block.slice_length,
          List.drop_of_length_le (by simp; omega), List.nil_append,
          ← Block.slice_drop_take buf flow.bidx.toNat flow.remain.toNat
            (9 - flow.river.ipt.toNat) (flow.remain.toNat - (9 - flow.river.ipt.toNat)) (by omega),
          List.take_of_length_le (by simp)]
      rw [rest, Int.toNat_natCast, nine, List.take_append_drop]

/-- A message bigger than the accumulator gets a larger one, with what was captured in it. -/
theorem growAccum_ready {conf : RcvConf} (left : Leftover) {buf : Block} {flow sized : Flow}
    {size : Int} (ok : flow.Ok conf buf)
    (ready : flow.Ready buf sized size flow.river.nbytes flow.allocs)
    (bigger : flow.river.nbytes < size) (unsized : flow.river.msgSize ≤ 0)
    (fits : size + 128 ≤ intMax) :
    ∃ grown, growAccum left sized = .ok grown ∧
      flow.Ready buf grown size (size + 128) (flow.allocs + 1) := by
  obtain ⟨msgSizeIs, nbytesIs, allocsIs, ⟨accum, held, accumSize⟩, iptIs, bidxIs, remainIs,
    pendingIs, state, notified, drop⟩ := ready
  have usual := ok.flowing.usual
  have room := conf.usual_low
  have iptLow := ok.flowing.ipt
  have iptNine : sized.river.ipt = 0 ∨ sized.river.ipt = 9 := by
    rw [iptIs]
    split
    · left; omega
    · right; rfl
  have nbytes : addInt sized.river.msgSize 128 = .ok (size + 128) := by
    rw [msgSizeIs]
    exact addInt_ok ⟨by simp only [intMin]; omega, fits⟩
  have mallocSize : (((left.malloc sized.allocs (size + 128)).size : Nat) : Int) = size + 128 := by
    simp only [Leftover.malloc]
    omega
  rcases iptNine with none_ | nine
  · -- Nothing was captured: the fresh accumulator needs none of the old bytes.
    refine ⟨{ sized with
      river := { sized.river with
        nbytes := size + 128
        accum := some (left.malloc sized.allocs (size + 128)) }
      allocs := sized.allocs + 1 }, ?_, ?_⟩
    · have idle : ¬ 0 < sized.river.ipt := by omega
      simp only [growAccum, nbytes, Bind.bind, Except.bind, if_neg idle, Pure.pure, Except.pure]
    refine ⟨msgSizeIs, rfl, by simp [allocsIs], ⟨_, rfl, mallocSize⟩, iptIs, bidxIs, remainIs, ?_,
      state, notified, drop⟩
    rw [← pendingIs]
    simp [Flow.pending, none_]
  · -- One byte past the captured ones is copied along, which both accumulators have.
    have count : addInt sized.river.ipt 1 = .ok 10 := by
      rw [nine]
      decide
    have copied := Block.memcpy_ok (left.malloc sized.allocs (size + 128)) 0 accum 0 10
      (by omega) (by omega)
    refine ⟨{ sized with
      river := { sized.river with
        nbytes := size + 128
        accum := some ((left.malloc sized.allocs (size + 128)).overlay 0 accum 0 10) }
      allocs := sized.allocs + 1 }, ?_, ?_⟩
    · have positive : 0 < sized.river.ipt := by omega
      have copied' : (left.malloc sized.allocs (size + 128)).memcpy 0 accum 0 10 =
          .ok ((left.malloc sized.allocs (size + 128)).overlay 0 accum 0 10) := by
        simpa using copied
      simp only [growAccum, nbytes, Bind.bind, Except.bind, if_pos positive, held, count, copied',
        Pure.pure, Except.pure]
    · refine ⟨msgSizeIs, rfl, by simp [allocsIs], ⟨_, rfl, by simpa using mallocSize⟩,
        iptIs, bidxIs,
        remainIs, ?_, state, notified, drop⟩
      rw [← pendingIs]
      have kept : ((left.malloc sized.allocs (size + 128)).overlay 0 accum 0 10).slice 0 9 =
          accum.slice 0 9 := by
        simpa using Block.overlay_slice_part (left.malloc sized.allocs (size + 128)) 0 accum 0 10
          0 9 (by decide)
      simp [Flow.pending, nine, held, kept]

/-- The bytes of a size field still needed, while less than one was captured. -/
theorem need_eq {ipt : Int} (low : 0 ≤ ipt) (high : ipt < tpSzfieldLen) :
    toInt (tpSzfieldLen - ipt) = tpSzfieldLen - ipt := by
  simp only [tpSzfieldLen] at high ⊢
  exact toInt_of_inInt (by simp only [InInt, intMin, intMax]; omega)

/-- A known size lets the pass go on as it is. -/
theorem takeSize_known {conf : RcvConf} (order : ByteOrder) (left : Leftover) {buf : Block}
    {flow : Flow} (ok : flow.Ok conf buf) (sized : 0 < flow.river.msgSize) :
    takeSize order left buf flow = .ok (.goesOn flow) ∧
      flow.Ready buf flow flow.river.msgSize flow.river.nbytes flow.allocs := by
  refine ⟨by rw [takeSize, if_neg (by omega)]; rfl, ?_⟩
  refine ⟨rfl, rfl, rfl, ok.flowing.held, ?_, ?_, ?_, rfl, rfl, rfl, rfl⟩ <;> simp [sized]

/-- What a pass does once the size field is whole is decided by the size it announces. -/
theorem takeSize_read {conf : RcvConf} (order : ByteOrder) (left : Leftover) {buf : Block}
    {flow : Flow} (ok : flow.Ok conf buf) (unsized : flow.river.msgSize ≤ 0)
    (enough : tpSzfieldLen ≤ flow.river.ipt + flow.remain) :
    ∃ sized,
      flow.Ready buf sized (announced order (flow.pending buf)) flow.river.nbytes flow.allocs ∧
      takeSize order left buf flow =
        if announced order (flow.pending buf) < 0 then
          .ok (.returned { sized.river with state := .reset } sized.allocs)
        else if flow.river.nbytes < announced order (flow.pending buf) then do
          return .goesOn (← growAccum left sized)
        else .ok (.goesOn sized) := by
  obtain ⟨sized, read, ready⟩ := readSize_ready order ok unsized enough
  refine ⟨sized, ready, ?_⟩
  have need := need_eq ok.flowing.ipt (ok.flowing.unsized unsized)
  rw [takeSize, if_pos unsized, need, if_neg (by omega), read, ← ready.msgSize, ← ready.nbytes]
  rfl

/-- A negative size resets the river, and its bytes are no longer looked at. -/
theorem takeSize_reset {conf : RcvConf} (order : ByteOrder) (left : Leftover) {buf : Block}
    {flow : Flow} (ok : flow.Ok conf buf) (unsized : flow.river.msgSize ≤ 0)
    (enough : tpSzfieldLen ≤ flow.river.ipt + flow.remain)
    (negative : announced order (flow.pending buf) < 0) :
    ∃ sized,
      flow.Ready buf sized (announced order (flow.pending buf)) flow.river.nbytes flow.allocs ∧
      takeSize order left buf flow =
        .ok (.returned { sized.river with state := .reset } flow.allocs) := by
  obtain ⟨sized, ready, taken⟩ := takeSize_read order left ok unsized enough
  exact ⟨sized, ready, by rw [taken, if_pos negative, ready.allocs]⟩

/-- The accumulator a message of some size is gathered in. -/
def Flow.roomFor (flow : Flow) (size : Int) : Int :=
  if flow.river.nbytes < size then size + 128 else flow.river.nbytes

/-- Accumulators allocated once a message of some size is gathered. -/
def Flow.madeFor (flow : Flow) (size : Int) : Nat :=
  if flow.river.nbytes < size then flow.allocs + 1 else flow.allocs

/-- A size which is not negative, and not too near the largest `int`, lets the pass go on. -/
theorem takeSize_ready {conf : RcvConf} (order : ByteOrder) (left : Leftover) {buf : Block}
    {flow : Flow} (ok : flow.Ok conf buf) (unsized : flow.river.msgSize ≤ 0)
    (enough : tpSzfieldLen ≤ flow.river.ipt + flow.remain)
    (size : Int) (reads : announced order (flow.pending buf) = size)
    (positive : 0 ≤ size) (fits : size ≤ flow.river.nbytes ∨ size + 128 ≤ intMax) :
    ∃ sized, takeSize order left buf flow = .ok (.goesOn sized) ∧
      flow.Ready buf sized size (flow.roomFor size) (flow.madeFor size) := by
  -- The accumulator is grown only if the size does not fit, and then by a sum that is an `int`.
  obtain ⟨sized, ready, taken⟩ := takeSize_read order left ok unsized enough
  rw [reads] at ready taken
  by_cases bigger : flow.river.nbytes < size
  · obtain ⟨grown, grows, grownReady⟩ :=
      growAccum_ready left ok ready bigger unsized (by omega)
    refine ⟨grown, ?_, by simpa [Flow.roomFor, Flow.madeFor, bigger] using grownReady⟩
    rw [taken, if_neg (by omega), if_pos bigger, grows]
    rfl
  · refine ⟨sized, ?_, by simpa [Flow.roomFor, Flow.madeFor, bigger] using ready⟩
    rw [taken, if_neg (by omega), if_neg bigger]

/-- A size too near the largest `int` overflows the size of the accumulator it asks for. -/
theorem takeSize_overflow {conf : RcvConf} (order : ByteOrder) (left : Leftover) {buf : Block}
    {flow : Flow} (ok : flow.Ok conf buf) (unsized : flow.river.msgSize ≤ 0)
    (enough : tpSzfieldLen ≤ flow.river.ipt + flow.remain)
    (size : Int) (reads : announced order (flow.pending buf) = size)
    (bigger : flow.river.nbytes < size) (huge : intMax < size + 128) :
    takeSize order left buf flow = .error .overflow := by
  -- The size does not fit the accumulator, and its sum with the 128 bytes of slack is no `int`.
  obtain ⟨sized, ready, taken⟩ := takeSize_read order left ok unsized enough
  rw [reads] at ready taken
  have usual := ok.flowing.usual
  have room := conf.usual_low
  have overflows : addInt sized.river.msgSize 128 = .error .overflow := by
    rw [ready.msgSize]
    exact addInt_overflow (by simp only [InInt]; omega)
  rw [taken, if_neg (by omega), if_pos bigger]
  simp only [growAccum, overflows, Bind.bind, Except.bind]

/-- Either nothing was captured by the first half of a pass, or the rest of a size field was. -/
theorem Flow.Ready.captured {buf : Block} {flow sized : Flow} {size room : Int} {made : Nat}
    (ready : flow.Ready buf sized size room made) :
    sized.river.ipt = flow.river.ipt ∨
      (flow.river.msgSize ≤ 0 ∧ sized.river.ipt = tpSzfieldLen) := by
  -- Bytes are captured only where the size was unknown and a part of its field had come before.
  rw [ready.ipt]
  by_cases kept : 0 < flow.river.msgSize ∨ flow.river.ipt = 0
  · rw [if_pos kept]
    exact Or.inl rfl
  · rw [if_neg kept]
    push Not at kept
    exact Or.inr ⟨kept.1, rfl⟩

/-- Captured and remaining bytes add up to the same number in both halves of a pass. -/
theorem Flow.Ready.total {buf : Block} {flow sized : Flow} {size room : Int} {made : Nat}
    (ready : flow.Ready buf sized size room made) :
    sized.river.ipt + sized.remain = flow.river.ipt + flow.remain := by
  rw [ready.remain]
  omega

/-- Where the bytes of a ready flow stand, as natural numbers. -/
theorem Flow.Ready.places {conf : RcvConf} {buf : Block} {flow sized : Flow} {size room : Int}
    {made : Nat} (ok : flow.Ok conf buf) (ready : flow.Ready buf sized size room made)
    (enough : 0 < flow.river.msgSize ∨ tpSzfieldLen ≤ flow.river.ipt + flow.remain) :
    ∃ ipt bidx remain : Nat, sized.river.ipt = ipt ∧ sized.bidx = bidx ∧
      sized.remain = remain ∧ bidx + remain ≤ buf.size := by
  -- The bytes of a size field that were taken from the buffer are at most those that it had.
  have iptLow := ok.flowing.ipt
  have bidxLow := ok.bidx
  have remainLow := ok.remain
  have inside := ok.inside
  have small := ok.flowing.unsized
  have iptIs := ready.ipt
  have bidxIs := ready.bidx
  have remainIs := ready.remain
  simp only [tpSzfieldLen] at enough small iptIs
  split at iptIs
  · exact ⟨sized.river.ipt.toNat, sized.bidx.toNat, sized.remain.toNat, by omega, by omega,
      by omega, by omega⟩
  · rename_i split
    push Not at split
    have captured := small split.1
    exact ⟨sized.river.ipt.toNat, sized.bidx.toNat, sized.remain.toNat, by omega, by omega,
      by omega, by omega⟩

/-- A count of bytes that an `int` can hold is what the second half of a pass computes. -/
theorem Flow.Ready.added {conf : RcvConf} {buf : Block} {flow sized : Flow} {size room : Int}
    {made : Nat} (ready : flow.Ready buf sized size room made) (ok : flow.Ok conf buf)
    (few : flow.river.ipt + flow.remain ≤ intMax) :
    addInt sized.river.ipt sized.remain = .ok (flow.river.ipt + flow.remain) := by
  -- What is captured and what remains add up as before.
  have iptLow := ok.flowing.ipt
  have remainLow := ok.remain
  rw [addInt_ok, ready.total]
  rw [ready.total]
  exact ⟨by simp only [intMin]; omega, few⟩

/-- More bytes than an `int` can count overflow before any of them is moved. -/
theorem moveBytes_overflow {conf : RcvConf} (left : Leftover) (fd : Int) {buf : Block}
    {flow sized : Flow} {size room : Int} {made : Nat}
    (ready : flow.Ready buf sized size room made)
    (many : intMax < flow.river.ipt + flow.remain) :
    moveBytes conf left fd buf sized = .error .overflow := by
  -- The sum is taken in the test of the loop, before a byte is moved.
  have overflows : addInt sized.river.ipt sized.remain = .error .overflow := by
    apply addInt_overflow
    rw [ready.total]
    simp only [InInt]
    omega
  simp only [moveBytes, overflows, Bind.bind, Except.bind]

/-- While the message is not whole, all bytes at hand are moved to the accumulator. -/
theorem moveBytes_part {conf : RcvConf} (left : Leftover) (fd : Int) {buf : Block}
    {flow sized : Flow} {size room : Int} {made : Nat} (ok : flow.Ok conf buf)
    (ready : flow.Ready buf sized size room made)
    (enough : 0 < flow.river.msgSize ∨ tpSzfieldLen ≤ flow.river.ipt + flow.remain)
    (few : flow.river.ipt + flow.remain ≤ intMax)
    (part : flow.river.ipt + flow.remain < size) (fits : size ≤ room) :
    ∃ accum : Block,
      moveBytes conf left fd buf sized = .ok ({ sized with
        river := { sized.river with
          accum := some accum
          ipt := flow.river.ipt + flow.remain }
        remain := 0 }, none) ∧
      (accum.size : Int) = room ∧
      accum.slice 0 (flow.pending buf).length = flow.pending buf := by
  -- The bytes at hand are fewer than those missing, so that the copy ends inside the accumulator.
  obtain ⟨ipt, bidx, remain, iptIs, bidxIs, remainIs, inside⟩ := ready.places ok enough
  obtain ⟨accum, held, accumSize⟩ := ready.held
  have total := ready.total
  have added := ready.added ok few
  rw [iptIs, remainIs] at added
  have copied := River.grab_ok buf bidx remain held iptIs
    (by omega) inside
  have keep : sized.river.drop = false := ready.drop.trans ok.flowing.keep
  refine ⟨accum.overlay ipt buf bidx remain, ?_, by simpa using accumSize, ?_⟩
  · simp only [moveBytes, iptIs, remainIs, added, Bind.bind, Except.bind, ready.msgSize,
      if_pos part, keep, Bool.false_eq_true, if_false, bidxIs, copied, Pure.pure, Except.pure]
  · rw [← ready.pending]
    simp only [Flow.pending, held, Option.getD_some, iptIs, bidxIs, remainIs, Int.toNat_natCast,
      List.length_append, Block.slice_length]
    exact overlay_captured accum buf ipt bidx remain

/-- A whole message is handed over, and the flow goes on behind it with a fresh accumulator. -/
theorem moveBytes_whole {conf : RcvConf} (left : Leftover) (fd : Int) {buf : Block}
    {flow sized : Flow} {size room : Int} {made : Nat} (ok : flow.Ok conf buf)
    (ready : flow.Ready buf sized size room made)
    (enough : 0 < flow.river.msgSize ∨ tpSzfieldLen ≤ flow.river.ipt + flow.remain)
    (few : flow.river.ipt + flow.remain ≤ intMax)
    (whole : size ≤ flow.river.ipt + flow.remain) (fits : size ≤ room)
    (ahead : sized.river.ipt ≤ size) :
    ∃ (rawMsg : Block) (moved : Flow),
      moveBytes conf left fd buf sized = .ok (moved, some ⟨fd, rawMsg, room, size⟩) ∧
      moved = {
        river := { sized.river with
          nbytes := conf.usual
          accum := some (left.malloc made conf.usual)
          msgSize := -1
          ipt := 0 }
        allocs := made + 1
        bidx := sized.bidx + (size - sized.river.ipt)
        remain := flow.river.ipt + flow.remain - size } ∧
      (rawMsg.size : Int) = room ∧
      rawMsg.slice 0 size.toNat = (flow.pending buf).take size.toNat ∧
      moved.pending buf = (flow.pending buf).drop size.toNat := by
  -- The missing bytes complete the message; what is behind them in the buffer is the rest.
  obtain ⟨ipt, bidx, remain, iptIs, bidxIs, remainIs, inside⟩ := ready.places ok enough
  obtain ⟨accum, held, accumSize⟩ := ready.held
  have total := ready.total
  have added := ready.added ok few
  rw [iptIs, remainIs] at added
  obtain ⟨need, needIs⟩ : ∃ need : Nat, size - (ipt : Int) = need :=
    Int.eq_ofNat_of_zero_le (by omega)
  have taken : subInt size (ipt : Int) = .ok (need : Int) := by
    rw [subInt_ok, needIs]
    simp only [InInt, intMin]
    omega
  have copied := River.grab_ok buf bidx need held iptIs
    (by omega) (by omega)
  have keep : sized.river.drop = false := ready.drop.trans ok.flowing.keep
  have sizeIs : size.toNat = ipt + need := by omega
  have pendingIs : flow.pending buf = accum.slice 0 ipt ++ buf.slice bidx remain := by
    rw [← ready.pending]
    simp only [Flow.pending, held, Option.getD_some, iptIs, bidxIs, remainIs, Int.toNat_natCast]
  refine ⟨accum.overlay ipt buf bidx need, _, ?_, rfl, by simpa using accumSize, ?_, ?_⟩
  · have rest : sized.remain - (need : Int) = flow.river.ipt + flow.remain - size := by omega
    simp only [moveBytes, iptIs, remainIs, added, Bind.bind, Except.bind, ready.msgSize,
      if_neg (by omega : ¬ flow.river.ipt + flow.remain < size), taken, keep, Bool.false_eq_true,
      if_false, bidxIs, copied, Pure.pure, Except.pure, Option.getD_some, ready.nbytes,
      ready.allocs, ← rest, needIs]
  · rw [sizeIs, overlay_captured, pendingIs, List.take_append, Block.slice_length,
      Nat.add_sub_cancel_left, List.take_of_length_le (by simp),
      Block.slice_take _ _ _ _ (by omega)]
  · have start : (sized.bidx + (size - sized.river.ipt)).toNat = bidx + need := by omega
    have count : (flow.river.ipt + flow.remain - size).toNat = remain - need := by omega
    rw [pendingIs, sizeIs, List.drop_append, Block.slice_length, Nat.add_sub_cancel_left,
      List.drop_of_length_le (by simp), List.nil_append]
    simp only [Flow.pending, start, count]
    rw [← Block.slice_drop_take buf bidx remain need (remain - need) (by omega),
      List.take_of_length_le (by simp)]
    simp

/-- A size smaller than what was captured asks for a copy of negative length. -/
theorem moveBytes_negative {conf : RcvConf} (left : Leftover) (fd : Int) {buf : Block}
    {flow sized : Flow} {size room : Int} {made : Nat} (ok : flow.Ok conf buf)
    (ready : flow.Ready buf sized size room made)
    (enough : 0 < flow.river.msgSize ∨ tpSzfieldLen ≤ flow.river.ipt + flow.remain)
    (few : flow.river.ipt + flow.remain ≤ intMax) (low : 0 ≤ size)
    (behind : size < sized.river.ipt) :
    moveBytes conf left fd buf sized = .error .range := by
  -- What is missing is negative here, and becomes the length of a `memcpy`.
  obtain ⟨ipt, bidx, remain, iptIs, bidxIs, remainIs, inside⟩ := ready.places ok enough
  obtain ⟨accum, held, accumSize⟩ := ready.held
  have total := ready.total
  have added := ready.added ok few
  rw [iptIs, remainIs] at added
  have taken : subInt size (ipt : Int) = .ok (size - ipt) :=
    subInt_ok (by simp only [InInt, intMin, intMax] at few ⊢; omega)
  have keep : sized.river.drop = false := ready.drop.trans ok.flowing.keep
  have copied : sized.river.grab buf bidx (size - ipt) = .error .range := by
    simp only [River.grab, held, iptIs]
    rw [Block.memcpy_range (by omega)]
    rfl
  simp only [moveBytes, iptIs, remainIs, added, Bind.bind, Except.bind, ready.msgSize,
    if_neg (by omega : ¬ flow.river.ipt + flow.remain < size), taken, keep, Bool.false_eq_true,
    if_false, bidxIs, copied]

end Rmr
