import Rmr.Proofs.Receive.Pass

/-! Everything a pass of the data callback can do to the receive side, said once. -/

namespace Rmr

/-- The loop variables of the callback in progress. -/
def Rcv.flow (conf : RcvConf) (rcv : Rcv) (cb : DataCb) : Flow :=
  ⟨rcv.river conf cb.fd, rcv.allocs, cb.bidx, cb.remain⟩

/-- When a pass can compute all it computes, and copy all it copies.

A size field that arrived in two parts must not announce less than itself, a size which needs
a larger accumulator must leave room for that one's size, and an `int` must be able to count the
bytes captured and remaining. -/
def Flow.InBounds (order : ByteOrder) (buf : Block) (flow : Flow) : Prop :=
  let size := announced order (flow.pending buf)
  let count := flow.river.ipt + flow.remain
  (flow.river.msgSize ≤ 0 → tpSzfieldLen ≤ count → 0 ≤ size →
    (0 < flow.river.ipt → tpSzfieldLen ≤ size) ∧
      (size ≤ flow.river.nbytes ∨ size + 128 ≤ intMax)) ∧
  (0 < flow.river.msgSize ∨ (tpSzfieldLen ≤ count ∧ 0 ≤ size) → count ≤ intMax)

/-- The outcomes of one pass, each with all that is known when it is taken. -/
inductive PassCase (conf : RcvConf) (left : Leftover) (rcv : Rcv) (cb : DataCb) :
    Except Fault Rcv → Prop where
  /-- Less than a size field is at hand: it is captured, and the callback returns. -/
  | short (accum : Block) (unsized : (rcv.river conf cb.fd).msgSize ≤ 0)
      (few : (rcv.river conf cb.fd).ipt + cb.remain < tpSzfieldLen)
      (size : (accum.size : Int) = (rcv.river conf cb.fd).nbytes)
      (bytes : accum.slice 0 ((rcv.flow conf cb).pending cb.buf).length =
        (rcv.flow conf cb).pending cb.buf) :
      PassCase conf left rcv cb (.ok { rcv.setRiver conf cb.fd
        { rcv.river conf cb.fd with
          accum := some accum
          ipt := (rcv.river conf cb.fd).ipt + cb.remain } with
        allocs := rcv.allocs
        busy := none })
  /-- The announced size is negative: the river is reset, and the callback returns. -/
  | reset (sized : Flow) (unsized : (rcv.river conf cb.fd).msgSize ≤ 0)
      (enough : tpSzfieldLen ≤ (rcv.river conf cb.fd).ipt + cb.remain)
      (negative : announced conf.order ((rcv.flow conf cb).pending cb.buf) < 0)
      (ready : (rcv.flow conf cb).Ready cb.buf sized
        (announced conf.order ((rcv.flow conf cb).pending cb.buf))
        (rcv.river conf cb.fd).nbytes rcv.allocs) :
      PassCase conf left rcv cb (.ok { rcv.setRiver conf cb.fd
        { sized.river with state := .reset } with
        allocs := rcv.allocs
        busy := none })
  /-- The message is not yet whole: all bytes are captured, and the loop is over. -/
  | part (sized : Flow) (accum : Block) (size : Int)
      (expects : (rcv.flow conf cb).expects conf.order cb.buf = size)
      (enough : 0 < (rcv.river conf cb.fd).msgSize ∨
        tpSzfieldLen ≤ (rcv.river conf cb.fd).ipt + cb.remain)
      (bounded : (rcv.flow conf cb).InBounds conf.order cb.buf)
      (more : (rcv.river conf cb.fd).ipt + cb.remain < size)
      (ready : (rcv.flow conf cb).Ready cb.buf sized size
        ((rcv.flow conf cb).roomFor size) ((rcv.flow conf cb).madeFor size))
      (held : (accum.size : Int) = (rcv.flow conf cb).roomFor size)
      (bytes : accum.slice 0 ((rcv.flow conf cb).pending cb.buf).length =
        (rcv.flow conf cb).pending cb.buf) :
      PassCase conf left rcv cb (.ok { rcv.setRiver conf cb.fd
        { sized.river with
          accum := some accum
          ipt := (rcv.river conf cb.fd).ipt + cb.remain } with
        allocs := (rcv.flow conf cb).madeFor size
        busy := none })
  /-- The message is whole: it is handed over, and the loop goes on behind it. -/
  | whole (sized moved : Flow) (rawMsg : Block) (size : Int)
      (expects : (rcv.flow conf cb).expects conf.order cb.buf = size)
      (enough : 0 < (rcv.river conf cb.fd).msgSize ∨
        tpSzfieldLen ≤ (rcv.river conf cb.fd).ipt + cb.remain)
      (bounded : (rcv.flow conf cb).InBounds conf.order cb.buf)
      (low : 0 ≤ size) (done : size ≤ (rcv.river conf cb.fd).ipt + cb.remain)
      (ready : (rcv.flow conf cb).Ready cb.buf sized size
        ((rcv.flow conf cb).roomFor size) ((rcv.flow conf cb).madeFor size))
      (ahead : sized.river.ipt ≤ size)
      (moves : moved = {
        river := { sized.river with
          nbytes := conf.usual
          accum := some (left.malloc ((rcv.flow conf cb).madeFor size) conf.usual)
          msgSize := -1
          ipt := 0 }
        allocs := (rcv.flow conf cb).madeFor size + 1
        bidx := sized.bidx + (size - sized.river.ipt)
        remain := (rcv.river conf cb.fd).ipt + cb.remain - size })
      (held : (rawMsg.size : Int) = (rcv.flow conf cb).roomFor size)
      (bytes : rawMsg.slice 0 size.toNat =
        ((rcv.flow conf cb).pending cb.buf).take size.toNat)
      (rest : moved.pending cb.buf = ((rcv.flow conf cb).pending cb.buf).drop size.toNat) :
      PassCase conf left rcv cb (.ok { rcv.setRiver conf cb.fd moved.river with
        allocs := moved.allocs
        calls := rcv.calls ++ [⟨cb.fd, rawMsg, (rcv.flow conf cb).roomFor size, size⟩]
        busy := if 0 < moved.remain then
          some { cb with bidx := moved.bidx, remain := moved.remain } else none })
  /-- Something could not be computed or copied. -/
  | fault (fault : Fault) (outside : ¬ (rcv.flow conf cb).InBounds conf.order cb.buf) :
      PassCase conf left rcv cb (.error fault)

/-- The accumulator of a message is never smaller than the message. -/
theorem Flow.le_roomFor (flow : Flow) (size : Int) : size ≤ flow.roomFor size := by
  unfold roomFor
  split <;> omega

/-- The accumulator of a message is the one at hand, or one made for a bigger message. -/
theorem Flow.roomFor_cases (flow : Flow) (size : Int) :
    (size ≤ flow.river.nbytes ∧ flow.roomFor size = flow.river.nbytes) ∨
      (flow.river.nbytes < size ∧ flow.roomFor size = size + 128) := by
  -- The accumulator is replaced only where the message is bigger.
  by_cases bigger : flow.river.nbytes < size
  · exact Or.inr ⟨bigger, by rw [roomFor, if_pos bigger]⟩
  · exact Or.inl ⟨by omega, by rw [roomFor, if_neg bigger]⟩

/-- Changing a river makes no call. -/
@[simp] theorem Rcv.setRiver_calls (conf : RcvConf) (rcv : Rcv) (fd : Int) (river : River) :
    (rcv.setRiver conf fd river).calls = rcv.calls := by
  unfold setRiver
  split <;> rfl

/-- The second half of a pass, once the first half has made the flow ready. -/
theorem Rcv.pass_ready {conf : RcvConf} {left : Leftover} {rcv : Rcv} {cb : DataCb}
    {sized : Flow} {size : Int} (ok : (rcv.flow conf cb).Ok conf cb.buf)
    (taken : takeSize conf.order left cb.buf (rcv.flow conf cb) = .ok (.goesOn sized))
    (expects : (rcv.flow conf cb).expects conf.order cb.buf = size)
    (enough : 0 < (rcv.river conf cb.fd).msgSize ∨
      tpSzfieldLen ≤ (rcv.river conf cb.fd).ipt + cb.remain)
    (low : 0 ≤ size)
    (room : size ≤ (rcv.river conf cb.fd).nbytes ∨ size + 128 ≤ intMax)
    (ready : (rcv.flow conf cb).Ready cb.buf sized size
      ((rcv.flow conf cb).roomFor size) ((rcv.flow conf cb).madeFor size)) :
    PassCase conf left rcv cb (rcv.pass conf left cb) := by
  have runs : rcv.pass conf left cb = (do
      let out ← moveBytes conf left cb.fd cb.buf sized
      return { rcv.setRiver conf cb.fd out.1.river with
        allocs := out.1.allocs
        calls := rcv.calls ++ out.2.toList
        busy := if 0 < out.1.remain then
          some { cb with bidx := out.1.bidx, remain := out.1.remain } else none }) := by
    unfold pass
    simp only [Rcv.flow] at taken
    simp only [taken, Bind.bind, Except.bind]
  have fits := (rcv.flow conf cb).le_roomFor size
  have counted : (rcv.flow conf cb).InBounds conf.order cb.buf →
      (rcv.river conf cb.fd).ipt + cb.remain ≤ intMax := by
    intro bounded
    apply bounded.2
    rcases enough with known | nine
    · exact Or.inl known
    · by_cases known : 0 < (rcv.river conf cb.fd).msgSize
      · exact Or.inl known
      · refine Or.inr ⟨nine, ?_⟩
        have unknown : (rcv.flow conf cb).river.msgSize ≤ 0 := by simp only [Rcv.flow]; omega
        rw [Flow.expects, if_pos unknown] at expects
        omega
  by_cases few : (rcv.river conf cb.fd).ipt + cb.remain ≤ intMax
  swap
  · -- The sum of captured and remaining bytes is no `int`.
    rw [runs, moveBytes_overflow left cb.fd ready (by simpa [Rcv.flow] using few)]
    exact .fault _ fun bounded => few (counted bounded)
  by_cases ahead : sized.river.ipt ≤ size
  swap
  · -- A size field in two parts announced less than itself.
    rw [runs, moveBytes_negative left cb.fd ok ready enough few low (by omega)]
    refine .fault _ fun bounded => ahead ?_
    have iptIs := ready.ipt
    split at iptIs
    · rename_i plain
      rcases plain with known | fresh
      · have sized' := (ok.flowing.sized known).1
        rw [Flow.expects, if_neg (by omega)] at expects
        omega
      · omega
    · rename_i split
      push Not at split
      have unknown := split.1
      rw [Flow.expects, if_pos unknown] at expects
      have iptLow := ok.flowing.ipt
      have nine : (tpSzfieldLen : Int) ≤ (rcv.flow conf cb).river.ipt +
          (rcv.flow conf cb).remain := by
        rcases enough with known | nine
        · simp only [Rcv.flow] at unknown
          omega
        · exact nine
      have announcedLow : 0 ≤ announced conf.order ((rcv.flow conf cb).pending cb.buf) := by omega
      have least := (bounded.1 unknown nine announcedLow).1 (by omega)
      omega
  have bounded : (rcv.flow conf cb).InBounds conf.order cb.buf := by
    refine ⟨fun unknown nine announcedLow => ?_, fun _ => few⟩
    rw [Flow.expects, if_pos unknown] at expects
    refine ⟨fun begun => ?_, by rw [expects]; exact room⟩
    have iptIs := ready.ipt
    rw [if_neg (by omega)] at iptIs
    omega
  by_cases more : (rcv.river conf cb.fd).ipt + cb.remain < size
  · obtain ⟨accum, moves, held, bytes⟩ := moveBytes_part left cb.fd ok ready
      enough few more fits
    have made := ready.allocs
    rw [runs, moves]
    simp only [Bind.bind, Except.bind, Pure.pure, Except.pure, made, Option.toList_none,
      List.append_nil, Int.lt_irrefl, if_false]
    have same := rcv.setRiver_calls conf cb.fd
      { sized.river with accum := some accum, ipt := (rcv.flow conf cb).river.ipt +
        (rcv.flow conf cb).remain }
    rw [← same]
    exact .part sized accum size expects enough bounded more ready held bytes
  · obtain ⟨rawMsg, moved, moves, movedIs, held, bytes, rest⟩ :=
      moveBytes_whole left cb.fd ok ready enough few (not_lt.mp more) fits
        ahead
    rw [runs, moves]
    simp only [Bind.bind, Except.bind, Pure.pure, Except.pure, Option.toList_some]
    exact .whole sized moved rawMsg size expects enough bounded low (by omega) ready ahead movedIs
      held bytes rest

/-- Every pass of the callback in progress ends in one of the cases. -/
theorem Rcv.pass_cases {conf : RcvConf} (left : Leftover) {rcv : Rcv} {cb : DataCb}
    (ok : (rcv.flow conf cb).Ok conf cb.buf) :
    PassCase conf left rcv cb (rcv.pass conf left cb) := by
  by_cases known : 0 < (rcv.river conf cb.fd).msgSize
  · -- The size was read in an earlier pass.
    have fits := (ok.flowing.sized known).2
    obtain ⟨taken, ready⟩ := takeSize_known conf.order left ok known
    refine pass_ready ok taken (by rw [Flow.expects, if_neg (by simp only [Rcv.flow]; omega)])
      (Or.inl known) (by simp only [Rcv.flow]; omega) (Or.inl fits) ?_
    have smaller : ¬ (rcv.flow conf cb).river.nbytes < (rcv.flow conf cb).river.msgSize := by
      omega
    simpa only [Flow.roomFor, Flow.madeFor, if_neg smaller] using ready
  have unsized : (rcv.flow conf cb).river.msgSize ≤ 0 := by simp only [Rcv.flow]; omega
  by_cases nine : (tpSzfieldLen : Int) ≤ (rcv.river conf cb.fd).ipt + cb.remain
  swap
  · obtain ⟨accum, taken, size, bytes⟩ := takeSize_short conf.order left ok
      unsized (by simp only [Rcv.flow]; omega)
    have runs : rcv.pass conf left cb = .ok { rcv.setRiver conf cb.fd
        { rcv.river conf cb.fd with
          accum := some accum
          ipt := (rcv.river conf cb.fd).ipt + cb.remain } with
        allocs := rcv.allocs
        busy := none } := by
      unfold pass
      simp only [Rcv.flow] at taken
      simp only [taken, Bind.bind, Except.bind, Pure.pure, Except.pure]
    rw [runs]
    exact .short accum unsized (by omega) size bytes
  generalize sizeIs : announced conf.order ((rcv.flow conf cb).pending cb.buf) = size
  by_cases negative : size < 0
  · obtain ⟨sized, ready, taken⟩ := takeSize_reset conf.order left ok unsized
      nine (by omega)
    have runs : rcv.pass conf left cb = .ok { rcv.setRiver conf cb.fd
        { sized.river with state := .reset } with
        allocs := rcv.allocs
        busy := none } := by
      unfold pass
      simp only [Rcv.flow] at taken
      simp only [taken, Bind.bind, Except.bind, Pure.pure, Except.pure]
    rw [runs]
    exact .reset sized unsized nine (by omega) ready
  by_cases fits : size ≤ (rcv.flow conf cb).river.nbytes ∨ size + 128 ≤ intMax
  · obtain ⟨sized, taken, ready⟩ := takeSize_ready conf.order left ok unsized
      nine size sizeIs (by omega) fits
    exact pass_ready ok taken (by rw [Flow.expects, if_pos unsized, sizeIs]) (Or.inr nine)
      (by omega) fits ready
  · -- The size of the larger accumulator is no `int`.
    push Not at fits
    have overflows := takeSize_overflow conf.order left ok unsized nine size
      sizeIs fits.1 fits.2
    have runs : rcv.pass conf left cb = .error .overflow := by
      unfold pass
      simp only [Rcv.flow] at overflows
      simp only [overflows, Bind.bind, Except.bind]
    rw [runs]
    refine .fault _ fun bounded => ?_
    have room := (bounded.1 unsized nine (by omega)).2
    omega

end Rmr
