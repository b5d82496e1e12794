import Rmr.Proofs.Receive.Bounds

/-! The receive side does to memory what its purpose asks for connections and frames. -/

namespace Rmr

/-- A river in memory and what it shows of its connection. -/
def River.Shows (conf : RcvConf) (river : River) : RiverView → Prop
  | .new => river.state = .new
  | .reset => river.state = .reset
  | .flow bytes => river.state = .good ∧
      (river.accum.getD (Block.ofList [])).slice 0 river.ipt.toNat = bytes ∧
      (river.msgSize ≤ 0 → river.nbytes = conf.usual) ∧
      (0 < river.msgSize → tpSzfieldLen ≤ bytes.length ∧
        river.msgSize = announced conf.order bytes ∧ river.nbytes = conf.room river.msgSize)

/-- A call and the frame it was made for. -/
structure Call.Shows (conf : RcvConf) (call : Call) (frame : Int × List UInt8) : Prop where
  fd : call.fd = frame.1
  received : call.received = frame.2.length
  msgSize : call.msgSize = conf.room frame.2.length
  size : (call.rawMsg.size : Int) = call.msgSize
  bytes : call.rawMsg.slice 0 frame.2.length = frame.2

/-- The callback in progress and the bytes it has yet to take in. -/
def DataCb.Shows : Option DataCb → Option (Int × List UInt8) → Prop
  | none, none => True
  | some cb, some (fd, rest) => cb.fd = fd ∧ cb.buf.slice cb.bidx.toNat cb.remain.toNat = rest
  | _, _ => False

/-- The receive side in memory and what it shows. -/
structure Rcv.Shows (conf : RcvConf) (rcv : Rcv) (stage : Stage) : Prop where
  ok : rcv.Ok conf
  rivers : ∀ fd, (rcv.river conf fd).Shows conf (stage.rivers fd)
  busy : DataCb.Shows rcv.busy stage.busy
  calls : List.Forall₂ (Call.Shows conf) rcv.calls stage.frames

/-- The size announced by bytes is that announced by nine of them or more. -/
theorem announced_append (order : ByteOrder) {held : List UInt8} (rest : List UInt8)
    (nine : tpSzfieldLen ≤ held.length) :
    announced order (held ++ rest) = announced order held := by
  -- The first nine bytes are the same with more behind them.
  simp only [tpSzfieldLen] at nine
  have read : (Block.ofList held).slice 0 9 = (held ++ rest).take 9 := by
    rw [Block.ofList_slice held 0 9 (by omega), List.drop_zero,
      List.take_append_of_le_length nine]
  rw [← announced_eq order (by rw [List.length_append]; omega) read, announced]

section
variable {conf : RcvConf} {buf : Block} {flow : Flow} {held rest : List UInt8}

/-- What is pending is what the river holds and what is arriving. -/
theorem Flow.pending_shows (river : flow.river.Shows conf (.flow held))
    (arriving : buf.slice flow.bidx.toNat flow.remain.toNat = rest) :
    flow.pending buf = held ++ rest := by
  rw [Flow.pending, river.2.1, arriving]

/-- There are as many bytes as were captured and remain. -/
theorem Flow.Ok.length_shows (ok : flow.Ok conf buf)
    (river : flow.river.Shows conf (.flow held))
    (arriving : buf.slice flow.bidx.toNat flow.remain.toNat = rest) :
    ((held ++ rest).length : Int) = flow.river.ipt + flow.remain := by
  rw [← Flow.pending_shows river arriving]
  exact Flow.pending_length buf ok.flowing.ipt (Int.le_of_lt ok.remain)

/-- As many bytes are held as were captured. -/
theorem Flow.Ok.held_length (ok : flow.Ok conf buf)
    (river : flow.river.Shows conf (.flow held)) : (held.length : Int) = flow.river.ipt := by
  have iptLow := ok.flowing.ipt
  rw [← river.2.1, Block.slice_length]
  omega

/-- The size expected is the one announced, whether it was read before or not. -/
theorem Flow.expects_shows (river : flow.river.Shows conf (.flow held))
    (arriving : buf.slice flow.bidx.toNat flow.remain.toNat = rest) :
    flow.expects conf.order buf = announced conf.order (held ++ rest) := by
  -- A size that is known was read from the same nine bytes.
  by_cases known : 0 < flow.river.msgSize
  · obtain ⟨nine, size, _⟩ := river.2.2.2 known
    rw [flow.expects_known _ _ known, size, announced_append conf.order rest nine]
  · rw [flow.expects_unsized _ _ (by omega), Flow.pending_shows river arriving]

/-- A pass with a size field at hand and no negative size is in bounds exactly when the size is
fit. -/
theorem Flow.Ok.inBounds_shows (ok : flow.Ok conf buf)
    (river : flow.river.Shows conf (.flow held))
    (arriving : buf.slice flow.bidx.toNat flow.remain.toNat = rest) :
    flow.InBounds conf.order buf ↔
      ¬ (tpSzfieldLen ≤ (held ++ rest).length ∧ 0 ≤ announced conf.order (held ++ rest) ∧
        Unfit conf held rest) := by
  have length := ok.length_shows river arriving
  have heldLength := ok.held_length river
  have pending := Flow.pending_shows river arriving
  have begun : held ≠ [] ↔ 0 < flow.river.ipt := by
    rw [← List.length_pos_iff]
    omega
  unfold Flow.InBounds Unfit
  simp only [pending, begun, length]
  have sizeIs := Flow.expects_shows river arriving
  generalize announced conf.order (held ++ rest) = size at sizeIs ⊢
  simp only [tpSzfieldLen] at *
  have usual := ok.flowing.usual
  by_cases known : 0 < flow.river.msgSize
  · -- The size was read before, when it was found fit.
    obtain ⟨nine, _, room⟩ := river.2.2.2 known
    have within := ok.flowing.sized known
    have fits := ok.flowing.fits
    rw [flow.expects_known _ _ known] at sizeIs
    have wide : ¬ (conf.usual < size ∧ intMax < size + 128) := by
      rintro ⟨larger, huge⟩
      rw [RcvConf.room, if_pos (by omega)] at room
      omega
    simp only [tpSzfieldLen] at nine
    constructor
    · rintro ⟨_, count⟩ ⟨_, low, unfit⟩
      have := count (Or.inl known)
      omega
    · intro fit
      refine ⟨fun unsized => by omega, fun _ => ?_⟩
      by_contra many
      exact fit ⟨by omega, by omega, by omega⟩
  · -- The size is read now.
    have unsized : flow.river.msgSize ≤ 0 := by omega
    have nbytes := river.2.2.1 unsized
    constructor
    · rintro ⟨sizes, count⟩ ⟨nine, low, unfit⟩
      have fit := sizes unsized (by omega) low
      have few := count (Or.inr ⟨by omega, low⟩)
      omega
    · intro fit
      refine ⟨fun _ nine low => ⟨fun begun => ?_, ?_⟩, ?_⟩
      · by_contra small
        exact fit ⟨by omega, low, by omega⟩
      · by_contra wide
        exact fit ⟨by omega, low, by omega⟩
      · rintro (known | ⟨nine, low⟩)
        · omega
        · by_contra many
          exact fit ⟨by omega, low, by omega⟩

end

/-- The frame that comes next, from what a pass finds. -/
theorem nextFrame_waits_short {conf : RcvConf} {held rest : List UInt8}
    (few : (held ++ rest).length < tpSzfieldLen) : nextFrame conf held rest = .waits := by
  rw [nextFrame, if_pos few]

/-- A negative size resets the connection. -/
theorem nextFrame_resets {conf : RcvConf} {held rest : List UInt8}
    (nine : tpSzfieldLen ≤ (held ++ rest).length)
    (negative : announced conf.order (held ++ rest) < 0) :
    nextFrame conf held rest = .resets := by
  rw [nextFrame, if_neg (by omega), if_pos negative]

/-- A size which is unfit fails. -/
theorem nextFrame_fails {conf : RcvConf} {held rest : List UInt8}
    (unfit : tpSzfieldLen ≤ (held ++ rest).length ∧ 0 ≤ announced conf.order (held ++ rest) ∧
      Unfit conf held rest) : nextFrame conf held rest = .fails := by
  obtain ⟨nine, low, unfit⟩ := unfit
  rw [nextFrame, if_neg (by omega), if_neg (by omega), if_pos unfit]

/-- A size which is fit is waited for, or it makes a frame. -/
theorem nextFrame_fit {conf : RcvConf} {held rest : List UInt8} {size : Int}
    (nine : tpSzfieldLen ≤ (held ++ rest).length)
    (sizeIs : announced conf.order (held ++ rest) = size) (low : 0 ≤ size)
    (fit : ¬ (tpSzfieldLen ≤ (held ++ rest).length ∧
      0 ≤ announced conf.order (held ++ rest) ∧ Unfit conf held rest)) :
    nextFrame conf held rest =
      if (held ++ rest).length < size then .waits else .whole size.toNat := by
  have unfit : ¬ Unfit conf held rest := fun unfit => fit ⟨nine, by omega, unfit⟩
  rw [nextFrame, if_neg (by omega), if_neg (by omega), if_neg unfit, sizeIs]

/-- The accumulator found for a size is the one the size asks for. -/
theorem Flow.roomFor_shows {conf : RcvConf} {buf : Block} {flow : Flow} {held : List UInt8}
    {size : Int} (ok : flow.Ok conf buf) (river : flow.river.Shows conf (.flow held))
    (expects : flow.expects conf.order buf = size) : flow.roomFor size = conf.room size := by
  -- The room that is shown is that of the accumulator, which is grown if the size asks for it.
  by_cases known : 0 < flow.river.msgSize
  · obtain ⟨_, _, room⟩ := river.2.2.2 known
    have within := (ok.flowing.sized known).2
    rw [flow.expects_known _ _ known] at expects
    rw [Flow.roomFor, if_neg (by omega), room, expects]
  · rw [Flow.roomFor, river.2.2.1 (by omega), RcvConf.room]

/-- What is shown once one river was changed and the callback has ended or gone on. -/
theorem Rcv.Shows.update {conf : RcvConf} {rcv next : Rcv} {stage : Stage} {fd : Int}
    {river : River} {view : RiverView} {frames : List (Int × List UInt8)}
    {busy : Option (Int × List UInt8)} (shows_ : rcv.Shows conf stage) (ok : next.Ok conf)
    (rivers : ∀ other, next.river conf other =
      if other = fd then river else rcv.river conf other)
    (shown : river.Shows conf view) (busyShows : DataCb.Shows next.busy busy)
    (calls : List.Forall₂ (Call.Shows conf) next.calls frames) :
    next.Shows conf ⟨Function.update stage.rivers fd view, frames, busy⟩ := by
  -- Only the river of the descriptor has changed, which is shown as the new view.
  refine ⟨ok, fun other => ?_, busyShows, calls⟩
  rw [rivers]
  by_cases same : other = fd
  · subst same
    simpa using shown
  · simpa [same] using shows_.rivers other

/-- A pass over memory is a look for the next frame. -/
theorem Rcv.Shows.pass {conf : RcvConf} (left : Leftover) {rcv : Rcv} {stage : Stage}
    {cb : DataCb} {rest : List UInt8} (shows_ : rcv.Shows conf stage)
    (busy : rcv.busy = some cb) (arriving : cb.buf.slice cb.bidx.toNat cb.remain.toNat = rest) :
    Agree (Rcv.Shows conf) (rcv.pass conf left cb) (stage.pass conf cb.fd rest) := by
  have flowOk := shows_.ok.flow busy
  have good := (shows_.ok.busy cb busy).1
  -- The river in use shows the bytes that it holds.
  obtain ⟨held, view⟩ : ∃ held, stage.rivers cb.fd = .flow held := by
    have shown := shows_.rivers cb.fd
    cases view : stage.rivers cb.fd with
    | new => simp [view, River.Shows, good] at shown
    | reset => simp [view, River.Shows, good] at shown
    | flow held => exact ⟨held, rfl⟩
  have river : (rcv.flow conf cb).river.Shows conf (.flow held) := view ▸ shows_.rivers cb.fd
  have length := flowOk.length_shows river arriving
  have pending := Flow.pending_shows river arriving
  have expected := Flow.expects_shows river arriving
  have bounds := flowOk.inBounds_shows river arriving
  have heldIs : (stage.rivers cb.fd).held = held := by rw [view]; rfl
  have nineOf : 0 < (rcv.river conf cb.fd).msgSize ∨
      (tpSzfieldLen : Int) ≤ (rcv.river conf cb.fd).ipt + cb.remain →
      tpSzfieldLen ≤ (held ++ rest).length := by
    rintro (known | nine)
    · have := (river.2.2.2 known).1
      rw [List.length_append]
      omega
    · simp only [Rcv.flow] at length
      omega
  simp only [Stage.pass, heldIs]
  have cases := Rcv.pass_cases left flowOk
  cases passed : rcv.pass conf left cb with
  | error fault =>
    rw [passed] at cases
    cases cases with
    | fault _ outside =>
      rw [nextFrame_fails (not_not.mp (mt bounds.mpr outside))]
      exact .fault fault
  | ok next =>
    have nextOk := Rcv.pass_ok shows_.ok busy passed
    rw [passed] at cases
    cases cases with
    | short accum unsized few size bytes =>
      rw [nextFrame_waits_short (by simp only [Rcv.flow] at length; omega)]
      refine .ok (shows_.update nextOk (fun other => rcv.river_setRiver conf cb.fd other _) ?_
        trivial (by simpa using shows_.calls))
      rw [pending] at bytes
      refine ⟨good, ?_, fun _ => river.2.2.1 unsized, fun known => absurd unsized ?_⟩
      · simp only [Rcv.flow] at length
        simp only [Option.getD_some]
        rw [← length, Int.toNat_natCast]
        exact bytes
      · exact not_le.mpr known
    | reset sized unsized enough negative ready =>
      rw [pending] at negative
      rw [nextFrame_resets (nineOf (Or.inr enough)) negative]
      exact .ok (shows_.update nextOk (fun other => rcv.river_setRiver conf cb.fd other _) rfl
        trivial (by simpa using shows_.calls))
    | part sized accum size expects enough bounded more ready room bytes =>
      rw [expects] at expected
      have low : 0 ≤ size := by
        have := flowOk.flowing.ipt
        have := flowOk.remain
        simp only [Rcv.flow] at *
        omega
      rw [nextFrame_fit (nineOf enough) expected.symm low (bounds.mp bounded),
        if_pos (by simp only [Rcv.flow] at length; omega)]
      refine .ok (shows_.update nextOk (fun other => rcv.river_setRiver conf cb.fd other _) ?_
        trivial (by simpa using shows_.calls))
      rw [pending] at bytes
      refine ⟨ready.state.trans good, ?_, ?_, fun _ => ⟨nineOf enough, ?_, ?_⟩⟩
      · simp only [Rcv.flow] at length
        simp only [Option.getD_some]
        rw [← length, Int.toNat_natCast]
        exact bytes
      · intro unsized
        have := flowOk.flowing.ipt
        have := flowOk.remain
        simp only [ready.msgSize, Rcv.flow] at *
        omega
      · exact ready.msgSize.trans expected
      · simp only [ready.nbytes, ready.msgSize]
        exact Flow.roomFor_shows flowOk river expects
    | whole sized moved rawMsg size expects enough bounded low done ready ahead moves room bytes
        behind =>
      rw [expects] at expected
      simp only [Rcv.flow] at length
      have enoughBytes : ¬ ((held ++ rest).length : Int) < size := by omega
      rw [nextFrame_fit (nineOf enough) expected.symm low (bounds.mp bounded),
        if_neg enoughBytes]
      obtain ⟨count, rfl⟩ := Int.eq_ofNat_of_zero_le low
      rw [Int.toNat_natCast, pending] at bytes behind
      have remains : moved.remain = (rcv.river conf cb.fd).ipt + cb.remain - count := by
        rw [moves]
      have fresh : moved.river.ipt = 0 := by
        rw [moves]
      have taken : ((held ++ rest).take count).length = count := by
        rw [List.length_take]
        omega
      have roomIs := Flow.roomFor_shows flowOk river expects
      rw [Int.toNat_natCast]
      refine .ok (shows_.update nextOk
        (fun other => rcv.river_setRiver conf cb.fd other _) ?_ ?_ ?_)
      · refine ⟨?_, ?_, ?_, ?_⟩
        · rw [moves]
          exact ready.state.trans good
        · rw [fresh]
          simp
        · intro _
          rw [moves]
        · intro known
          rw [moves] at known
          simp at known
      · -- The loop goes on exactly when bytes are left behind the frame.
        have behindIs : moved.pending cb.buf =
            cb.buf.slice moved.bidx.toNat moved.remain.toNat := by
          simp [Flow.pending, fresh]
        by_cases goesOn : 0 < moved.remain
        · rw [if_pos goesOn, if_pos (by omega)]
          exact ⟨rfl, by rw [← behind, behindIs]⟩
        · rw [if_neg goesOn, if_neg (by omega)]
          trivial
      · refine List.rel_append shows_.calls (List.Forall₂.cons ?_ List.Forall₂.nil)
        refine ⟨rfl, ?_, ?_, room, ?_⟩
        · rw [taken]
        · rw [taken]
          exact roomIs
        · rw [taken]
          exact bytes

/-- Entering the callback is bytes arriving. -/
theorem Rcv.Shows.data {conf : RcvConf} (left : Leftover) {rcv : Rcv} {stage : Stage}
    (shows_ : rcv.Shows conf stage) (fd : Int) (chunk : List UInt8) :
    (rcv.dataCb conf left fd chunk).Shows conf (stage.data fd chunk) := by
  have ok : (rcv.dataCb conf left fd chunk).Ok conf := Rcv.dataCb_ok shows_.ok fd chunk
  have shown := shows_.rivers fd
  have all : (Block.ofList chunk).slice (0 : Int).toNat (chunk.length : Int).toNat = chunk := by
    simpa using Block.ofList_slice chunk 0 chunk.length (by omega)
  have arrives : DataCb.Shows (some ⟨fd, Block.ofList chunk, 0, chunk.length⟩)
      (some (fd, chunk)) := ⟨rfl, all⟩
  unfold Rcv.dataCb at ok ⊢
  unfold Stage.data
  by_cases ignored : chunk.length = 0 ∨ fd < 0
  · rw [if_pos ignored, if_pos ignored]
    exact shows_
  rw [if_neg ignored] at ok
  rw [if_neg ignored, if_neg ignored]
  cases view : stage.rivers fd with
  | reset =>
    -- A connection that was reset is not listened to.
    rw [view] at shown
    simp only [River.Shows] at shown
    simp only [River.ready, shown]
    exact shows_
  | new =>
    -- A new connection gets its first accumulator.
    rw [view] at shown
    simp only [River.Shows] at shown
    simp only [River.ready, shown] at ok ⊢
    refine shows_.update ok (fun other => rcv.river_setRiver conf fd other _) ?_ arrives
      (by simpa using shows_.calls)
    refine ⟨rfl, by simp [River.zero], fun _ => rfl, fun known => ?_⟩
    simp [River.zero] at known
  | flow held =>
    -- One in flow keeps what it holds.
    rw [view] at shown
    have good := shown.1
    simp only [River.ready, good] at ok ⊢
    have unchanged : Function.update stage.rivers fd (.flow held) = stage.rivers := by
      rw [← view]
      exact Function.update_eq_self fd stage.rivers
    have same := shows_.update ok
      (fun other => rcv.river_setRiver conf fd other _) shown arrives
      (by simpa using shows_.calls)
    rw [unchanged] at same
    exact same

/-- A disconnect is a connection lost. -/
theorem Rcv.Shows.disc {conf : RcvConf} {rcv : Rcv} {stage : Stage}
    (shows_ : rcv.Shows conf stage) (idle : rcv.busy = none) (fd : Int) :
    (rcv.discCb conf fd).Shows conf (stage.disc conf fd) := by
  have ok := Rcv.discCb_ok shows_.ok idle fd
  have calls : (rcv.discCb conf fd).calls = rcv.calls := by
    unfold Rcv.discCb
    repeat' split
    all_goals simp
  have busy : DataCb.Shows (rcv.discCb conf fd).busy stage.busy := by
    rw [Rcv.discCb_busy]
    exact shows_.busy
  have frames : List.Forall₂ (Call.Shows conf) (rcv.discCb conf fd).calls stage.frames := by
    rw [calls]
    exact shows_.calls
  unfold Stage.disc
  by_cases served : (0 ≤ fd ∧ fd < conf.nrivers) ∨ 0 < fd
  · rw [if_pos served]
    refine ⟨ok, fun other => ?_, busy, frames⟩
    by_cases same : other = fd
    · subst same
      -- Whether it was in use or not, the river is new afterwards.
      have new : ((rcv.discCb conf other).river conf other).state = .new := by
        unfold Rcv.discCb
        split
        · rw [Rcv.river_setRiver, if_pos rfl]
        · rename_i outside
          have positive : 0 < other := served.resolve_left outside
          have hashed : conf.nrivers ≤ other := by omega
          rw [if_pos positive]
          split
          · rename_i absent
            simp [Rcv.river, hashed, absent, River.zero]
          · simp [Rcv.river, hashed]
      simpa [River.Shows] using new
    · rcases rcv.river_discCb conf fd other with kept | ⟨equal, _⟩
      · rw [kept]
        simpa [same] using shows_.rivers other
      · exact absurd equal same
  · rw [if_neg served]
    have kept : rcv.discCb conf fd = rcv := by
      push Not at served
      rw [Rcv.discCb, if_neg (by omega), if_neg (by omega)]
    rw [kept]
    exact shows_

/-- Every step over memory is one of connections and frames. -/
theorem Rcv.Shows.step {conf : RcvConf} (left : Leftover) {rcv : Rcv} {stage : Stage}
    (step : RcvStep) (shows_ : rcv.Shows conf stage) :
    Agree (Rcv.Shows conf) (rcv.step conf left step) (stage.step conf step) := by
  -- One case for each step, with a callback in progress on both sides or on none.
  have both := shows_.busy
  cases busy : rcv.busy with
  | none =>
    cases stageBusy : stage.busy with
    | some arriving => simp [busy, stageBusy, DataCb.Shows] at both
    | none =>
      cases step with
      | data fd chunk =>
        simp only [Rcv.step, Stage.step, busy, stageBusy]
        exact .ok (shows_.data left fd chunk)
      | pass =>
        simp only [Rcv.step, Stage.step, busy, stageBusy]
        exact .ok shows_
      | disc fd =>
        simp only [Rcv.step, Stage.step, busy, stageBusy]
        exact .ok (shows_.disc busy fd)
  | some cb =>
    cases stageBusy : stage.busy with
    | none => simp [busy, stageBusy, DataCb.Shows] at both
    | some arriving =>
      obtain ⟨fd, rest⟩ := arriving
      cases step with
      | data fd chunk =>
        simp only [Rcv.step, Stage.step, busy, stageBusy]
        exact .ok shows_
      | disc fd =>
        simp only [Rcv.step, Stage.step, busy, stageBusy]
        exact .ok shows_
      | pass =>
        rw [busy, stageBusy] at both
        obtain ⟨rfl, arriving⟩ := both
        simp only [Rcv.step, Stage.step, busy, stageBusy]
        exact shows_.pass left busy arriving

/-- At first nothing is shown. -/
theorem Rcv.init_shows (conf : RcvConf) : Rcv.init.Shows conf Stage.init := by
  refine ⟨Rcv.init_ok conf, fun fd => ?_, trivial, List.Forall₂.nil⟩
  simp [Rcv.river, Rcv.init, Stage.init, River.zero, River.Shows]

/-- A whole run over memory, whatever was left over in it, is one of connections and frames. -/
theorem Rcv.run_shows (conf : RcvConf) (left : Leftover) (steps : List RcvStep) :
    Agree (Rcv.Shows conf) (Rcv.run conf left steps) (Stage.run conf steps) :=
  foldlM_agree (fun step shows_ => shows_.step left step) steps (Rcv.init_shows conf)

end Rmr
