import Rmr.Proofs.Receive.Bounds

/-! When the data callback gets on with its buffer, and when a peer can make it spin. -/

namespace Rmr

/-- When a pass gets on: all is in bounds, and a size that is read now is not zero. -/
def Flow.Advances (order : ByteOrder) (buf : Block) (flow : Flow) : Prop :=
  flow.InBounds order buf ∧
    (flow.river.msgSize ≤ 0 → tpSzfieldLen ≤ flow.river.ipt + flow.remain →
      announced order (flow.pending buf) ≠ 0)

instance decidableAdvances (order : ByteOrder) (buf : Block) (flow : Flow) :
    Decidable (flow.Advances order buf) :=
  inferInstanceAs (Decidable (((_ → _ → _ → _) ∧ _) ∧ _))

/-- A pass that comes to its end with the callback over, or with fewer bytes remaining. -/
def Rcv.Decreases (conf : RcvConf) (left : Leftover) (rcv : Rcv) (cb : DataCb) : Prop :=
  ∃ next, rcv.pass conf left cb = .ok next ∧ ∀ cb', next.busy = some cb' → cb'.remain < cb.remain

/-- A message that is whole takes at least one byte of the buffer, unless its size is zero. -/
theorem Flow.Advances.ahead {conf : RcvConf} {order : ByteOrder} {buf : Block} {flow : Flow}
    {size : Int} (flowing : flow.river.Flowing conf) (advances : flow.Advances order buf)
    (expects : flow.expects order buf = size)
    (enough : 0 < flow.river.msgSize ∨ tpSzfieldLen ≤ flow.river.ipt + flow.remain)
    (low : 0 ≤ size) : flow.river.ipt < size := by
  -- A message in progress is longer than what is held of it; a new one, than its size field.
  have iptLow := flowing.ipt
  by_cases known : 0 < flow.river.msgSize
  · rw [Flow.expects, if_neg (by omega)] at expects
    have := (flowing.sized known).1
    omega
  · have unsized : flow.river.msgSize ≤ 0 := by omega
    have nine := enough.resolve_left known
    rw [flow.expects_unsized order buf unsized] at expects
    have small := flowing.unsized unsized
    have nonzero := advances.2 unsized nine
    have field := (advances.1.1 unsized nine (by omega)).1
    by_cases begun : 0 < flow.river.ipt
    · have := field begun
      omega
    · omega

/-- A pass gets on exactly when its condition holds. -/
theorem Rcv.decreases_iff {conf : RcvConf} (left : Leftover) {rcv : Rcv} {cb : DataCb}
    (ok : (rcv.flow conf cb).Ok conf cb.buf) :
    rcv.Decreases conf left cb ↔ (rcv.flow conf cb).Advances conf.order cb.buf := by
  have runs := Rcv.pass_iff_inBounds left ok
  have cases := Rcv.pass_cases left ok
  unfold Rcv.Decreases
  generalize rcv.pass conf left cb = outcome at cases runs
  cases cases with
  | short accum unsized few size bytes =>
    have bounded := runs.mp ⟨_, rfl⟩
    refine ⟨fun _ => ⟨bounded, fun _ nine => ?_⟩, fun _ => ⟨_, rfl, by rintro _ ⟨⟩⟩⟩
    simp only [Rcv.flow] at nine
    omega
  | reset sized unsized enough negative ready =>
    have bounded := runs.mp ⟨_, rfl⟩
    exact ⟨fun _ => ⟨bounded, fun _ _ => by omega⟩, fun _ => ⟨_, rfl, by rintro _ ⟨⟩⟩⟩
  | part sized accum size expects enough bounded more ready held bytes =>
    refine ⟨fun _ => ⟨bounded, fun unsized _ => ?_⟩, fun _ => ⟨_, rfl, by rintro _ ⟨⟩⟩⟩
    rw [(rcv.flow conf cb).expects_unsized _ _ unsized] at expects
    have iptLow := ok.flowing.ipt
    have remainLow := ok.remain
    simp only [Rcv.flow] at iptLow remainLow
    omega
  | whole sized moved rawMsg size expects enough bounded low done ready ahead moves held
    bytes rest =>
    constructor
    · rintro ⟨next, passed, fewer⟩
      refine ⟨bounded, fun unsized nine zero => ?_⟩
      -- A size of zero takes nothing, and what remains is what remained.
      rw [(rcv.flow conf cb).expects_unsized _ _ unsized, zero] at expects
      subst expects
      have iptLow := ok.flowing.ipt
      have remainLow := ok.remain
      simp only [Rcv.flow] at iptLow remainLow
      have remains : moved.remain = (rcv.river conf cb.fd).ipt + cb.remain := by
        rw [moves]
        simp
      cases passed
      have := fewer { cb with bidx := moved.bidx, remain := moved.remain }
        (by rw [if_pos (by omega)])
      simp only at this
      omega
    · intro advances
      have further := advances.ahead ok.flowing expects enough low
      refine ⟨_, rfl, fun cb' busy' => ?_⟩
      dsimp only at busy'
      split at busy'
      · cases busy'
        rw [moves]
        simp only [Rcv.flow] at further ⊢
        omega
      · cases busy'
  | fault fault outside =>
    refine ⟨?_, fun advances => absurd advances.1 outside⟩
    rintro ⟨next, passed, _⟩
    cases passed

/-- Some number of passes, as steps of the receive thread. -/
def Rcv.passes (conf : RcvConf) (left : Leftover) (count : Nat) (rcv : Rcv) : Except Fault Rcv :=
  (List.replicate count RcvStep.pass).foldlM (fun rcv step => rcv.step conf left step) rcv

/-- One pass and then some more are that many passes and one. -/
theorem Rcv.passes_succ {conf : RcvConf} {left : Leftover} {count : Nat} {rcv next mid : Rcv}
    {cb : DataCb} (busy : rcv.busy = some cb) (passed : rcv.pass conf left cb = .ok next)
    (more : next.passes conf left count = .ok mid) :
    rcv.passes conf left (count + 1) = .ok mid := by
  -- The first pass leads to the state that the others start from.
  unfold Rcv.passes
  rw [List.replicate_succ, foldlM_cons_ok]
  exact ⟨next, by simp only [Rcv.step, busy, passed], more⟩

/-- Passes keep the receive side within bounds. -/
theorem Rcv.Ok.passes_ok {conf : RcvConf} {left : Leftover} {count : Nat} {rcv mid : Rcv}
    (ok : rcv.Ok conf) (ran : rcv.passes conf left count = .ok mid) : mid.Ok conf :=
  foldlM_invariant (fun rcv => rcv.Ok conf) (fun ok stepped => step_ok ok stepped) ok ran

/-- The loop is over when no callback is in progress. -/
theorem Rcv.loop_idle {conf : RcvConf} {left : Leftover} (fuel : Nat) {rcv : Rcv}
    (idle : rcv.busy = none) : rcv.loop conf left fuel = .ok rcv := by
  unfold Rcv.loop
  simp only [idle]

/-- A loop with a callback in progress makes a pass and goes on from there. -/
theorem Rcv.loop_busy {conf : RcvConf} {left : Leftover} (fuel : Nat) {rcv next : Rcv}
    {cb : DataCb} (busy : rcv.busy = some cb) (passed : rcv.pass conf left cb = .ok next) :
    rcv.loop conf left (fuel + 1) = next.loop conf left fuel := by
  rw [Rcv.loop, busy]
  simp only [passed, Bind.bind, Except.bind]

/-- A loop all of whose passes get on needs no more of them than there are bytes remaining. -/
theorem Rcv.loop_ends {conf : RcvConf} {left : Leftover} {fuel : Nat} {rcv : Rcv}
    (gets : ∀ count mid cb, rcv.passes conf left count = .ok mid → mid.busy = some cb →
      mid.Decreases conf left cb)
    (enough : ∀ cb, rcv.busy = some cb → 0 < cb.remain ∧ cb.remain ≤ fuel) (ok : rcv.Ok conf) :
    ∃ next, rcv.loop conf left fuel = .ok next := by
  -- Induction on the fuel: a pass takes at least one byte of what remains.
  induction fuel generalizing rcv with
  | zero =>
    cases busy : rcv.busy with
    | none => exact ⟨rcv, Rcv.loop_idle _ busy⟩
    | some cb =>
      have := enough cb busy
      omega
  | succ fuel ih =>
    cases busy : rcv.busy with
    | none => exact ⟨rcv, Rcv.loop_idle _ busy⟩
    | some cb =>
      obtain ⟨next, passed, fewer⟩ := gets 0 rcv cb rfl busy
      have nextOk := Rcv.pass_ok ok busy passed
      obtain ⟨final, ends⟩ := ih
        (fun count mid cb' ran => gets (count + 1) mid cb' (Rcv.passes_succ busy passed ran))
        (fun cb' busy' => by
          have := fewer cb' busy'
          have := enough cb busy
          exact ⟨(nextOk.busy cb' busy').2.2.1, by omega⟩)
        nextOk
      exact ⟨final, (Rcv.loop_busy fuel busy passed).trans ends⟩

/-- What is in progress once the data callback is entered is all of the bytes passed in. -/
theorem Rcv.dataCb_remain {conf : RcvConf} {left : Leftover} {rcv : Rcv} (idle : rcv.busy = none)
    {fd : Int} {chunk : List UInt8} {cb : DataCb}
    (busy : (rcv.dataCb conf left fd chunk).busy = some cb) : cb.remain = chunk.length := by
  -- The callback starts with all bytes of the buffer ahead of it.
  unfold Rcv.dataCb at busy
  split at busy
  · simp [idle] at busy
  · split at busy
    · simp [idle] at busy
    · cases busy
      rfl

/-- In every state the receive thread can reach, the data callback ends on the bytes it is given,
each pass of its loop returning or leaving fewer of them, exactly when every pass that is made has
its bounds and reads no size of zero. -/
theorem Rcv.mtDataCb_ends_iff {conf : RcvConf} {left : Leftover} (steps : List RcvStep) {rcv : Rcv}
    (ran : Rcv.run conf left steps = .ok rcv) (idle : rcv.busy = none) (fd : Int)
    (chunk : List UInt8) :
    ((∃ next, rcv.mtDataCb conf left fd chunk = .ok next) ∧
      ∀ count mid cb, (rcv.dataCb conf left fd chunk).passes conf left count = .ok mid →
        mid.busy = some cb → mid.Decreases conf left cb) ↔
      ∀ count mid cb, (rcv.dataCb conf left fd chunk).passes conf left count = .ok mid →
        mid.busy = some cb → (mid.flow conf cb).Advances conf.order cb.buf := by
  -- Each pass decreases what is left exactly when it advances, and what decreases comes to an end.
  have entered : (rcv.dataCb conf left fd chunk).Ok conf := Rcv.dataCb_ok (Rcv.run_ok ran) fd chunk
  have each : ∀ count mid cb, (rcv.dataCb conf left fd chunk).passes conf left count = .ok mid →
      mid.busy = some cb →
      (mid.Decreases conf left cb ↔ (mid.flow conf cb).Advances conf.order cb.buf) :=
    fun count mid cb reached busy => Rcv.decreases_iff left ((entered.passes_ok reached).flow busy)
  constructor
  · rintro ⟨_, gets⟩ count mid cb reached busy
    exact (each count mid cb reached busy).mp (gets count mid cb reached busy)
  · intro advances
    have gets : ∀ count mid cb,
        (rcv.dataCb conf left fd chunk).passes conf left count = .ok mid →
        mid.busy = some cb → mid.Decreases conf left cb :=
      fun count mid cb reached busy =>
        (each count mid cb reached busy).mpr (advances count mid cb reached busy)
    refine ⟨Rcv.loop_ends gets (fun cb busy => ?_) entered, gets⟩
    have remain := Rcv.dataCb_remain idle busy
    have positive := (entered.busy cb busy).2.2.1
    omega

/-- Where no callback is in progress, passes change nothing. -/
theorem Rcv.passes_idle {conf : RcvConf} {left : Leftover} {rcv : Rcv} (idle : rcv.busy = none)
    (count : Nat) : rcv.passes conf left count = .ok rcv := by
  -- By induction on the passes, each of which finds nothing to do.
  induction count with
  | zero => rfl
  | succ count ih =>
    unfold Rcv.passes
    rw [List.replicate_succ, foldlM_cons_ok]
    exact ⟨rcv, by simp only [Rcv.step, idle], ih⟩

/-- What holds of a callback after each of so many passes, the last of which ends it, holds of it
whenever it is in progress. -/
theorem Rcv.passes_all {conf : RcvConf} {left : Leftover} {rcv : Rcv} {Holds : Rcv → DataCb → Prop}
    (count : Nat) (ends : Yields (fun last => last.busy = none) (rcv.passes conf left count))
    (each : ∀ some_ < count,
      Yields (fun mid => ∀ cb ∈ mid.busy, Holds mid cb) (rcv.passes conf left some_)) :
    ∀ some_ mid cb, rcv.passes conf left some_ = .ok mid → mid.busy = some cb → Holds mid cb := by
  intro some_ mid cb reached busy
  by_cases early : some_ < count
  · exact (each some_ early).of_ok reached cb busy
  · -- The passes behind the last one find nothing to do.
    obtain ⟨last, ended, idle⟩ := ends.exists
    obtain ⟨more, rfl⟩ := Nat.exists_eq_add_of_le (Nat.not_lt.mp early)
    have whole : rcv.passes conf left (count + more) = .ok last := by
      unfold Rcv.passes
      rw [List.replicate_add, foldlM_append_ok]
      exact ⟨last, ended, Rcv.passes_idle idle more⟩
    rw [whole] at reached
    cases reached
    rw [idle] at busy
    cases busy

/-- A message of twelve bytes, as a little endian host sends it. -/
def twelveBytes (last : UInt8) : List UInt8 := [12, 0, 0, 0, 0, 0, 0, 12, tpSzMarker, 1, 2, last]

/-- The start of a size field was received, and the rest of it comes with two messages: the callback
takes them up in two passes. -/
theorem Rcv.mtDataCb_ends_iff_split :
    Yields (fun rcv => rcv.busy = none ∧ (rcv.river .default 7).ipt = 4 ∧
        Yields (fun next => next.calls.map (fun call =>
            call.rawMsg.slice 0 call.received.toNat) = [twelveBytes 3, twelveBytes 4])
          (rcv.mtDataCb .default (fun _ _ => 0) 7 ((twelveBytes 3).drop 4 ++ twelveBytes 4)) ∧
        ∀ count mid cb, (rcv.dataCb .default (fun _ _ => 0) 7
            ((twelveBytes 3).drop 4 ++ twelveBytes 4)).passes .default
              (fun _ _ => 0) count = .ok mid →
          mid.busy = some cb → mid.Decreases .default (fun _ _ => 0) cb)
      (Rcv.run .default (fun _ _ => 0) [.data 7 ((twelveBytes 3).take 4), .pass]) := by
  -- Every part is evaluated in the state that the two steps before the callback have reached.
  have run : Yields (fun rcv => rcv.busy = none ∧ (rcv.river .default 7).ipt = 4 ∧
        Yields (fun next => next.calls.map (fun call =>
            call.rawMsg.slice 0 call.received.toNat) = [twelveBytes 3, twelveBytes 4])
          (rcv.mtDataCb .default (fun _ _ => 0) 7 ((twelveBytes 3).drop 4 ++ twelveBytes 4)) ∧
        Yields (fun last => last.busy = none) ((rcv.dataCb .default (fun _ _ => 0) 7
          ((twelveBytes 3).drop 4 ++ twelveBytes 4)).passes .default (fun _ _ => 0) 2) ∧
        ∀ some_ < 2, Yields (fun mid => ∀ cb ∈ mid.busy,
            (mid.flow .default cb).Advances .little cb.buf)
          ((rcv.dataCb .default (fun _ _ => 0) 7
            ((twelveBytes 3).drop 4 ++ twelveBytes 4)).passes .default (fun _ _ => 0) some_))
      (Rcv.run .default (fun _ _ => 0) [.data 7 ((twelveBytes 3).take 4), .pass]) := by
    decide +kernel
  obtain ⟨rcv, ran, idle, begun, both, ends, each⟩ := run.exists
  refine Yields.intro ran ⟨idle, begun, both, ?_⟩
  exact ((Rcv.mtDataCb_ends_iff _ ran idle 7 ((twelveBytes 3).drop 4 ++ twelveBytes 4)).mpr
    (Rcv.passes_all 2 ends each)).2

/-- A callback whose river reads a size of zero from what is in its buffer. -/
structure Rcv.Stuck (conf : RcvConf) (rcv : Rcv) : Prop where
  ok : rcv.Ok conf
  zero : ∃ cb, rcv.busy = some cb ∧ (rcv.river conf cb.fd).msgSize ≤ 0 ∧
    (rcv.river conf cb.fd).ipt = 0 ∧ tpSzfieldLen ≤ cb.remain ∧ cb.remain ≤ intMax ∧
    announced conf.order ((rcv.flow conf cb).pending cb.buf) = 0

/-- A pass of a stuck callback hands over a message of no bytes, and leaves it stuck. -/
theorem Rcv.Stuck.pass {conf : RcvConf} {rcv : Rcv} (left : Leftover) (stuck : rcv.Stuck conf) :
    ∃ cb next, rcv.busy = some cb ∧ rcv.pass conf left cb = .ok next ∧ next.Stuck conf := by
  obtain ⟨ok, cb, busy, unsized, fresh, enough, few, zero⟩ := stuck
  refine ⟨cb, ?_⟩
  have flowOk := ok.flow busy
  have usual := flowOk.flowing.usual
  have room := conf.usual_low
  have bounded : (rcv.flow conf cb).InBounds conf.order cb.buf := by
    refine ⟨fun _ _ _ => ⟨fun begun => ?_, Or.inl ?_⟩, fun _ => ?_⟩
    · simp only [Rcv.flow] at begun
      omega
    · omega
    · simp only [Rcv.flow]
      omega
  obtain ⟨next, passed⟩ := (Rcv.pass_iff_inBounds left flowOk).mpr bounded
  refine ⟨next, busy, passed, Rcv.pass_ok ok busy passed, ?_⟩
  have cases := Rcv.pass_cases left flowOk
  rw [passed] at cases
  simp only [tpSzfieldLen] at enough
  cases cases with
  | short accum unsized few size bytes =>
    simp only [tpSzfieldLen] at few
    omega
  | reset sized unsized enough negative ready => omega
  | part sized accum size expects enough bounded more ready held bytes =>
    rw [(rcv.flow conf cb).expects_unsized _ _ unsized, zero] at expects
    omega
  | whole sized moved rawMsg size expects enough' bounded low done ready ahead moves held
    bytes rest =>
    rw [(rcv.flow conf cb).expects_unsized _ _ unsized, zero] at expects
    subst expects
    have remain : moved.remain = cb.remain := by
      rw [moves]
      simp only [fresh]
      omega
    have goesOn : 0 < moved.remain := by omega
    have back := rcv.river_setRiver conf cb.fd cb.fd moved.river
    rw [if_pos rfl] at back
    refine ⟨{ cb with bidx := moved.bidx, remain := moved.remain }, by simp [goesOn], ?_, ?_, ?_,
      ?_, ?_⟩
    · refine (congrArg River.msgSize back).trans_le ?_
      rw [moves]
      simp
    · refine (congrArg River.ipt back).trans ?_
      rw [moves]
    · simp only [tpSzfieldLen]
      omega
    · simp only
      omega
    · -- What is pending behind a message of no bytes is what was pending before.
      rw [Rcv.flow_moved, rest]
      simpa using zero

/-- However long it is left to run, the loop of a stuck callback does not end. -/
theorem Rcv.Stuck.spins {conf : RcvConf} {rcv : Rcv} (left : Leftover) (stuck : rcv.Stuck conf)
    (fuel : Nat) : rcv.loop conf left fuel = .error .spin := by
  -- By induction on the fuel: a stuck pass leads to a state that is stuck again.
  induction fuel generalizing rcv with
  | zero =>
    obtain ⟨cb, next, busy, _⟩ := stuck.pass left
    rw [Rcv.loop, busy]
  | succ fuel ih =>
    obtain ⟨cb, next, busy, passed, again⟩ := stuck.pass left
    rw [Rcv.loop_busy fuel busy passed]
    exact ih again

/-- Nine zero bytes on a new connection keep the receive thread in its loop forever. -/
theorem Rcv.zero_size_spins :
    ¬ ∃ fuel, (Rcv.init.dataCb RcvConf.default (fun _ _ => 0) 7 [0, 0, 0, 0, 0, 0, 0, 0, 0]).loop
      RcvConf.default (fun _ _ => 0) fuel ≠ .error .spin := by
  -- Nine bytes of zeros are a size field of size zero, which takes no byte of the buffer.
  have stuck : (Rcv.init.dataCb RcvConf.default (fun _ _ => 0) 7
      [0, 0, 0, 0, 0, 0, 0, 0, 0]).Stuck RcvConf.default := by
    refine ⟨Rcv.dataCb_ok (Rcv.init_ok _) _ _, _, rfl, ?_, rfl, by decide, by decide,
      by decide +kernel⟩
    exact Int.le_refl 0
  rintro ⟨fuel, ends⟩
  exact ends (stuck.spins _ fuel)

end Rmr
