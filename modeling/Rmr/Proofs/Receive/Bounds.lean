import Rmr.Lib.Run
import Rmr.Proofs.Receive.Cases

/-! The receive loop over whole runs: when its accumulators stay in bounds and when it advances. -/

namespace Rmr

/-- Reading back the river that was set, or any other one. -/
theorem Rcv.river_setRiver (conf : RcvConf) (rcv : Rcv) (fd other : Int) (river : River) :
    (rcv.setRiver conf fd river).river conf other =
      if other = fd then river else rcv.river conf other := by
  -- A river is in the array or in the hash, by its descriptor.
  by_cases same : other = fd
  · subst same
    by_cases hashed : conf.nrivers ≤ other <;> simp [setRiver, Rcv.river, hashed]
  · by_cases hashed : conf.nrivers ≤ fd <;> by_cases otherHashed : conf.nrivers ≤ other <;>
      simp [setRiver, Rcv.river, hashed, otherHashed, same]

/-- After a pass that goes on, the loop variables are those the pass left. -/
theorem Rcv.flow_moved (conf : RcvConf) (rcv : Rcv) (cb : DataCb) (moved : Flow)
    (calls : List Call) (busy : Option DataCb) :
    Rcv.flow conf { rcv.setRiver conf cb.fd moved.river with
        allocs := moved.allocs
        calls := calls
        busy := busy } { cb with bidx := moved.bidx, remain := moved.remain } = moved := by
  -- The river of the descriptor is the one just put back, and the places come with the callback.
  have back := rcv.river_setRiver conf cb.fd cb.fd moved.river
  rw [if_pos rfl] at back
  change Flow.mk ((rcv.setRiver conf cb.fd moved.river).river conf cb.fd) _ _ _ = moved
  rw [back]

/-- What holds of a river at all times. -/
structure River.Bounded (conf : RcvConf) (river : River) : Prop where
  low : 0 ≤ river.ipt
  high : river.ipt ≤ river.nbytes
  good : river.state = .good → river.Flowing conf
  /-- A river that was reset keeps its accumulator. -/
  reset : river.state = .reset →
    ∃ accum, river.accum = some accum ∧ (accum.size : Int) = river.nbytes

/-- What holds of the receive side at all times. -/
structure Rcv.Ok (conf : RcvConf) (rcv : Rcv) : Prop where
  rivers : ∀ fd, (rcv.river conf fd).Bounded conf
  busy : ∀ cb, rcv.busy = some cb → (rcv.river conf cb.fd).state = .good ∧
    0 ≤ cb.bidx ∧ 0 < cb.remain ∧ cb.bidx + cb.remain ≤ cb.buf.size

/-- The loop variables of a callback in progress are as a pass expects them. -/
theorem Rcv.Ok.flow {conf : RcvConf} {rcv : Rcv} (ok : rcv.Ok conf) {cb : DataCb}
    (busy : rcv.busy = some cb) : (rcv.flow conf cb).Ok conf cb.buf := by
  obtain ⟨good, bidx, remain, inside⟩ := ok.busy cb busy
  exact ⟨(ok.rivers cb.fd).good good, bidx, remain, inside⟩

/-- A river in flow stays within its accumulator. -/
theorem River.Flowing.bounded {conf : RcvConf} {river : River} (flowing : river.Flowing conf) :
    river.Bounded conf := by
  -- With its size unknown the river holds a part of a size field, else less than the message.
  have usual := flowing.usual
  have room := conf.usual_low
  have small := flowing.unsized
  have large := flowing.sized
  simp only [tpSzfieldLen] at small
  refine ⟨flowing.ipt, ?_, fun _ => flowing, fun _ => flowing.held⟩
  by_cases unsized : river.msgSize ≤ 0
  · have := small unsized
    omega
  · have := large (by omega)
    omega

/-- A cleared river is within bounds. -/
theorem River.zero_bounded (conf : RcvConf) : River.zero.Bounded conf :=
  ⟨Int.le_refl 0, Int.le_refl 0, fun good => (by cases good), fun reset => (by cases reset)⟩

/-- A fresh accumulator has the size it was asked for. -/
theorem RcvConf.malloc_usual (conf : RcvConf) (left : Leftover) (nth : Nat) :
    (((left.malloc nth conf.usual).size : Nat) : Int) = conf.usual := by
  have room := conf.usual_low
  simp only [Leftover.malloc]
  omega

/-- A river whose next message has not begun, with a fresh accumulator, is in flow. -/
theorem River.flowing_fresh {conf : RcvConf} (left : Leftover) (nth : Nat) {river : River}
    (accum : river.accum = some (left.malloc nth conf.usual))
    (nbytes : river.nbytes = conf.usual) (ipt : river.ipt = 0) (unsized : river.msgSize ≤ 0)
    (keep : river.drop = false) : river.Flowing conf := by
  -- A fresh accumulator is as large as the river says, and holds nothing yet.
  have high := conf.maxIbm_high
  refine ⟨⟨_, accum, ?_⟩, by omega, ?_, by omega, ?_, by omega, keep⟩
  · rw [conf.malloc_usual left nth, nbytes]
  · rw [nbytes]
    exact high
  · intro _
    rw [ipt]
    decide

/-- A river that is ready for data is in flow. -/
theorem River.ready_flowing {conf : RcvConf} {left : Leftover} {allocs made : Nat}
    {river flowing : River} (bounded : river.Bounded conf)
    (ready : river.ready conf left allocs = some (flowing, made)) :
    flowing.state = .good ∧ flowing.Flowing conf := by
  -- The cases are those of the river's state: good, new, or not usable.
  unfold River.ready at ready
  split at ready
  · rename_i good
    cases ready
    exact ⟨good, bounded.good good⟩
  · cases ready
    exact ⟨rfl, River.flowing_fresh left allocs rfl rfl rfl (Int.le_refl 0) rfl⟩
  · cases ready

/-- The receive side starts within bounds. -/
theorem Rcv.init_ok (conf : RcvConf) : Rcv.init.Ok conf := by
  refine ⟨fun fd => ?_, fun cb busy => by cases busy⟩
  have river : Rcv.init.river conf fd = River.zero := by
    simp [Rcv.river, Rcv.init]
  rw [river]
  exact River.zero_bounded conf

/-- Entering the data callback keeps the receive side within bounds. -/
theorem Rcv.dataCb_ok {conf : RcvConf} {left : Leftover} {rcv : Rcv} (ok : rcv.Ok conf)
    (fd : Int) (chunk : List UInt8) :
    (rcv.dataCb conf left fd chunk).Ok conf := by
  -- The tests of the callback in their order: no bytes, and a river that can not be made ready.
  unfold Rcv.dataCb
  split
  · exact ok
  rename_i nonempty
  push Not at nonempty
  split
  · exact ok
  · rename_i river allocs ready
    obtain ⟨good, flowing⟩ := River.ready_flowing (ok.rivers fd) ready
    have rivers : ∀ other, ({ rcv.setRiver conf fd river with
          allocs := allocs
          busy := some ⟨fd, Block.ofList chunk, 0, chunk.length⟩ } : Rcv).river conf other =
        if other = fd then river else rcv.river conf other :=
      fun other => rcv.river_setRiver conf fd other river
    refine ⟨fun other => ?_, ?_⟩
    · rw [rivers]
      split
      · exact flowing.bounded
      · exact ok.rivers other
    · rintro cb ⟨⟩
      rw [rivers]
      have positive : 0 < chunk.length := Nat.pos_of_ne_zero nonempty.1
      simpa using ⟨good, positive⟩

/-- A disconnect leaves the river of its descriptor new, and every other one alone. -/
theorem Rcv.river_discCb (conf : RcvConf) (rcv : Rcv) (fd other : Int) :
    (rcv.discCb conf fd).river conf other = rcv.river conf other ∨
      (other = fd ∧ (rcv.discCb conf fd).river conf other =
        { rcv.river conf fd with state := .new, accum := none }) := by
  -- The cases are those of `mt_disc_cb`: a river of the array, a hashed one, and none at all.
  unfold Rcv.discCb
  by_cases same : other = fd
  · subst same
    split
    · rename_i served
      refine Or.inr ⟨rfl, ?_⟩
      have array : ¬ conf.nrivers ≤ other := by omega
      rw [Rcv.river_setRiver, if_pos rfl]
      simp [Rcv.river, array]
    · split
      · split
        · exact Or.inl rfl
        · rename_i unserved positive river found
          refine Or.inr ⟨rfl, ?_⟩
          have hashed : conf.nrivers ≤ other := by omega
          simp [Rcv.river, hashed, found]
      · exact Or.inl rfl
  · left
    split
    · rw [Rcv.river_setRiver, if_neg same]
    · split
      · split
        · rfl
        · by_cases hashed : conf.nrivers ≤ other <;> simp [Rcv.river, hashed, same]
      · rfl

/-- A disconnect does not matter to the callback in progress. -/
@[simp] theorem Rcv.discCb_busy (conf : RcvConf) (rcv : Rcv) (fd : Int) :
    (rcv.discCb conf fd).busy = rcv.busy := by
  unfold Rcv.discCb Rcv.setRiver
  repeat' split
  all_goals rfl

/-- A disconnect keeps the receive side within bounds. -/
theorem Rcv.discCb_ok {conf : RcvConf} {rcv : Rcv} (ok : rcv.Ok conf) (idle : rcv.busy = none)
    (fd : Int) : (rcv.discCb conf fd).Ok conf := by
  -- Only the river of the descriptor may change, and a new river has nothing to keep.
  refine ⟨fun other => ?_, fun cb busy => by simp [idle] at busy⟩
  rcases rcv.river_discCb conf fd other with same | ⟨_, changed⟩
  · rw [same]
    exact ok.rivers other
  · rw [changed]
    have bounded := ok.rivers fd
    exact ⟨bounded.low, bounded.high, fun good => (by cases good), fun reset => (by cases reset)⟩

/-- A change of one river keeps the receive side within bounds when the callback is over. -/
theorem Rcv.Ok.set {conf : RcvConf} {rcv next : Rcv} (ok : rcv.Ok conf) {fd : Int}
    {river : River} (rivers : ∀ other, next.river conf other =
      if other = fd then river else rcv.river conf other) (bounded : river.Bounded conf)
    (busy : ∀ cb, next.busy = some cb → (next.river conf cb.fd).state = .good ∧
      0 ≤ cb.bidx ∧ 0 < cb.remain ∧ cb.bidx + cb.remain ≤ cb.buf.size) : next.Ok conf := by
  -- The river that changed is within bounds, and the others are as they were.
  refine ⟨fun other => ?_, busy⟩
  rw [rivers]
  split
  · exact bounded
  · exact ok.rivers other

/-- A pass keeps the receive side within bounds. -/
theorem Rcv.pass_ok {conf : RcvConf} {left : Leftover} {rcv next : Rcv} {cb : DataCb}
    (ok : rcv.Ok conf) (busy : rcv.busy = some cb)
    (passed : rcv.pass conf left cb = .ok next) : next.Ok conf := by
  have flowOk := ok.flow busy
  have flowing : (rcv.river conf cb.fd).Flowing conf := flowOk.flowing
  have good := (ok.busy cb busy).1
  have cases := Rcv.pass_cases left flowOk
  rw [passed] at cases
  have iptLow := flowing.ipt
  have usual := flowing.usual
  have room := conf.usual_low
  cases cases with
  | short accum unsized few size bytes =>
    have remainLow := flowOk.remain
    refine ok.set (fun other => rcv.river_setRiver conf cb.fd other _) ?_ (by rintro _ ⟨⟩)
    refine River.Flowing.bounded ⟨⟨accum, rfl, size⟩, usual, flowing.fits, ?_, fun _ => few, ?_,
      flowing.keep⟩
    · simp only [Rcv.flow] at remainLow
      simp only
      omega
    · intro sized
      simp only at sized
      omega
  | reset sized unsized enough negative ready =>
    refine ok.set (fun other => rcv.river_setRiver conf cb.fd other _) ?_ (by rintro _ ⟨⟩)
    have captured := ready.captured
    have small := flowing.unsized unsized
    simp only [tpSzfieldLen, Rcv.flow] at captured small
    refine ⟨?_, ?_, fun good => by (cases good), fun _ => ?_⟩
    · simp only
      omega
    · simp only [ready.nbytes]
      omega
    · obtain ⟨accum, held, size⟩ := ready.held
      exact ⟨accum, held, by rw [size, ready.nbytes]⟩
  | part sized accum size expects enough bounded more ready held bytes =>
    have remainLow := flowOk.remain
    simp only [Rcv.flow] at remainLow
    refine ok.set (fun other => rcv.river_setRiver conf cb.fd other _) ?_ (by rintro _ ⟨⟩)
    have fits := (rcv.flow conf cb).le_roomFor size
    have sizeLow : 0 < size := by omega
    refine River.Flowing.bounded ⟨⟨accum, rfl, by rw [held, ready.nbytes]⟩, ?_, ?_, ?_, ?_, ?_,
      ready.drop.trans flowing.keep⟩
    · simp only [ready.nbytes]
      have rooms := (rcv.flow conf cb).roomFor_cases size
      simp only [Rcv.flow] at rooms ⊢
      omega
    · -- A larger accumulator was asked for only when its size is an `int`.
      simp only [ready.nbytes]
      rcases (rcv.flow conf cb).roomFor_cases size with ⟨_, same⟩ | ⟨bigger, larger⟩
      · rw [same]
        exact flowing.fits
      · rw [larger]
        by_cases known : 0 < (rcv.river conf cb.fd).msgSize
        · have := (flowing.sized known).2
          rw [Flow.expects, if_neg (by simp only [Rcv.flow]; omega)] at expects
          simp only [Rcv.flow] at bigger expects
          omega
        · have unknown : (rcv.flow conf cb).river.msgSize ≤ 0 := by simp only [Rcv.flow]; omega
          rw [Flow.expects, if_pos unknown] at expects
          have nine : (tpSzfieldLen : Int) ≤ (rcv.river conf cb.fd).ipt + cb.remain := by
            rcases enough with known' | nine
            · omega
            · exact nine
          have room := (bounded.1 unknown nine (by omega)).2
          omega
    · simp only
      omega
    · intro unsized
      simp only [ready.msgSize] at unsized
      omega
    · intro _
      simp only [ready.msgSize, ready.nbytes]
      exact ⟨more, fits⟩
  | whole sized moved rawMsg size expects enough bounded low done ready ahead moves held
    bytes rest =>
    have keep : moved.river.drop = false := by
      rw [moves]
      exact ready.drop.trans flowing.keep
    have fresh : moved.river.Flowing conf := by
      refine River.flowing_fresh left ((rcv.flow conf cb).madeFor size) ?_ ?_ ?_
        ?_ keep <;> rw [moves]
      simp
    refine ok.set (fun other => rcv.river_setRiver conf cb.fd other _) fresh.bounded ?_
    intro cb' busy'
    dsimp only at busy'
    split at busy'
    · rename_i positive
      cases busy'
      have state : moved.river.state = .good := by
        rw [moves]
        exact ready.state.trans good
      have bidxLow := flowOk.bidx
      have inside := flowOk.inside
      have bidxIs := ready.bidx
      have captured := ready.captured
      have small := flowing.unsized
      simp only [Rcv.flow, tpSzfieldLen] at bidxLow inside bidxIs captured small
      have reads := rcv.river_setRiver conf cb.fd cb.fd moved.river
      refine ⟨?_, ?_, positive, ?_⟩
      · rw [if_pos rfl] at reads
        exact (congrArg River.state reads).trans state
      · rw [moves]
        dsimp only
        omega
      · rw [moves]
        dsimp only
        omega
    · cases busy'

/-- Every step of the receive thread keeps the receive side within bounds. -/
theorem Rcv.step_ok {conf : RcvConf} {left : Leftover} {rcv next : Rcv} {step : RcvStep}
    (ok : rcv.Ok conf) (stepped : rcv.step conf left step = .ok next) : next.Ok conf := by
  -- One case for each step, with a callback in progress and without one.
  cases busy : rcv.busy with
  | none =>
    cases step with
    | data fd chunk =>
      simp only [Rcv.step, busy] at stepped
      cases stepped
      exact Rcv.dataCb_ok ok fd chunk
    | pass =>
      simp only [Rcv.step, busy] at stepped
      cases stepped
      exact ok
    | disc fd =>
      simp only [Rcv.step, busy] at stepped
      cases stepped
      exact Rcv.discCb_ok ok busy fd
  | some cb =>
    cases step with
    | data fd chunk =>
      simp only [Rcv.step, busy] at stepped
      cases stepped
      exact ok
    | pass =>
      simp only [Rcv.step, busy] at stepped
      exact Rcv.pass_ok ok busy stepped
    | disc fd =>
      simp only [Rcv.step, busy] at stepped
      cases stepped
      exact ok

/-- Every state that a run reaches is within bounds. -/
theorem Rcv.run_ok {conf : RcvConf} {left : Leftover} {steps : List RcvStep} {rcv : Rcv}
    (ran : Rcv.run conf left steps = .ok rcv) : rcv.Ok conf :=
  foldlM_invariant (fun rcv => rcv.Ok conf) (fun ok stepped => step_ok ok stepped)
    (init_ok conf) ran

/-- A pass comes to its end exactly when all it computes and copies is in bounds. -/
theorem Rcv.pass_iff_inBounds {conf : RcvConf} (left : Leftover) {rcv : Rcv} {cb : DataCb}
    (ok : (rcv.flow conf cb).Ok conf cb.buf) :
    (∃ next, rcv.pass conf left cb = .ok next) ↔
      (rcv.flow conf cb).InBounds conf.order cb.buf := by
  have cases := Rcv.pass_cases left ok
  generalize rcv.pass conf left cb = outcome at cases
  cases cases with
  | short accum unsized few size bytes =>
    -- With less than a size field at hand there is nothing that could be out of bounds.
    have bounded : (rcv.flow conf cb).InBounds conf.order cb.buf := by
      refine ⟨fun _ nine => ?_, ?_⟩
      · simp only [Rcv.flow] at nine
        omega
      · rintro (known | ⟨nine, _⟩)
        · simp only [Rcv.flow] at known
          omega
        · simp only [Rcv.flow] at nine
          omega
    simp [bounded]
  | reset sized unsized enough negative ready =>
    have bounded : (rcv.flow conf cb).InBounds conf.order cb.buf := by
      refine ⟨fun _ _ positive => by omega, ?_⟩
      rintro (known | ⟨_, positive⟩)
      · simp only [Rcv.flow] at known
        omega
      · omega
    simp [bounded]
  | part sized accum size expects enough bounded more ready held bytes => simp [bounded]
  | whole sized moved rawMsg size expects enough bounded low done ready ahead moves held
    bytes rest =>
    simp [bounded]
  | fault fault outside => simp [outside]

/-- The condition that a list of steps puts on the passes in it, each in the state it starts from.
-/
def Rcv.Passes (conf : RcvConf) (left : Leftover)
    (good : (order : ByteOrder) → (buf : Block) → Flow → Prop) (steps : List RcvStep) : Prop :=
  ∀ before after rcv cb, steps = before ++ RcvStep.pass :: after →
    Rcv.run conf left before = .ok rcv → rcv.busy = some cb →
    good conf.order cb.buf (rcv.flow conf cb)

/-- What holds of a river when its insertion point is within what was really allocated. -/
def River.InAccum (river : River) : Prop :=
  0 ≤ river.ipt ∧ river.ipt ≤ river.nbytes ∧
    (river.state ≠ .new → ∃ accum, river.accum = some accum ∧ (accum.size : Int) = river.nbytes)

/-- Every river of the receive side stays within its accumulator. -/
theorem Rcv.Ok.inAccum {conf : RcvConf} {rcv : Rcv} (ok : rcv.Ok conf) (fd : Int) :
    (rcv.river conf fd).InAccum := by
  -- The three states: a new river was not used, a good one is in flow, a reset one keeps its
  -- bounds.
  have bounded := ok.rivers fd
  refine ⟨bounded.low, bounded.high, fun used => ?_⟩
  cases state : (rcv.river conf fd).state with
  | new => exact absurd state used
  | good => exact (bounded.good state).held
  | reset => exact bounded.reset state

/-- A run of one step more goes through the state after that step. -/
theorem Rcv.run_append_ok {conf : RcvConf} {left : Leftover} {steps : List RcvStep}
    {step : RcvStep} {rcv : Rcv} :
    Rcv.run conf left (steps ++ [step]) = .ok rcv ↔
      ∃ mid, Rcv.run conf left steps = .ok mid ∧ mid.step conf left step = .ok rcv := by
  unfold Rcv.run
  rw [foldlM_append_ok]
  simp

/-- A run computes and copies only in bounds exactly when all of its passes start in bounds, and
then every insertion point stays within what was really allocated. -/
theorem Rcv.run_in_bounds_iff (conf : RcvConf) (left : Leftover) (steps : List RcvStep) :
    (∃ rcv, Rcv.run conf left steps = .ok rcv ∧ ∀ fd, (rcv.river conf fd).InAccum) ↔
      Rcv.Passes conf left Flow.InBounds steps := by
  constructor
  · rintro ⟨final, ran, _⟩ before after rcv cb split ranBefore busy
    -- The run goes through the pass, which therefore comes to its end.
    rw [split, Rcv.run, foldlM_append_ok] at ran
    obtain ⟨mid, toMid, rest⟩ := ran
    obtain ⟨next, stepped, _⟩ := foldlM_cons_ok.mp rest
    have same : mid = rcv := by
      rw [← Rcv.run, ranBefore] at toMid
      cases toMid
      rfl
    subst same
    simp only [Rcv.step, busy] at stepped
    exact (Rcv.pass_iff_inBounds left ((Rcv.run_ok ranBefore).flow busy)).mp ⟨next, stepped⟩
  · intro bounded
    -- Induction on the run from its end: each further step succeeds where the run before did.
    induction steps using List.reverseRecOn with
    | nil => exact ⟨Rcv.init, rfl, fun fd => (Rcv.init_ok conf).inAccum fd⟩
    | append_singleton steps step ih =>
      obtain ⟨mid, ran, _⟩ := ih fun before after rcv cb split =>
        bounded before (after ++ [step]) rcv cb (by simp [split])
      have succeeds : ∃ next, mid.step conf left step = .ok next := by
        cases busy : mid.busy with
        | none => cases step <;> exact ⟨_, by simp only [Rcv.step, busy]; rfl⟩
        | some cb =>
          cases step with
          | data fd chunk => exact ⟨mid, by simp only [Rcv.step, busy]⟩
          | disc fd => exact ⟨mid, by simp only [Rcv.step, busy]⟩
          | pass =>
            simp only [Rcv.step, busy]
            exact (Rcv.pass_iff_inBounds left ((Rcv.run_ok ran).flow busy)).mpr
              (bounded steps [] mid cb rfl ran busy)
      obtain ⟨next, stepped⟩ := succeeds
      have all := Rcv.run_append_ok.mpr ⟨mid, ran, stepped⟩
      exact ⟨next, all, fun fd => (Rcv.run_ok all).inAccum fd⟩

/-- A size field in two parts that announces 5 asks for a copy of four bytes less than none. -/
theorem Rcv.run_copies_negative_length :
    Rcv.run RcvConf.default (fun _ _ => 0)
      [.data 7 [5], .pass, .data 7 [0, 0, 0, 0, 0, 0, 0, 0], .pass] = .error .range := by
  with_unfolding_all rfl

end Rmr
