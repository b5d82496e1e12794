import Rmr.Lib.Framing
import Rmr.Proofs.Receive.Progress

/-! The data callback puts together the frames of each stream, however the stream is cut. -/

namespace Rmr

/-- A frame whose size field announces its own length, which is one the receiver can allocate. -/
structure Framed (order : ByteOrder) (frame : List UInt8) : Prop where
  low : tpSzfieldLen ≤ frame.length
  high : (frame.length : Int) + 128 ≤ intMax
  size : extractMlen order (Block.ofList frame) 0 = frame.length

/-- A call that was handed a frame in the first bytes of the accumulator. -/
structure Call.Carries (call : Call) (frame : List UInt8) : Prop where
  room : frame.length ≤ call.rawMsg.size
  bytes : call.rawMsg.slice 0 frame.length = frame
  /-- The size handed over is that of the accumulator. -/
  size : call.msgSize = call.rawMsg.size
  fits : call.msgSize ≤ intMax

/-- The calls made for a descriptor. -/
def Rcv.callsOf (rcv : Rcv) (fd : Int) : List Call :=
  rcv.calls.filter fun call => call.fd = fd

/-- All bytes received on a descriptor. -/
def received (chunks : List (Int × List UInt8)) (fd : Int) : List UInt8 :=
  ((chunks.filter fun chunk => chunk.1 = fd).map Prod.snd).flatten

/-- The bytes that start with a frame announce its length. -/
theorem Framed.announced {order : ByteOrder} {frame bytes : List UInt8}
    (framed : Framed order frame) (starts : bytes.take 9 = frame.take 9)
    (nine : 9 ≤ bytes.length) : announced order bytes = frame.length := by
  -- The first nine bytes are the same as the frame's, and the size is read from them alone.
  have low := framed.low
  have high := framed.high
  simp only [tpSzfieldLen] at low
  have read : (Block.ofList frame).slice 0 9 = bytes.take 9 := by
    rw [starts]
    simpa using Block.ofList_slice frame 0 9 (by omega)
  rw [← announced_eq order nine read, framed.size]
  exact toInt_natCast (by omega)

/-- The first nine bytes of what starts a stream of frames are those of the first frame. -/
theorem take_nine {frame bytes : List UInt8} {rest : List (List UInt8)}
    (starts : bytes <+: (frame :: rest).flatten) (low : 9 ≤ frame.length)
    (nine : 9 ≤ bytes.length) : bytes.take 9 = frame.take 9 := by
  -- The nine bytes are within the bytes at hand as within the first frame.
  obtain ⟨behind, stream⟩ := starts
  rw [List.flatten_cons] at stream
  have first := congrArg (List.take 9) stream
  rw [List.take_append_of_le_length nine, List.take_append_of_le_length low] at first
  exact first

/-- What a river holds between two callbacks: the bytes of the frame that has begun. -/
structure River.Holds (river : River) (frames : List (List UInt8)) (bytes : List UInt8) :
    Prop where
  alive : river.state ≠ .reset
  fresh : river.state = .new → bytes = []
  captured : river.state = .good →
    (river.accum.getD (Block.ofList [])).slice 0 river.ipt.toNat = bytes
  /-- A size that is known is the length of the frame. -/
  sized : river.state = .good → 0 < river.msgSize →
    ∃ frame rest, frames = frame :: rest ∧ river.msgSize = frame.length

/-- What the loop of a callback has before it: frames whose first bytes are pending. -/
structure Flow.Faces (buf : Block) (flow : Flow) (frames : List (List UInt8)) : Prop where
  starts : flow.pending buf <+: frames.flatten
  sized : 0 < flow.river.msgSize →
    ∃ frame rest, frames = frame :: rest ∧ flow.river.msgSize = frame.length

/-- The size a pass expects is the length of the frame it faces. -/
theorem Flow.Faces.expects {conf : RcvConf} {order : ByteOrder} {buf : Block} {flow : Flow}
    {frame : List UInt8} {rest : List (List UInt8)} (ok : flow.Ok conf buf)
    (faces : flow.Faces buf (frame :: rest)) (framed : Framed order frame)
    (enough : 0 < flow.river.msgSize ∨ tpSzfieldLen ≤ flow.river.ipt + flow.remain) :
    flow.expects order buf = frame.length := by
  by_cases known : 0 < flow.river.msgSize
  · -- A known size was read from this frame earlier.
    obtain ⟨same, others, split, size⟩ := faces.sized known
    obtain ⟨rfl, rfl⟩ := List.cons.inj split
    rw [flow.expects_known order buf known, size]
  · -- An unknown one is read now, from the nine bytes at the front.
    have nine := enough.resolve_left known
    have length := Flow.pending_length buf ok.flowing.ipt (Int.le_of_lt ok.remain)
    have low := framed.low
    simp only [tpSzfieldLen] at nine low
    have long : 9 ≤ (flow.pending buf).length := by omega
    rw [flow.expects_unsized order buf (by omega)]
    exact framed.announced (take_nine faces.starts low long) long

/-- A pass that faces a frame is in bounds exactly when an `int` can count the pending bytes. -/
theorem Flow.Faces.inBounds {conf : RcvConf} {order : ByteOrder} {buf : Block} {flow : Flow}
    {frame : List UInt8} {rest : List (List UInt8)} (ok : flow.Ok conf buf)
    (faces : flow.Faces buf (frame :: rest)) (framed : Framed order frame) :
    flow.InBounds order buf ↔ ((flow.pending buf).length : Int) ≤ intMax := by
  -- Only the first sum of a pass can overflow; all others stay within the length of the frame.
  have length := Flow.pending_length buf ok.flowing.ipt (Int.le_of_lt ok.remain)
  have low := framed.low
  have high := framed.high
  rw [length]
  simp only [tpSzfieldLen] at low
  constructor
  · intro bounded
    by_cases known : 0 < flow.river.msgSize
    · exact bounded.2 (Or.inl known)
    by_cases nine : tpSzfieldLen ≤ flow.river.ipt + flow.remain
    · have size := faces.expects ok framed (Or.inr nine)
      rw [flow.expects_unsized order buf (by omega)] at size
      exact bounded.2 (Or.inr ⟨nine, by omega⟩)
    · simp only [tpSzfieldLen, intMax] at nine ⊢
      omega
  · intro few
    refine ⟨?_, fun _ => few⟩
    intro unsized nine _
    have size := faces.expects ok framed (Or.inr nine)
    rw [flow.expects_unsized order buf unsized] at size
    rw [size]
    simp only [tpSzfieldLen]
    exact ⟨fun _ => by omega, Or.inr high⟩

/-- What a callback leaves behind when it faced some frames and had some of their bytes. -/
structure Rcv.Gathered (conf : RcvConf) (rcv next : Rcv) (fd : Int)
    (frames : List (List UInt8)) (bytes : List UInt8) : Prop where
  idle : next.busy = none
  ok : next.Ok conf
  others : ∀ other, other ≠ fd → next.river conf other = rcv.river conf other
  gathers : ∃ calls done rest behind,
    next.calls = rcv.calls ++ calls ∧ (∀ call ∈ calls, call.fd = fd) ∧
    frames = done ++ rest ∧ bytes = done.flatten ++ behind ∧ Begun rest behind ∧
    List.Forall₂ Call.Carries calls done ∧ (next.river conf fd).Holds rest behind

/-- A callback that completes no frame leaves all bytes in the accumulator. -/
theorem Rcv.Gathered.of_part {conf : RcvConf} {rcv next : Rcv} {cb : DataCb} {river : River}
    {accum : Block} {frame : List UInt8} {rest : List (List UInt8)}
    (nextOk : next.Ok conf) (idle : next.busy = none) (calls : next.calls = rcv.calls)
    (rivers : ∀ other, next.river conf other =
      if other = cb.fd then river else rcv.river conf other)
    (good : river.state = .good) (held : river.accum = some accum)
    (ipt : river.ipt = ((rcv.flow conf cb).pending cb.buf).length)
    (bytes : accum.slice 0 ((rcv.flow conf cb).pending cb.buf).length =
      (rcv.flow conf cb).pending cb.buf)
    (sized : 0 < river.msgSize → river.msgSize = frame.length)
    (starts : (rcv.flow conf cb).pending cb.buf <+: (frame :: rest).flatten)
    (part : ((rcv.flow conf cb).pending cb.buf).length < frame.length) :
    Rcv.Gathered conf rcv next cb.fd (frame :: rest) ((rcv.flow conf cb).pending cb.buf) := by
  -- Nothing is completed: all of the pending bytes begin the first of the frames.
  refine ⟨idle, nextOk, fun other different => ?_, ?_⟩
  · rw [rivers, if_neg different]
  refine ⟨[], [], frame :: rest, (rcv.flow conf cb).pending cb.buf, by simp [calls], by simp, rfl,
    rfl, ⟨starts, ?_⟩, List.Forall₂.nil, ?_⟩
  · intro first others split
    obtain ⟨rfl, rfl⟩ := List.cons.inj split
    exact part
  · rw [rivers, if_pos rfl]
    refine ⟨by simp [good], fun new => by simp [good] at new, fun _ => ?_, fun _ known => ?_⟩
    · rw [held, ipt, Option.getD_some, Int.toNat_natCast]
      exact bytes
    · exact ⟨frame, rest, rfl, sized known⟩

/-- A frame that was handed over stands in front of what the rest of the callback gathers. -/
theorem Rcv.Gathered.cons {conf : RcvConf} {rcv mid next : Rcv} {fd : Int} {call : Call}
    {frame bytes : List UInt8} {rest : List (List UInt8)}
    (gathered : Rcv.Gathered conf mid next fd rest bytes)
    (calls : mid.calls = rcv.calls ++ [call]) (same : call.fd = fd) (carries : call.Carries frame)
    (others : ∀ other, other ≠ fd → mid.river conf other = rcv.river conf other) :
    Rcv.Gathered conf rcv next fd (frame :: rest) (frame ++ bytes) := by
  -- The frame is put in front of the completed ones, and its call in front of theirs.
  obtain ⟨idle, ok, unchanged, more, done, remaining, behind, added, own, split, cut, begun,
    carried, holds⟩ := gathered
  refine ⟨idle, ok, fun other different => ?_, ?_⟩
  · rw [unchanged other different, others other different]
  refine ⟨call :: more, frame :: done, remaining, behind, ?_, ?_, ?_, ?_, begun,
    List.Forall₂.cons carries carried, holds⟩
  · rw [added, calls, List.append_assoc, List.singleton_append]
  · intro other among
    rcases List.mem_cons.mp among with first | later
    · rw [first]
      exact same
    · exact own other later
  · rw [split, List.cons_append]
  · rw [cut, List.flatten_cons, List.append_assoc]

/-- The loop of a callback that faces frames hands over those that are whole, and keeps the begin
of the next one. -/
theorem Rcv.loop_gathers {conf : RcvConf} (left : Leftover) {frames : List (List UInt8)}
    (framed : ∀ frame ∈ frames, Framed conf.order frame) (fuel : Nat) {rcv : Rcv} {cb : DataCb}
    (ok : rcv.Ok conf) (busy : rcv.busy = some cb)
    (faces : (rcv.flow conf cb).Faces cb.buf frames)
    (few : (((rcv.flow conf cb).pending cb.buf).length : Int) ≤ intMax)
    (enough : cb.remain ≤ fuel) :
    ∃ next, rcv.loop conf left fuel = .ok next ∧
      Rcv.Gathered conf rcv next cb.fd frames ((rcv.flow conf cb).pending cb.buf) := by
  -- Induction on the frames: each pass that goes on takes the first of them.
  induction frames generalizing fuel rcv cb with
  | nil =>
    -- No frame means no byte, but a callback in progress has one.
    have flowOk := ok.flow busy
    have length := Flow.pending_length cb.buf flowOk.flowing.ipt (Int.le_of_lt flowOk.remain)
    have none_ := List.prefix_nil.mp faces.starts
    have iptLow := flowOk.flowing.ipt
    have remainLow := flowOk.remain
    rw [none_, List.length_nil] at length
    omega
  | cons frame rest ih =>
    have flowOk := ok.flow busy
    have good := (ok.busy cb busy).1
    have own := framed frame (by simp)
    have low := own.low
    have remainLow := flowOk.remain
    have length := Flow.pending_length cb.buf flowOk.flowing.ipt (Int.le_of_lt flowOk.remain)
    simp only [Rcv.flow] at remainLow length
    obtain ⟨fuel, rfl⟩ : ∃ less, fuel = less + 1 := ⟨fuel - 1, by omega⟩
    obtain ⟨next, passed⟩ := (Rcv.pass_iff_inBounds left flowOk).mpr
      ((faces.inBounds flowOk own).mpr few)
    have nextOk := Rcv.pass_ok ok busy passed
    rw [Rcv.loop_busy fuel busy passed]
    have cases := Rcv.pass_cases left flowOk
    rw [passed] at cases
    cases cases with
    | short accum unsized lack size bytes =>
      refine ⟨_, Rcv.loop_idle fuel rfl, ?_⟩
      refine Rcv.Gathered.of_part nextOk rfl (by simp)
        (fun other => rcv.river_setRiver conf cb.fd other _) good rfl length.symm bytes ?_
        faces.starts (by simp only [Rcv.flow]; omega)
      intro known
      simp only at known
      omega
    | reset sized unsized nine negative ready =>
      -- The size of a frame is its length, which is not negative.
      have size := faces.expects flowOk own (Or.inr nine)
      rw [(rcv.flow conf cb).expects_unsized _ _ unsized] at size
      omega
    | part sized accum size expects nine bounded more ready held bytes =>
      have is := faces.expects flowOk own nine
      rw [expects] at is
      refine ⟨_, Rcv.loop_idle fuel rfl, ?_⟩
      refine Rcv.Gathered.of_part nextOk rfl (by simp)
        (fun other => rcv.river_setRiver conf cb.fd other _) (ready.state.trans good) rfl
        length.symm bytes ?_ faces.starts (by simp only [Rcv.flow]; omega)
      intro _
      exact ready.msgSize.trans is
    | whole sized moved rawMsg size expects nine bounded sizeLow done ready ahead moves held bytes
        behind =>
      have is := faces.expects flowOk own nine
      rw [expects] at is
      subst is
      have whole : frame.length ≤ ((rcv.flow conf cb).pending cb.buf).length := by
        simp only [Rcv.flow]
        omega
      obtain ⟨first, onward⟩ := prefix_of_whole faces.starts whole
      rw [Int.toNat_natCast] at bytes behind
      have room := (rcv.flow conf cb).le_roomFor frame.length
      -- What is pending now is the frame and then what is pending after the pass.
      have pending : (rcv.flow conf cb).pending cb.buf = frame ++ moved.pending cb.buf := by
        calc
          (rcv.flow conf cb).pending cb.buf
          _ = ((rcv.flow conf cb).pending cb.buf).take frame.length ++
              ((rcv.flow conf cb).pending cb.buf).drop frame.length :=
            (List.take_append_drop _ _).symm
          _ = frame ++ moved.pending cb.buf := by rw [first, behind]
      have carries : Call.Carries
          ⟨cb.fd, rawMsg, (rcv.flow conf cb).roomFor frame.length, frame.length⟩ frame := by
        refine ⟨by simp only; omega, by rw [bytes, first], held.symm, ?_⟩
        have high := own.high
        have fits := flowOk.flowing.fits
        show (rcv.flow conf cb).roomFor frame.length ≤ intMax
        rcases (rcv.flow conf cb).roomFor_cases frame.length with ⟨_, same⟩ | ⟨_, larger⟩
        · omega
        · omega
      have others : ∀ other, other ≠ cb.fd →
          (rcv.setRiver conf cb.fd moved.river).river conf other = rcv.river conf other := by
        intro other different
        rw [rcv.river_setRiver, if_neg different]
      have begins : (rcv.river conf cb.fd).ipt < frame.length := by
        simp only [tpSzfieldLen] at low
        by_cases known : 0 < (rcv.river conf cb.fd).msgSize
        · have within := (flowOk.flowing.sized known).1
          rw [(rcv.flow conf cb).expects_known _ _ known] at expects
          simp only [Rcv.flow] at within expects
          omega
        · have within := flowOk.flowing.unsized (Int.not_lt.mp known)
          simp only [Rcv.flow, tpSzfieldLen] at within
          omega
      have remains : moved.remain = (rcv.river conf cb.fd).ipt + cb.remain - frame.length := by
        rw [moves]
      have state : moved.river.state = .good := by
        rw [moves]
        exact ready.state.trans good
      have unsized : ¬ 0 < moved.river.msgSize := by
        rw [moves]
        simp
      have fresh : moved.river.ipt = 0 := by
        rw [moves]
      rw [pending]
      by_cases goesOn : 0 < moved.remain
      · -- The loop goes on with the frames behind this one.
        have flowIs := rcv.flow_moved conf cb moved (rcv.calls ++
            [⟨cb.fd, rawMsg, (rcv.flow conf cb).roomFor frame.length, frame.length⟩])
          (if 0 < moved.remain then
            some { cb with bidx := moved.bidx, remain := moved.remain } else none)
        obtain ⟨final, ends, gathered⟩ := @ih (fun other among => framed other (by simp [among]))
          fuel _ { cb with bidx := moved.bidx, remain := moved.remain } nextOk
          (by simp only [if_pos goesOn])
          (by
            rw [flowIs]
            exact ⟨behind ▸ onward, fun known => absurd known unsized⟩)
          (by
            rw [flowIs]
            rw [pending, List.length_append] at few
            dsimp only
            omega)
          (by
            simp only [remains]
            omega)
        refine ⟨final, ends, ?_⟩
        rw [flowIs] at gathered
        exact gathered.cons rfl rfl carries others
      · -- The frame ends with the buffer.
        have nothing : moved.pending cb.buf = [] := by
          apply List.eq_nil_of_length_eq_zero
          have := congrArg List.length pending
          rw [List.length_append] at this
          simp only [Rcv.flow] at this
          omega
        refine ⟨_, Rcv.loop_idle fuel (by simp only [if_neg goesOn]), ?_⟩
        rw [nothing]
        refine Rcv.Gathered.cons ⟨by simp only [if_neg goesOn], nextOk, fun _ _ => rfl, ?_⟩ rfl rfl
          carries others
        refine ⟨[], [], rest, [], by simp, by simp, rfl, rfl, begun_nil fun other among => ?_,
          List.Forall₂.nil, ?_⟩
        · have := (framed other (by simp [among])).low
          simp only [tpSzfieldLen] at this
          omega
        · have back := rcv.river_setRiver conf cb.fd cb.fd moved.river
          rw [if_pos rfl] at back
          change River.Holds ((rcv.setRiver conf cb.fd moved.river).river conf cb.fd) rest []
          rw [back]
          refine ⟨by simp [state], fun _ => rfl, fun _ => by simp [fresh], fun _ known => ?_⟩
          exact absurd known unsized

/-- What is so once a callback is entered with bytes for a river that is in use. -/
structure Rcv.Entered (rcv : Rcv) (conf : RcvConf) (entered : Rcv) (cb : DataCb) (fd : Int)
    (frames : List (List UInt8)) (bytes : List UInt8) : Prop where
  busy : entered.busy = some cb
  serves : cb.fd = fd
  calls : entered.calls = rcv.calls
  others : ∀ other, other ≠ fd → entered.river conf other = rcv.river conf other
  pending : (entered.flow conf cb).pending cb.buf = bytes
  sized : 0 < (entered.flow conf cb).river.msgSize →
    ∃ frame rest, frames = frame :: rest ∧ (entered.flow conf cb).river.msgSize = frame.length

/-- A river that holds the begin of a frame is ready, and then still holds it. -/
theorem River.Holds.ready {river : River} {frames : List (List UInt8)} {bytes : List UInt8}
    (holds : river.Holds frames bytes) (conf : RcvConf) (left : Leftover) (allocs : Nat) :
    ∃ ready made, river.ready conf left allocs = some (ready, made) ∧
      ready.state = .good ∧ ready.Holds frames bytes := by
  -- A good river is ready as it is; a new one gets an accumulator, and holds no bytes yet.
  cases state : river.state with
  | reset => exact absurd state holds.alive
  | good => exact ⟨river, allocs, by simp only [River.ready, state], state, holds⟩
  | new =>
    refine ⟨_, _, by simp only [River.ready, state]; rfl, rfl, ?_⟩
    rw [holds.fresh state]
    refine ⟨by simp, fun _ => rfl, fun _ => ?_, fun _ known => ?_⟩
    · simp [River.zero]
    · simp [River.zero] at known

/-- Entering the callback with bytes puts them behind those that the river holds. -/
theorem Rcv.dataCb_enters {conf : RcvConf} (left : Leftover) {rcv : Rcv} {fd : Int}
    {chunk bytes : List UInt8} {frames : List (List UInt8)} (served : 0 ≤ fd)
    (nonempty : chunk ≠ []) (holds : (rcv.river conf fd).Holds frames bytes) :
    ∃ cb : DataCb, cb.remain = chunk.length ∧
      rcv.Entered conf (rcv.dataCb conf left fd chunk) cb fd frames (bytes ++ chunk) := by
  -- The bytes of the buffer are pending behind those of the river that was made ready.
  obtain ⟨ready, made, isReady, good, readyHolds⟩ := holds.ready conf left rcv.allocs
  have positive : ¬ (chunk.length = 0 ∨ fd < 0) := by
    rw [List.length_eq_zero_iff]
    push Not
    exact ⟨nonempty, served⟩
  refine ⟨⟨fd, Block.ofList chunk, 0, chunk.length⟩, rfl, ?_⟩
  rw [Rcv.dataCb, if_neg positive, isReady]
  have back := rcv.river_setRiver conf fd fd ready
  rw [if_pos rfl] at back
  have flowIs : (Rcv.flow conf { rcv.setRiver conf fd ready with
        allocs := made
        busy := some ⟨fd, Block.ofList chunk, 0, chunk.length⟩ }
      ⟨fd, Block.ofList chunk, 0, chunk.length⟩) = ⟨ready, made, 0, chunk.length⟩ := by
    change Flow.mk ((rcv.setRiver conf fd ready).river conf fd) _ _ _ = _
    rw [back]
  refine ⟨rfl, rfl, by simp, ?_, ?_, ?_⟩
  · intro other different
    exact (rcv.river_setRiver conf fd other ready).trans (if_neg different)
  · rw [flowIs]
    have all : (Block.ofList chunk).slice 0 chunk.length = chunk := by
      simpa using Block.ofList_slice chunk 0 chunk.length (by omega)
    simp only [Flow.pending, readyHolds.captured good, Int.toNat_zero, Int.toNat_natCast, all]
  · rw [flowIs]
    exact readyHolds.sized good

/-- A callback whose pending bytes an `int` can count gathers the frames they complete. -/
theorem Rcv.mtDataCb_gathers {conf : RcvConf} (left : Leftover) {rcv : Rcv} {fd : Int}
    {chunk bytes : List UInt8} {frames : List (List UInt8)} (ok : rcv.Ok conf) (served : 0 ≤ fd)
    (nonempty : chunk ≠ []) (framed : ∀ frame ∈ frames, Framed conf.order frame)
    (holds : (rcv.river conf fd).Holds frames bytes)
    (starts : bytes ++ chunk <+: frames.flatten)
    (few : ((bytes.length + chunk.length : Nat) : Int) ≤ intMax) :
    ∃ next, rcv.mtDataCb conf left fd chunk = .ok next ∧
      Rcv.Gathered conf rcv next fd frames (bytes ++ chunk) := by
  -- The callback is entered, and its loop gathers from the bytes pending then.
  obtain ⟨cb, remain, entered⟩ := Rcv.dataCb_enters left served nonempty holds
  have enteredOk : (rcv.dataCb conf left fd chunk).Ok conf := Rcv.dataCb_ok ok fd chunk
  obtain ⟨next, ends, gathered⟩ := Rcv.loop_gathers left framed chunk.length enteredOk
    entered.busy ⟨entered.pending ▸ starts, entered.sized⟩
    (by rw [entered.pending, List.length_append]; exact few) (by omega)
  refine ⟨next, ends, ?_⟩
  rw [entered.pending, entered.serves] at gathered
  obtain ⟨idle, nextOk, others, calls, done, rest, behind, added, gathers⟩ := gathered
  refine ⟨idle, nextOk, fun other different => ?_, calls, done, rest, behind, ?_, gathers⟩
  · rw [others other different, entered.others other different]
  · rw [added, entered.calls]

/-- A callback whose pending bytes an `int` can not count does not come to its end. -/
theorem Rcv.mtDataCb_overflows {conf : RcvConf} (left : Leftover) {rcv next : Rcv} {fd : Int}
    {chunk bytes : List UInt8} {frames : List (List UInt8)} (ok : rcv.Ok conf) (served : 0 ≤ fd)
    (nonempty : chunk ≠ []) (framed : ∀ frame ∈ frames, Framed conf.order frame)
    (holds : (rcv.river conf fd).Holds frames bytes)
    (starts : bytes ++ chunk <+: frames.flatten)
    (many : intMax < ((bytes.length + chunk.length : Nat) : Int)) :
    rcv.mtDataCb conf left fd chunk ≠ .ok next := by
  obtain ⟨cb, remain, entered⟩ := Rcv.dataCb_enters left served nonempty holds
  have enteredOk : (rcv.dataCb conf left fd chunk).Ok conf := Rcv.dataCb_ok ok fd chunk
  cases frames with
  | nil =>
    -- Without a frame there is no byte.
    have none_ := List.prefix_nil.mp starts
    simp [nonempty] at none_
  | cons frame rest =>
    have faces : ((rcv.dataCb conf left fd chunk).flow conf cb).Faces cb.buf (frame :: rest) :=
      ⟨entered.pending ▸ starts, entered.sized⟩
    have outside := mt (faces.inBounds (enteredOk.flow entered.busy)
      (framed frame (by simp))).mp (by
        rw [entered.pending, List.length_append]
        omega)
    have fails := mt (Rcv.pass_iff_inBounds left (enteredOk.flow entered.busy)).mp outside
    -- The first pass has no outcome, so the loop has none.
    intro ends
    obtain ⟨fuel, length⟩ : ∃ less, chunk.length = less + 1 :=
      ⟨chunk.length - 1, by have := List.length_pos_iff.mpr nonempty; omega⟩
    rw [Rcv.mtDataCb, length, Rcv.loop, entered.busy] at ends
    obtain ⟨mid, passed, _⟩ := bind_eq_ok.mp ends
    exact fails ⟨mid, passed⟩

end Rmr
