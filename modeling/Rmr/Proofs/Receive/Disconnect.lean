import Rmr.Proofs.Receive.Bounds

/-! A disconnect makes a descriptor as good as new, a river that was reset is silent until then, and
the bytes of one descriptor leave the rivers of the others alone. -/

namespace Rmr

/-- The receive side as if a descriptor had never been used. -/
def Rcv.unused (conf : RcvConf) (rcv : Rcv) (fd : Int) : Rcv :=
  if conf.nrivers ≤ fd then { rcv with riverHash := Function.update rcv.riverHash fd none }
  else { rcv with rivers := Function.update rcv.rivers fd River.zero }

/-- Two receive sides that cannot be told apart: rivers that differ are both uninitialised. -/
structure Rcv.Alike (conf : RcvConf) (one other : Rcv) : Prop where
  rivers : ∀ fd, one.river conf fd = other.river conf fd ∨
    ((one.river conf fd).state = .new ∧ (other.river conf fd).state = .new)
  allocs : one.allocs = other.allocs
  calls : one.calls = other.calls
  busy : one.busy = other.busy
  /-- The river that a callback is at work on is the same. -/
  flowing : ∀ cb, one.busy = some cb → one.river conf cb.fd = other.river conf cb.fd

namespace Rcv
variable {conf : RcvConf} {left : Leftover} {rcv next : Rcv} {fd : Int}

/-- A descriptor that was never used has a cleared river. -/
theorem river_unused (conf : RcvConf) (rcv : Rcv) (fd other : Int) :
    (rcv.unused conf fd).river conf other =
      if other = fd then River.zero else rcv.river conf other := by
  -- A river is in the array or in the hash, by its descriptor.
  by_cases same : other = fd
  · subst same
    by_cases hashed : conf.nrivers ≤ other <;> simp [unused, river, hashed]
  · by_cases hashed : conf.nrivers ≤ fd <;> by_cases otherHashed : conf.nrivers ≤ other <;>
      simp [unused, river, hashed, otherHashed, same]

/-- A disconnect changes no other river. -/
theorem river_discCb_other (rcv : Rcv) {other : Int} (differs : other ≠ fd) :
    (rcv.discCb conf fd).river conf other = rcv.river conf other :=
  (rcv.river_discCb conf fd other).resolve_right fun changed => differs changed.1

/-- The descriptors that a disconnect is acted on for. -/
def Served (conf : RcvConf) (fd : Int) : Prop := (0 ≤ fd ∧ fd < conf.nrivers) ∨ 0 < fd

/-- After a disconnect the river is uninitialised. -/
theorem state_discCb (rcv : Rcv) (served : Served conf fd) :
    ((rcv.discCb conf fd).river conf fd).state = .new := by
  -- The river is in the array, or hashed; a hashed one that is absent is new as well.
  unfold discCb
  split
  · rw [river_setRiver, if_pos rfl]
  · rename_i array
    have positive : 0 < fd := served.resolve_left array
    have hashed : conf.nrivers ≤ fd := by omega
    rw [if_pos positive]
    split
    · rename_i absent
      rw [river, if_pos hashed, absent]
      rfl
    · simp [river, hashed]

/-- Nothing is done for another descriptor. -/
theorem discCb_unserved (rcv : Rcv) (unserved : ¬ Served conf fd) : rcv.discCb conf fd = rcv := by
  unfold discCb
  rw [if_neg fun array => unserved (.inl array), if_neg fun positive => unserved (.inr positive)]

/-- A disconnect makes no call, and allocates nothing. -/
theorem discCb_rest (conf : RcvConf) (rcv : Rcv) (fd : Int) :
    (rcv.discCb conf fd).allocs = rcv.allocs ∧ (rcv.discCb conf fd).calls = rcv.calls := by
  unfold discCb setRiver
  repeat' split
  all_goals exact ⟨rfl, rfl⟩

/-- After a disconnect, the receive side cannot be told from one where the descriptor was never
used. -/
theorem alike_discCb (rcv : Rcv) (idle : rcv.busy = none) (served : Served conf fd) :
    Alike conf (rcv.discCb conf fd) (rcv.unused conf fd) := by
  -- Other rivers are the same; that of the descriptor is new in both.
  have rest := rcv.discCb_rest conf fd
  have unused : (rcv.unused conf fd).allocs = rcv.allocs ∧ (rcv.unused conf fd).calls = rcv.calls ∧
      (rcv.unused conf fd).busy = rcv.busy := by
    unfold Rcv.unused
    split
    · exact ⟨rfl, rfl, rfl⟩
    · exact ⟨rfl, rfl, rfl⟩
  exact {
    rivers := by
      intro other
      by_cases same : other = fd
      · rw [same]
        refine .inr ⟨rcv.state_discCb served, ?_⟩
        rw [river_unused, if_pos rfl]
        rfl
      · refine .inl ?_
        rw [rcv.river_discCb_other same, river_unused, if_neg same]
    allocs := rest.1.trans unused.1.symm
    calls := rest.2.trans unused.2.1.symm
    busy := (rcv.discCb_busy conf fd).trans unused.2.2.symm
    flowing := by
      intro cb busy
      rw [rcv.discCb_busy conf fd, idle] at busy
      cases busy }

/-- Setting the river of a descriptor in both keeps two receive sides alike. -/
theorem Alike.set {one other one' other' : Rcv} (alike : Alike conf one other) {river : River}
    (oneIs : ∀ fd', one'.river conf fd' = if fd' = fd then river else one.river conf fd')
    (otherIs : ∀ fd', other'.river conf fd' = if fd' = fd then river else other.river conf fd')
    (allocs : one'.allocs = other'.allocs) (calls : one'.calls = other'.calls)
    (busy : one'.busy = other'.busy) (here : ∀ cb, one'.busy = some cb → cb.fd = fd) :
    Alike conf one' other' where
  -- The river of the descriptor is the same in both; any other one was alike.
  rivers := by
    intro fd'
    rw [oneIs, otherIs]
    split
    · exact .inl rfl
    · exact alike.rivers fd'
  allocs := allocs
  calls := calls
  busy := busy
  flowing := by
    intro cb is
    rw [oneIs, otherIs, if_pos (here cb is), if_pos (here cb is)]

/-- Bytes arrive at both. -/
theorem Alike.dataCb {one other : Rcv} (alike : Alike conf one other) (left : Leftover) (fd : Int)
    (chunk : List UInt8) : Alike conf (one.dataCb conf left fd chunk)
    (other.dataCb conf left fd chunk) := by
  unfold Rcv.dataCb
  split
  · exact alike
  · -- The river that the loop starts with is the same.
    have same : (one.river conf fd).ready conf left one.allocs =
        (other.river conf fd).ready conf left other.allocs := by
      rw [alike.allocs]
      rcases alike.rivers fd with same | ⟨new, alsoNew⟩
      · rw [same]
      · unfold River.ready
        rw [new, alsoNew]
    rw [same]
    split
    · exact alike
    · rename_i river allocs _
      refine alike.set (fun fd' => one.river_setRiver conf fd fd' river)
        (fun fd' => other.river_setRiver conf fd fd' river) rfl ?_ rfl ?_
      · show (one.setRiver conf fd river).calls = (other.setRiver conf fd river).calls
        rw [setRiver_calls, setRiver_calls, alike.calls]
      · intro cb busy
        cases busy
        rfl

/-- Both make a pass. -/
theorem Alike.pass {one other : Rcv} (alike : Alike conf one other) (left : Leftover) {cb : DataCb}
    (busy : one.busy = some cb) :
    Matched (Alike conf) (one.pass conf left cb) (other.pass conf left cb) := by
  -- The river in flow is the same in both, so that the pass comes to the same.
  unfold Rcv.pass
  rw [← alike.flowing cb busy, ← alike.allocs, ← alike.calls]
  refine matched_bind _ fun ended => ?_
  cases ended with
  | returned river allocs =>
    refine .ok (alike.set (fun fd' => one.river_setRiver conf cb.fd fd' river)
      (fun fd' => other.river_setRiver conf cb.fd fd' river) rfl ?_ rfl ?_)
    · show (one.setRiver conf cb.fd river).calls = (other.setRiver conf cb.fd river).calls
      rw [setRiver_calls, setRiver_calls, alike.calls]
    · intro cb busy
      cases busy
  | goesOn sized =>
    refine matched_bind _ fun moved => ?_
    refine .ok (alike.set (fun fd' => one.river_setRiver conf cb.fd fd' moved.1.river)
      (fun fd' => other.river_setRiver conf cb.fd fd' moved.1.river) rfl rfl rfl ?_)
    intro after busy
    have busy : (if 0 < moved.1.remain then
        some { cb with bidx := moved.1.bidx, remain := moved.1.remain } else none) =
          some after := busy
    split at busy
    · cases busy
      rfl
    · cases busy

/-- Both hear of a disconnect. -/
theorem Alike.discCb {one other : Rcv} (alike : Alike conf one other) (idle : one.busy = none)
    (fd : Int) :
    Alike conf (one.discCb conf fd) (other.discCb conf fd) := by
  -- After the disconnect the river is new in both; any other one was alike.
  by_cases served : Served conf fd
  · exact {
      rivers := by
        intro fd'
        by_cases same : fd' = fd
        · rw [same]
          exact .inr ⟨one.state_discCb served, other.state_discCb served⟩
        · rw [one.river_discCb_other same, other.river_discCb_other same]
          exact alike.rivers fd'
      allocs := by rw [(one.discCb_rest conf fd).1, (other.discCb_rest conf fd).1, alike.allocs]
      calls := by rw [(one.discCb_rest conf fd).2, (other.discCb_rest conf fd).2, alike.calls]
      busy := by rw [discCb_busy, discCb_busy, alike.busy]
      flowing := by
        intro cb busy
        rw [discCb_busy, idle] at busy
        cases busy }
  · rw [one.discCb_unserved served, other.discCb_unserved served]
    exact alike

/-- Whatever happens next, both do the same. -/
theorem Alike.step {one other : Rcv} (alike : Alike conf one other) (left : Leftover)
    (step : RcvStep) :
    Matched (Alike conf) (one.step conf left step) (other.step conf left step) := by
  -- One case for each step, which both take or both leave.
  unfold Rcv.step
  rw [← alike.busy]
  cases step with
  | data fd chunk =>
    cases busy : one.busy with
    | none => exact .ok (alike.dataCb left fd chunk)
    | some cb => exact .ok alike
  | pass =>
    cases busy : one.busy with
    | none => exact .ok alike
    | some cb => exact alike.pass left busy
  | disc fd =>
    cases busy : one.busy with
    | none => exact .ok (alike.discCb busy fd)
    | some cb => exact .ok alike

/-- A call is made for the descriptor that the bytes came from. -/
theorem call_fd {buf : Block} {sized moved : Flow} {call : Option Call}
    (is : moveBytes conf left fd buf sized = .ok (moved, call)) : ∀ made ∈ call, made.fd = fd := by
  unfold moveBytes at is
  obtain ⟨have_, _, is⟩ := bind_eq_ok.mp is
  split at is
  · -- The message is not whole, so that nothing is passed on.
    dsimp only at is
    split at is
    · cases is
      rintro made ⟨⟩
    · obtain ⟨river, _, is⟩ := bind_eq_ok.mp is
      cases is
      rintro made ⟨⟩
  · obtain ⟨need, _, is⟩ := bind_eq_ok.mp is
    split at is
    · cases is
      rintro made ⟨⟩
    · obtain ⟨river, _, is⟩ := bind_eq_ok.mp is
      cases is
      rintro made ⟨⟩
      rfl

/-- A pass changes the river of its descriptor only, makes calls for that, and goes on with it. -/
theorem pass_frame {cb : DataCb} (passed : rcv.pass conf left cb = .ok next) :
    (∀ other, other ≠ cb.fd → next.river conf other = rcv.river conf other) ∧
      (∃ made : List Call, next.calls = rcv.calls ++ made ∧ ∀ call ∈ made, call.fd = cb.fd) ∧
      ∀ after, next.busy = some after → after.fd = cb.fd := by
  -- A pass returns with the river put back, or goes on after a message was handed over.
  unfold Rcv.pass at passed
  obtain ⟨ended, _, passed⟩ := bind_eq_ok.mp passed
  cases ended with
  | returned river allocs =>
    cases passed
    refine ⟨fun other differs => ?_, ⟨[], ?_, fun _ among => absurd among List.not_mem_nil⟩, ?_⟩
    · exact (rcv.river_setRiver conf cb.fd other river).trans (if_neg differs)
    · rw [List.append_nil]
      exact rcv.setRiver_calls conf cb.fd river
    · rintro after ⟨⟩
  | goesOn sized =>
    obtain ⟨⟨moved, call⟩, is, passed⟩ := bind_eq_ok.mp passed
    cases passed
    refine ⟨fun other differs => ?_, ⟨call.toList, rfl, ?_⟩, ?_⟩
    · exact (rcv.river_setRiver conf cb.fd other moved.river).trans (if_neg differs)
    · intro made among
      exact call_fd is made (Option.mem_toList.mp among)
    · intro after busy
      have busy : (if 0 < moved.remain then
          some { cb with bidx := moved.bidx, remain := moved.remain } else none) =
            some after := busy
      split at busy
      · cases busy
        rfl
      · cases busy

/-- A whole data callback leaves the rivers of other descriptors alone. -/
theorem loop_frame (fuel : Nat) (here : ∀ cb, rcv.busy = some cb → cb.fd = fd)
    (looped : rcv.loop conf left fuel = .ok next) {other : Int} (differs : other ≠ fd) :
    next.river conf other = rcv.river conf other := by
  -- By induction on the passes of the loop, none of which is for another descriptor.
  induction fuel generalizing rcv with
  | zero =>
    unfold Rcv.loop at looped
    split at looped
    · cases looped
      rfl
    · cases looped
  | succ fuel ih =>
    unfold Rcv.loop at looped
    split at looped
    · cases looped
      rfl
    · rename_i cb busy
      obtain ⟨mid, passed, rest⟩ := bind_eq_ok.mp looped
      obtain ⟨others, _, same⟩ := pass_frame passed
      have is := here cb busy
      rw [ih (fun after goesOn => (same after goesOn).trans is) rest]
      exact others other (is ▸ differs)

/-- Bytes of a descriptor begin to be looked at there only. -/
theorem dataCb_frame (conf : RcvConf) (left : Leftover) (fd : Int) (idle : rcv.busy = none)
    (chunk : List UInt8) :
    (∀ other, other ≠ fd → (rcv.dataCb conf left fd chunk).river conf other =
      rcv.river conf other) ∧
      (rcv.dataCb conf left fd chunk).calls = rcv.calls ∧
      ∀ cb, (rcv.dataCb conf left fd chunk).busy = some cb → cb.fd = fd := by
  -- The tests of the callback in their order: no bytes, and a river that can not be made ready.
  have nothing : ∀ cb, rcv.busy = some cb → cb.fd = fd := by
    intro cb busy
    rw [idle] at busy
    cases busy
  unfold Rcv.dataCb
  split
  · exact ⟨fun _ _ => rfl, rfl, nothing⟩
  · split
    · exact ⟨fun _ _ => rfl, rfl, nothing⟩
    · rename_i river allocs _
      refine ⟨fun other differs => ?_, ?_, ?_⟩
      · exact (rcv.river_setRiver conf fd other river).trans (if_neg differs)
      · exact rcv.setRiver_calls conf fd river
      · intro cb busy
        cases busy
        rfl

/-- Data on one descriptor never changes the river of another. -/
theorem mtDataCb_frame (idle : rcv.busy = none) {chunk : List UInt8}
    (called : rcv.mtDataCb conf left fd chunk = .ok next) {other : Int} (differs : other ≠ fd) :
    next.river conf other = rcv.river conf other := by
  -- The loop of the callback works on the river of its own descriptor only.
  obtain ⟨others, _, here⟩ := dataCb_frame conf left fd idle chunk
  rw [loop_frame chunk.length here called differs]
  exact others other differs

/-- The messages that were passed on from a descriptor. -/
def callsOn (rcv : Rcv) (fd : Int) : List Call := rcv.calls.filter fun call => call.fd = fd

/-- Calls for other descriptors are none for this one. -/
theorem callsOn_append {made : List Call} (is : next.calls = rcv.calls ++ made)
    (others : ∀ call ∈ made, call.fd ≠ fd) : next.callsOn fd = rcv.callsOn fd := by
  have none_ : made.filter (fun call => call.fd = fd) = [] :=
    List.filter_eq_nil_iff.mpr fun call among => by simpa using others call among
  rw [callsOn, is, List.filter_append, none_, List.append_nil]
  rfl

/-- No callback is at work on the river of a descriptor. -/
def Away (rcv : Rcv) (fd : Int) : Prop := ∀ cb, rcv.busy = some cb → cb.fd ≠ fd

/-- Without a callback in progress there is none for the descriptor. -/
theorem Away.of_idle (idle : rcv.busy = none) : rcv.Away fd := by
  intro cb busy
  rw [idle] at busy
  cases busy

/-- What happens on other descriptors leaves a river alone, and no message comes of it. -/
theorem Away.step (away : rcv.Away fd) {step : RcvStep} (noData : ∀ chunk, step ≠ .data fd chunk)
    (noDisc : step ≠ .disc fd) (stepped : rcv.step conf left step = .ok next) :
    next.Away fd ∧ next.river conf fd = rcv.river conf fd ∧ next.callsOn fd = rcv.callsOn fd := by
  cases busy : rcv.busy with
  | none =>
    cases step with
    | data on chunk =>
      simp only [Rcv.step, busy] at stepped
      cases stepped
      have differs : fd ≠ on := by
        intro equal
        exact noData chunk (by rw [equal])
      obtain ⟨others, calls, here⟩ := dataCb_frame conf left on busy chunk
      refine ⟨fun cb goesOn equal => ?_, others fd differs, ?_⟩
      · exact differs (equal.symm.trans (here cb goesOn))
      · rw [callsOn, calls, callsOn]
    | pass =>
      simp only [Rcv.step, busy] at stepped
      cases stepped
      exact ⟨away, rfl, rfl⟩
    | disc on =>
      simp only [Rcv.step, busy] at stepped
      cases stepped
      have differs : fd ≠ on := by
        intro equal
        exact noDisc (by rw [equal])
      refine ⟨fun cb goesOn => ?_, rcv.river_discCb_other differs, ?_⟩
      · rw [discCb_busy] at goesOn
        exact away cb goesOn
      · rw [callsOn, (rcv.discCb_rest conf on).2, callsOn]
  | some cb =>
    cases step with
    | pass =>
      simp only [Rcv.step, busy] at stepped
      obtain ⟨others, ⟨made, calls, here⟩, goesOn⟩ := pass_frame stepped
      have elsewhere := away cb busy
      refine ⟨fun after is => ?_, others fd elsewhere.symm, ?_⟩
      · rw [goesOn after is]
        exact elsewhere
      · exact callsOn_append calls fun call among => by rw [here call among]; exact elsewhere
    -- SI does nothing else until the callback is over.
    | data on chunk =>
      simp only [Rcv.step, busy] at stepped
      cases stepped
      exact ⟨away, rfl, rfl⟩
    | disc on =>
      simp only [Rcv.step, busy] at stepped
      cases stepped
      exact ⟨away, rfl, rfl⟩

/-- Bytes for a river that was reset are ignored. -/
theorem reset_ignores (reset : (rcv.river conf fd).state = .reset)
    {chunk : List UInt8} (stepped : rcv.step conf left (.data fd chunk) = .ok next) :
      next = rcv := by
  -- A river that was reset can not be made ready, so that the callback returns at once.
  have ignored : rcv.dataCb conf left fd chunk = rcv := by
    unfold Rcv.dataCb
    split
    · rfl
    · rw [River.ready, reset]
  unfold Rcv.step at stepped
  dsimp only at stepped
  split at stepped
  · cases stepped
    exact ignored
  · cases stepped
    rfl

/-- A river that was reset stays as it is until a disconnect, and no message comes of it. -/
theorem reset_silent (away : rcv.Away fd) (reset : (rcv.river conf fd).state = .reset)
    {after : List RcvStep} (still : .disc fd ∉ after) {final : Rcv}
    (ran : after.foldlM (fun rcv step => rcv.step conf left step) rcv = .ok final) :
    final.river conf fd = rcv.river conf fd ∧ final.callsOn fd = rcv.callsOn fd := by
  -- By induction on the steps: bytes for the river are ignored, and any other step is elsewhere.
  induction after generalizing rcv with
  | nil =>
    cases ran
    exact ⟨rfl, rfl⟩
  | cons step after ih =>
    obtain ⟨mid, stepped, rest⟩ := foldlM_cons_ok.mp ran
    have noDisc : step ≠ .disc fd := (List.ne_of_not_mem_cons still).symm
    have still : .disc fd ∉ after := List.not_mem_of_not_mem_cons still
    by_cases data : ∃ chunk, step = .data fd chunk
    · obtain ⟨chunk, is⟩ := data
      rw [is] at stepped
      rw [reset_ignores reset stepped] at rest
      exact ih away reset still rest
    · obtain ⟨stays, river, calls⟩ :=
        away.step (fun chunk is => data ⟨chunk, is⟩) noDisc stepped
      obtain ⟨lastRiver, lastCalls⟩ := ih stays (by rw [river]; exact reset) still rest
      exact ⟨lastRiver.trans river, lastCalls.trans calls⟩

/-- A descriptor that no bytes came from has a cleared river. -/
theorem run_unused {steps : List RcvStep} (never : ∀ chunk, .data fd chunk ∉ steps) {start : Rcv}
    (away : start.Away fd) (zero : start.river conf fd = River.zero)
    (ran : steps.foldlM (fun rcv step => rcv.step conf left step) start = .ok rcv) :
    rcv.river conf fd = River.zero := by
  induction steps generalizing start with
  | nil =>
    cases ran
    exact zero
  | cons step steps ih =>
    obtain ⟨mid, stepped, rest⟩ := foldlM_cons_ok.mp ran
    have later : ∀ chunk, .data fd chunk ∉ steps :=
      fun chunk among => never chunk (List.mem_cons_of_mem step among)
    by_cases disc : step = .disc fd
    · -- The disconnect of a descriptor with a cleared river clears what is clear.
      rw [disc] at stepped
      unfold Rcv.step at stepped
      dsimp only at stepped
      split at stepped
      · cases stepped
        rename_i idle
        refine ih later (Away.of_idle ((start.discCb_busy conf fd).trans idle)) ?_ rest
        rcases start.river_discCb conf fd fd with same | ⟨_, changed⟩
        · exact same.trans zero
        · rw [changed, zero]
          rfl
      · cases stepped
        exact ih later away zero rest
    · obtain ⟨stays, river, _⟩ := away.step
        (fun chunk is => never chunk (is ▸ List.mem_cons_self)) disc stepped
      exact ih later stays (river.trans zero) rest

/-- After a disconnect, whatever happens next is what would happen had the descriptor never been
used; a river that was reset delivers no message until then; and data on a descriptor leaves the
rivers of the others alone. -/
theorem disc_resets (conf : RcvConf) (rivers : 0 < conf.nrivers) (left : Leftover)
    {before : List RcvStep}
    {rcv : Rcv} (ran : Rcv.run conf left before = .ok rcv) {fd : Int} (low : 0 ≤ fd) :
    (rcv.busy = none → ∀ after : List RcvStep, Matched (Alike conf)
      (after.foldlM (fun rcv step => rcv.step conf left step) (rcv.discCb conf fd))
      (after.foldlM (fun rcv step => rcv.step conf left step) (rcv.unused conf fd))) ∧
    ((rcv.river conf fd).state = .reset → ∀ after : List RcvStep, .disc fd ∉ after → ∀ final,
      after.foldlM (fun rcv step => rcv.step conf left step) rcv = .ok final →
        final.river conf fd = rcv.river conf fd ∧ final.callsOn fd = rcv.callsOn fd) ∧
    (rcv.busy = none → ∀ chunk next, rcv.mtDataCb conf left fd chunk = .ok next →
      ∀ other, other ≠ fd → next.river conf other = rcv.river conf other) := by
  refine ⟨fun idle after => ?_, fun reset after still final later => ?_,
    fun idle chunk next called => ?_⟩
  · have served : Served conf fd := by
      unfold Served
      omega
    exact foldlM_matched (fun step alike => alike.step left step) after
      (rcv.alike_discCb idle served)
  · -- A callback at work on the river would have found it good.
    refine reset_silent (fun cb busy same => ?_) reset still later
    have good := ((Rcv.run_ok ran).busy cb busy).1
    rw [same, reset] at good
    cases good
  · exact fun other differs => mtDataCb_frame idle called differs

/-- A part of a size field arrives on a descriptor of the array, and one with a negative size on a
hashed one. -/
def partly : List RcvStep :=
  [.data 7 [5, 0], .pass, .data 2000 [255, 255, 255, 255, 255, 255, 255, 255, 36], .pass]

/-- Both are as good as new after a disconnect. -/
theorem disc_resets_partly :
    ∃ rcv, Rcv.run RcvConf.default (fun _ _ => 0) partly = .ok rcv ∧ rcv.busy = none ∧
      (rcv.river RcvConf.default 7).ipt = 2 ∧ (rcv.river RcvConf.default 2000).state = .reset ∧
      (∀ after : List RcvStep, Matched (Alike RcvConf.default)
        (after.foldlM (fun rcv step => rcv.step RcvConf.default (fun _ _ => 0) step)
          (rcv.discCb RcvConf.default 7))
        (after.foldlM (fun rcv step => rcv.step RcvConf.default (fun _ _ => 0) step)
          (rcv.unused RcvConf.default 7))) ∧
      (∀ chunk next, rcv.mtDataCb RcvConf.default (fun _ _ => 0) 2000 chunk = .ok next →
        ∀ other, other ≠ 2000 → next.river RcvConf.default other =
          rcv.river RcvConf.default other) := by
  -- The run is evaluated up to the disconnect; the theorem then tells of all that follows.
  have ends : ∃ rcv, Rcv.run RcvConf.default (fun _ _ => 0) partly = .ok rcv ∧ rcv.busy = none ∧
      (rcv.river RcvConf.default 7).ipt = 2 ∧ (rcv.river RcvConf.default 2000).state = .reset := by
    have yields : Yields (fun rcv : Rcv => rcv.busy = none ∧ (rcv.river RcvConf.default 7).ipt = 2 ∧
        (rcv.river RcvConf.default 2000).state = .reset)
        (Rcv.run RcvConf.default (fun _ _ => 0) partly) := by decide +kernel
    exact yields.exists
  obtain ⟨rcv, ran, idle, ipt, reset⟩ := ends
  exact ⟨rcv, ran, idle, ipt, reset,
    (disc_resets RcvConf.default (by decide) (fun _ _ => 0) ran (by decide)).1 idle,
    (disc_resets RcvConf.default (by decide) (fun _ _ => 0) ran (by decide)).2.2 idle⟩

end Rcv

end Rmr
