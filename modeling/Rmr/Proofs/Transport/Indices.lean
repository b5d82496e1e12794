import Rmr.Proofs.Transport.Blocks
import Rmr.Transport.Indices

/-! Laws of the indices that the transport uses: which calls keep them in range, and when `SIwait`
does. -/

namespace Rmr

open Traced

section
variable {fd : Int} {set : FdSet}

/-- `FD_SET` stays in range exactly if the descriptor is below the size of a set. -/
theorem fdSet_inRange : (set.fdSet fd).All Use.InRange ↔ 0 ≤ fd ∧ fd < fdSetsize := by
  simp [FdSet.fdSet, Use.InRange]

/-- So does `FD_ISSET`. -/
theorem fdIsset_inRange : (set.fdIsset fd).All Use.InRange ↔ 0 ≤ fd ∧ fd < fdSetsize := by
  simp [FdSet.fdIsset, Use.InRange]

end

namespace GinfoBlk

variable {ginfo : GinfoBlk} {fd : Int} {blk : Nat}

/-- A look into the map stays in range exactly if the descriptor is one of those that it has room
for. -/
theorem mapGet_inRange : (ginfo.mapGet fd).All Use.InRange ↔ 0 ≤ fd ∧ fd < maxFds := by
  simp [mapGet, Use.InRange]

/-- So does a change of it. -/
theorem mapSet_inRange {block : Option Nat} :
    (ginfo.mapSet fd block).All Use.InRange ↔ 0 ≤ fd ∧ fd < maxFds := by
  simp [mapSet, Use.InRange]

/-- `SImap_fd` checks for descriptors that are too large only. -/
theorem siMapFdUses_inRange : (ginfo.siMapFdUses fd blk).All Use.InRange ↔ 0 ≤ fd := by
  unfold siMapFdUses
  rw [all_ite, mapSet_inRange]
  -- Beyond the map nothing is set, and a descriptor there is not negative.
  simp only [all_pure, implies_true, and_true]
  omega

/-- `SIconnect` has a descriptor when it gets to the map. -/
theorem siConnectUses_inRange (prep : Option Nat) (connects : Bool) :
    (ginfo.siConnectUses blk prep connects).All Use.InRange := by
  unfold siConnectUses
  split
  · simp [siMapFdUses_inRange]
  · exact all_pure _

/-- `SIterm` checks the descriptor of the block. -/
theorem siTermUses_inRange : (ginfo.siTermUses blk).All Use.InRange := by
  simp only [siTermUses, all_bind, all_ite, mapSet_inRange, all_plain, all_pure]
  simp

/-- What `SInewsession` does up to its callback stays in range. -/
theorem siAccept_inRange (listener : Nat) (accepted : Option Nat) (allocates rejects : Bool) :
    (ginfo.siAccept listener blk accepted allocates rejects).All Use.InRange := by
  cases accepted with
  | none => simp [siAccept]
  | some fd => simp [siAccept, all_ite, siTermUses_inRange]

/-- `SIclose` looks into the map for descriptors that are in it only. -/
theorem closesUses_inRange : (ginfo.closesUses fd).All Use.InRange := by
  simp only [closesUses, all_ite, mapGet_inRange, all_plain]
  simp +contextual

/-- `SIclose` looks the descriptor up only where that is in range. -/
theorem siCloseUses_inRange : (ginfo.siCloseUses fd).All Use.InRange := by
  -- The block that the descriptor is mapped to is terminated, if there is one.
  simp only [siCloseUses, all_bind, closesUses_inRange, true_and]
  intro found _
  cases found with
  | none => exact all_pure _
  | some blk => simp [siTermUses_inRange]

/-- `SIsendt` checks the descriptor that it is given, and then that of the block. -/
theorem siSendtUses_inRange (poll : Poll) : (ginfo.siSendtUses fd poll).All Use.InRange := by
  -- The first test is the descriptor, and it decides whether anything else is read.
  unfold siSendtUses
  rw [all_ite]
  refine ⟨fun _ => all_pure _, fun asked => ?_⟩
  rw [all_bind]
  constructor
  · simp only [sendsTo, all_ite, mapGet_inRange, all_plain]
    simp [Int.not_lt.mp asked]
  · intro found _
    cases found with
    | none => exact all_pure _
    | some blk =>
      simp only [all_bind, all_plain, true_and, all_ite, all_pure, fdSet_inRange, fdIsset_inRange,
        siTermUses_inRange]
      intro cell _
      refine ⟨fun _ => trivial, fun is => ?_⟩
      simp only [not_or, Int.not_lt, Int.not_le, ge_iff_le] at is
      simp [is]

/-- What `SIbldpoll` does about a block that is marked stays in range. -/
theorem sweepUses_inRange (tp : Tp) : (ginfo.sweepUses blk tp).All Use.InRange := by
  simp [sweepUses, all_ite, siTermUses_inRange]

/-- Without the indices, `SImap_fd` is what it was. -/
@[simp] theorem result_siMapFdUses :
    (ginfo.siMapFdUses fd blk).result = .ok (ginfo.siMapFd fd blk) := by
  unfold siMapFdUses siMapFd
  split
  · simp only [mapSet, result_bind, result_mark, result_pure]
    rfl
  · rfl

/-- With its uses left out, it is `SIterm`. -/
@[simp] theorem result_siTermUses : (ginfo.siTermUses blk).result = ginfo.siTerm blk := by
  -- Only the uses differ, and the result does not see them.
  unfold siTermUses siTerm
  rw [result_bind, result_plain]
  refine bind_congr fun cell => ?_
  dsimp only
  split
  · simp only [mapSet, result_bind, result_mark, result_pure, result_plain]
    rfl
  · simp only [result_bind, result_pure, result_plain]
    rfl

/-- With its uses left out, it is `SIconnect`. -/
@[simp] theorem result_siConnectUses (prep : Option Nat) (connects : Bool) :
    (ginfo.siConnectUses blk prep connects).result = ginfo.siConnect blk prep connects := by
  -- The block is added first, and then its descriptor is mapped.
  cases prep with
  | none => rfl
  | some fd =>
    cases connects with
    | false => rfl
    | true =>
      simp only [siConnectUses, siConnect, result_bind, result_plain, result_siMapFdUses,
        result_pure]
      rfl

/-- With its uses left out, it is `SIclose`. -/
@[simp] theorem result_siCloseUses : (ginfo.siCloseUses fd).result = ginfo.siClose fd := by
  -- The map is read, or the list is walked; then the block is closed.
  have found : (ginfo.closesUses fd).result = ginfo.closes fd := by
    unfold closesUses closes
    split
    · split
      · rfl
      · rfl
    · split
      · rfl
      · rfl
  unfold siCloseUses siClose
  rw [result_bind, found]
  refine bind_congr fun found => ?_
  cases found with
  | none => rfl
  | some blk =>
    simp only [result_bind, result_plain, result_siTermUses, result_pure]
    rfl

/-- What `SIbldpoll` does with a marked block is what it was. -/
theorem result_sweepUses {tp : Tp} (marked : tp.delete = true) :
    (ginfo.sweepUses blk tp).result = ginfo.sweep blk tp := by
  -- A block that is marked is closed if it is open, and then removed.
  unfold sweepUses sweep
  rw [if_pos marked]
  split
  · rw [result_bind, result_siTermUses]
    rfl
  · rfl

/-- After the callback the descriptor of the block gets into the map. -/
theorem result_siAccepted {tp : Tp} (there : (ginfo.mem blk).map Cell.item = some tp) :
    (ginfo.siAccepted blk).result = .ok (ginfo.siMapFd tp.fd blk) := by
  obtain ⟨cell, held, rfl⟩ := Option.map_eq_some_iff.mp there
  rw [siAccepted, result_bind, result_plain, Cells.load_eq_ok.mpr held]
  exact result_siMapFdUses

/-- A new block is in memory. -/
theorem addHead_item {tp : Tp} {next : GinfoBlk} (added : ginfo.addHead blk tp = .ok next) :
    (next.mem blk).map Cell.item = some tp := by
  obtain ⟨⟨mem, tplist⟩, linked, done⟩ := bind_eq_ok.mp added
  cases done
  exact Cells.linkFront_item linked

/-- The halves of `SInewsession` are what it was, where nothing happens in the callback. -/
theorem result_siNewsessionUses (listener : Nat) (accepted : Option Nat)
    (allocates rejects : Bool) :
    (ginfo.siNewsessionUses listener blk accepted allocates rejects).result =
      ginfo.siNewsession listener blk accepted allocates rejects := by
  unfold siNewsessionUses siAccept siNewsession
  rw [result_bind, result_bind, result_plain]
  cases ginfo.mem.load listener with
  | error fault => rfl
  | ok cell =>
    rw [ok_bind, ok_bind]
    cases accepted with
    | none => rfl
    | some fd =>
      dsimp only
      cases decide (cell.item.fd < 0) || !allocates with
      | true => rfl
      | false =>
        rw [if_neg Bool.false_ne_true, if_neg Bool.false_ne_true, result_bind, result_plain]
        cases added : ginfo.addHead blk { Tp.new with fd := fd } with
        | error fault => rfl
        | ok mid =>
          rw [ok_bind, ok_bind]
          cases rejects with
          | true =>
            rw [if_pos rfl, if_pos rfl, result_bind, result_siTermUses]
            cases mid.siTerm blk with
            | error fault => rfl
            | ok next => rfl
          | false =>
            rw [if_neg Bool.false_ne_true, if_neg Bool.false_ne_true, result_bind, result_plain]
            cases set : mid.mem.setItem blk fun tp => { tp with session := true } with
            | error fault => rfl
            | ok mem =>
              -- Only the flag of the block has changed when its descriptor is read.
              have item : (mem blk).map Cell.item =
                  some { Tp.new with fd := fd, session := true } := by
                rw [Cells.setItem_item set, addHead_item added, Option.map_some]
              have mapped := @result_siAccepted { mid with mem := mem } blk _ item
              rw [ok_bind, ok_bind, result_pure, ok_bind]
              dsimp only at mapped ⊢
              rw [result_bind, mapped]
              rfl

/-- No block has a descriptor that `select` cannot be asked about. -/
def AllSmall (ginfo : GinfoBlk) : Prop :=
  ginfo.mem.Every fun tp : Tp => tp.fd < (fdSetsize : Int)

variable {next : GinfoBlk}

/-- It stays so when a block is added whose descriptor is small. -/
theorem AllSmall.addHead (small : ginfo.AllSmall) {tp : Tp}
    (added : ginfo.addHead blk tp = .ok next)
    (new : tp.fd < (fdSetsize : Int)) : next.AllSmall := by
  obtain ⟨⟨mem, tplist⟩, linked, done⟩ := bind_eq_ok.mp added
  cases done
  exact Cells.Every.linkFront small new linked

/-- Mapping a descriptor opens none. -/
theorem AllSmall.siMapFd (small : ginfo.AllSmall) : (ginfo.siMapFd fd blk).AllSmall := by
  unfold GinfoBlk.siMapFd
  split
  · exact small
  · exact small

/-- A change of a block that leaves its descriptor, or closes it. -/
theorem AllSmall.setItem (small : ginfo.AllSmall) {change : Tp → Tp} {mem : Cells Tp}
    (set : ginfo.mem.setItem blk change = .ok mem)
    (keeps : ∀ tp, (change tp).fd = tp.fd ∨ (change tp).fd = -1) :
    { ginfo with mem := mem }.AllSmall := by
  -- A closed block has the descriptor -1, which is small.
  refine Cells.Every.setItem small (fun tp isSmall => ?_) set
  rcases keeps tp with same | closed
  · rw [same]
    exact isSmall
  · rw [closed]
    decide

/-- Closing one opens none. -/
theorem AllSmall.siTerm (small : ginfo.AllSmall) (termed : ginfo.siTerm blk = .ok next) :
    next.AllSmall := by
  obtain ⟨cell, -, termed⟩ := bind_eq_ok.mp termed
  obtain ⟨mem, set, done⟩ := bind_eq_ok.mp termed
  cases done
  exact small.setItem set fun tp => .inr rfl

/-- It stays so when a listener gets a descriptor that is small. -/
theorem AllSmall.siListener (small : ginfo.AllSmall) {type : SockType} {prep : Option Nat}
    {listens : Bool} {status : Int} (given : ∀ fd ∈ prep, fd < fdSetsize)
    (made : ginfo.siListener type blk prep listens = .ok (next, status)) : next.AllSmall := by
  -- A block is made only with the descriptor that was given.
  cases prep with
  | none =>
    cases made
    exact small
  | some fd =>
    have new : (fd : Int) < fdSetsize := Int.ofNat_lt.mpr (given fd rfl)
    cases type with
    | dgram =>
      obtain ⟨mid, added, done⟩ := bind_eq_ok.mp made
      cases done
      exact small.addHead added new
    | stream =>
      cases listens with
      | false =>
        cases made
        exact Cells.Every.store small new
      | true =>
        obtain ⟨mid, added, done⟩ := bind_eq_ok.mp made
        cases done
        exact small.addHead added new

/-- So it does when a session that is connected gets one. -/
theorem AllSmall.siConnect (small : ginfo.AllSmall) {prep : Option Nat} {connects : Bool}
    {status : Int}
    (given : ∀ fd ∈ prep, fd < fdSetsize)
    (made : ginfo.siConnect blk prep connects = .ok (next, status)) : next.AllSmall := by
  -- A block is made only with the descriptor that was given, when the connection goes well.
  cases prep with
  | none =>
    cases made
    exact small
  | some fd =>
    cases connects with
    | false =>
      cases made
      exact small
    | true =>
      simp only [GinfoBlk.siConnect, bind_eq_ok, Pure.pure, Except.pure, Except.ok.injEq,
        Prod.mk.injEq] at made
      obtain ⟨mid, added, is, -⟩ := made
      have midSmall := small.addHead added (Int.ofNat_lt.mpr (given fd rfl))
      rw [← is]
      exact midSmall.siMapFd

/-- So it does when one that is accepted gets one. -/
theorem AllSmall.siAccept (small : ginfo.AllSmall) {listener : Nat} {accepted : Option Nat}
    {allocates rejects : Bool} {newtp : Option Nat} (given : ∀ fd ∈ accepted, fd < fdSetsize)
    (made : (ginfo.siAccept listener blk accepted allocates rejects).result = .ok (next, newtp)) :
    next.AllSmall := by
  -- The descriptor that is accepted is tested before the session gets a block.
  unfold GinfoBlk.siAccept at made
  rw [result_bind, result_plain] at made
  obtain ⟨cell, -, made⟩ := bind_eq_ok.mp made
  cases accepted with
  | none =>
    cases made
    exact small
  | some fd =>
    dsimp only at made
    split at made
    · cases made
      exact small
    · rw [result_bind, result_plain] at made
      obtain ⟨mid, added, made⟩ := bind_eq_ok.mp made
      have midSmall := small.addHead added (Int.ofNat_lt.mpr (given fd rfl))
      split at made
      · rw [result_bind, result_siTermUses] at made
        obtain ⟨last, termed, done⟩ := bind_eq_ok.mp made
        cases done
        exact midSmall.siTerm termed
      · rw [result_bind, result_plain] at made
        obtain ⟨mem, set, done⟩ := bind_eq_ok.mp made
        cases done
        exact midSmall.setItem set fun tp => .inl rfl

/-- Closing a session opens none. -/
theorem AllSmall.siClose (small : ginfo.AllSmall) {status : Int}
    (closed : ginfo.siClose fd = .ok (next, status)) : next.AllSmall := by
  -- Marking keeps the descriptor, closing takes it away.
  obtain ⟨found, -, closed⟩ := bind_eq_ok.mp closed
  cases found with
  | none =>
    cases closed
    exact small
  | some blk =>
    obtain ⟨mem, set, closed⟩ := bind_eq_ok.mp closed
    obtain ⟨last, termed, done⟩ := bind_eq_ok.mp closed
    cases done
    exact (small.setItem set fun tp => .inl rfl).siTerm termed

/-- Neither does sending on one, whatever `select` says. -/
theorem AllSmall.siSendt (small : ginfo.AllSmall) {poll : Poll}
    (sent : (ginfo.siSendtUses fd poll).result = .ok next) : next.AllSmall := by
  unfold siSendtUses at sent
  split at sent
  · cases sent
    exact small
  · rw [result_bind] at sent
    obtain ⟨found, -, sent⟩ := bind_eq_ok.mp sent
    cases found with
    | none =>
      cases sent
      exact small
    | some blk =>
      dsimp only at sent
      rw [result_bind] at sent
      obtain ⟨cell, -, sent⟩ := bind_eq_ok.mp sent
      split at sent
      · cases sent
        exact small
      · rw [result_bind] at sent
        obtain ⟨writefds, -, sent⟩ := bind_eq_ok.mp sent
        rw [result_bind] at sent
        obtain ⟨execpfds, -, sent⟩ := bind_eq_ok.mp sent
        split at sent
        · cases sent
          exact small
        · rw [result_bind] at sent
          obtain ⟨excepted, -, sent⟩ := bind_eq_ok.mp sent
          -- Only a connection with an exception is closed.
          cases excepted with
          | true =>
            simp only [if_true, result_siTermUses] at sent
            exact small.siTerm sent
          | false =>
            cases sent
            exact small

/-- Neither does removing a block. -/
theorem AllSmall.sweep (small : ginfo.AllSmall) {tp : Tp}
    (swept : (ginfo.sweepUses blk tp).result = .ok next) : next.AllSmall := by
  -- The block is closed before it is removed, if it is open.
  have removes : ∀ {mid : GinfoBlk}, mid.AllSmall → mid.siRmTpb blk = .ok next → next.AllSmall := by
    intro mid midSmall removed
    obtain ⟨cell, -, removed⟩ := bind_eq_ok.mp removed
    split at removed
    · obtain ⟨⟨mem, tplist⟩, unlinked, done⟩ := bind_eq_ok.mp removed
      cases done
      exact Cells.Every.unlink midSmall unlinked
    · cases removed
      exact Cells.Every.free midSmall
  unfold sweepUses at swept
  split at swept
  · rw [result_bind, result_siTermUses] at swept
    obtain ⟨mid, termed, removed⟩ := bind_eq_ok.mp swept
    exact removes (small.siTerm termed) removed
  · exact removes small swept

end GinfoBlk

namespace SiWait

open GinfoBlk

variable {si : SiWait} {blk : Nat}

/-- Whatever holds of the block that is loaded, if it is there. -/
theorem forall_load {Holds : Tp → Prop} :
    (∀ cell, si.ginfo.mem.load blk = .ok cell → Holds cell.item) ↔
    ∀ tp ∈ si.tpAt blk, Holds tp := by
  unfold tpAt Cells.load
  cases si.ginfo.mem blk with
  | none => simp
  | some cell => simp

/-- `SIbldpoll` puts the descriptor of any block into the sets that is open and not marked. -/
theorem bldpoll_inRange : (si.bldpoll blk).All Use.InRange ↔
    ∀ tp ∈ si.tpAt blk, tp.delete = false → tp.fd < fdSetsize := by
  rw [← forall_load]
  simp only [bldpoll, all_bind, all_plain, true_and, result_plain]
  refine forall₂_congr fun cell _ => ?_
  cases cell.item.delete with
  | true => simp [sweepUses_inRange]
  | false =>
    simp only [all_ite, all_bind, all_pure, fdSet_inRange]
    by_cases isOpen : 0 ≤ cell.item.fd
    · simp +contextual [isOpen]
    · -- One that is closed is less than any bound.
      have small : cell.item.fd < fdSetsize := by
        simp only [fdSetsize]
        omega
      simp [isOpen, small]

/-- What `SIwait` does with data that came on a block stays in range. -/
theorem reads_inRange (tp : Tp) (nextone : Option Nat) (comes : Comes) :
    (si.reads blk tp nextone comes).All Use.InRange := by
  simp [reads, all_ite, siAccept_inRange, siTermUses_inRange]

/-- The walk of `SIwait` tests the descriptor of any block that is open. -/
theorem walk_inRange (comes : Comes) : (si.walk blk comes).All Use.InRange ↔
    ∀ tp ∈ si.tpAt blk, tp.fd < fdSetsize := by
  -- A block that is closed is passed, and -1 is below the bound as well.
  rw [← forall_load]
  simp only [walk, all_bind, all_plain, true_and, result_plain]
  refine forall₂_congr fun cell _ => ?_
  simp only [all_ite, all_bind, all_pure, fdIsset_inRange, reads_inRange]
  by_cases isOpen : 0 ≤ cell.item.fd
  · simp +contextual [isOpen]
  · have small : cell.item.fd < fdSetsize := by
      simp only [fdSetsize]
      omega
    simp [isOpen, small]

/-- So does what `SIshutdown` does with a block. -/
theorem shut_inRange (tpb : Nat) : (si.shut tpb).All Use.InRange := by
  simp [shut, siTermUses_inRange]

/-- An event uses indices that are in range exactly when it meets the condition. -/
theorem step_inRange (event : TransportEvent) : (si.step event).All Use.InRange ↔
    event.Fits si := by
  cases event with
  | listener type blk prep listens => simp [step, TransportEvent.Fits, all_ite]
  | connect blk prep connects => simp [step, TransportEvent.Fits, all_ite, siConnectUses_inRange]
  | close fd => simp [step, TransportEvent.Fits, siCloseUses_inRange]
  | sendt fd poll => simp [step, TransportEvent.Fits, siSendtUses_inRange]
  | term blk => simp [step, TransportEvent.Fits, all_ite, siTermUses_inRange]
  | quit => simp [step, TransportEvent.Fits]
  | turn selected comes =>
    unfold step TransportEvent.Fits
    rcases si.phase with _ | (_ | blk) | (_ | blk) | ⟨newtp, nextone⟩ | (_ | tpb)
    · simp
    · simp
    · exact bldpoll_inRange
    · simp
    · exact walk_inRange comes
    · -- The descriptor is read after the callback.
      show _ ↔ ∀ tp ∈ si.tpAt newtp, 0 ≤ tp.fd
      rw [← forall_load]
      simp [siAccepted, siMapFdUses_inRange]
    · simp
    · simp [shut_inRange]

/-- A turn of `SIbldpoll` leaves what its loop leaves after the block. -/
theorem result_bldpoll {cell : Cell Tp} {mid : GinfoBlk} (loaded : si.ginfo.mem.load blk = .ok cell)
    (swept : si.ginfo.sweep blk cell.item = .ok mid) :
    ∃ next, (si.bldpoll blk).result = .ok next ∧ next.ginfo = mid ∧
      next.phase = .bldpoll cell.next := by
  -- A marked block is removed, any other one may go into the sets.
  unfold bldpoll
  rw [result_bind, result_plain, loaded, ok_bind]
  cases marked : cell.item.delete with
  | true =>
    have removed : (si.ginfo.sweepUses blk cell.item).result = si.ginfo.sweep blk cell.item :=
      result_sweepUses marked
    rw [swept] at removed
    refine ⟨{ si with ginfo := mid, phase := .bldpoll cell.next }, ?_, rfl, rfl⟩
    simp only [marked, if_true, result_bind, removed, result_pure]
    rfl
  | false =>
    have same : si.ginfo = mid := by
      simpa [sweep, marked] using swept
    by_cases isOpen : 0 ≤ cell.item.fd
    · simp only [marked, Bool.false_eq_true, if_false, isOpen, if_true]
      exact ⟨_, rfl, same, rfl⟩
    · simp only [marked, Bool.false_eq_true, if_false, isOpen]
      exact ⟨_, rfl, same, rfl⟩

/-- When nothing else happens, the turns of `SIbldpoll` are its loop. -/
theorem result_turns (selected : Selected) (comes : Comes) {fuel : Nat} {start : Option Nat}
    {final : GinfoBlk} (ran : siBldpollFrom fuel si.ginfo start = .ok final)
    (phase : si.phase = .bldpoll start) :
    ∃ turns ≤ fuel, ∃ next,
      ((List.replicate turns (.turn selected comes)).foldlM step si).result = .ok next ∧
      next.ginfo = final ∧ next.phase = .bldpoll none := by
  -- Induction on the turns that are left; each of them goes to the next block.
  induction fuel generalizing si start with
  | zero =>
    cases start with
    | none =>
      cases ran
      exact ⟨0, Nat.le_refl 0, si, rfl, rfl, phase⟩
    | some blk => cases ran
  | succ fuel ih =>
    cases start with
    | none =>
      cases ran
      exact ⟨0, Nat.zero_le _, si, rfl, rfl, phase⟩
    | some blk =>
      obtain ⟨cell, loaded, ran⟩ := bind_eq_ok.mp ran
      obtain ⟨mid, swept, ran⟩ := bind_eq_ok.mp ran
      obtain ⟨si', turned, rfl, onward⟩ := result_bldpoll loaded swept
      obtain ⟨turns, few, next, goesOn, is, done⟩ := ih ran onward
      have stepped : (step si (.turn selected comes)).result = .ok si' := by
        simp only [step, phase]
        exact turned
      refine ⟨turns + 1, Nat.succ_le_succ few, next, ?_, is, done⟩
      rw [List.replicate_succ, List.foldlM_cons, result_bind, stepped]
      exact goesOn

/-- Where a block is left in the list that `SIbldpoll` is at, with a descriptor that is too large,
the turns of `SIbldpoll` get to it. -/
theorem bldpoll_reaches (selected : Selected) (comes : Comes) {first rest : List (Nat × Tp)}
    (counted : si.ginfo.Counted (first ++ rest))
    (phase : si.phase = .bldpoll (rest.head?.map Prod.fst))
    {entry : Nat × Tp} (among : entry ∈ rest) (unmarked : entry.2.delete = false)
    (large : fdSetsize ≤ entry.2.fd) :
    ¬ ((List.replicate rest.length (.turn selected comes)).foldlM step si).All Use.InRange := by
  rw [all_foldlM]
  simp only [step_inRange]
  -- The induction is on the blocks that are left, all of which but this one are swept.
  induction rest generalizing si first with
  | nil => cases among
  | cons head rest ih =>
    obtain ⟨blk, tp⟩ := head
    rw [List.length_cons, List.replicate_succ, along_cons]
    intro both
    obtain ⟨fits, onward⟩ := both
    have loaded := counted.1.load
    have held : tp ∈ si.tpAt blk := by
      rw [tpAt, Cells.load_eq_ok.mp loaded]
      rfl
    simp only [TransportEvent.Fits, phase, List.head?_cons, Option.map_some] at fits
    rcases List.mem_cons.mp among with rfl | later
    · -- This is the block.
      exact absurd (fits tp held unmarked) (Int.not_lt.mpr large)
    · have others : tp.delete = true → first ≠ [] ∨ rest ≠ [] := fun _ =>
        .inr (List.ne_nil_of_mem later)
      obtain ⟨mid, swept, left⟩ := counted.sweep others
      obtain ⟨si', turned, rfl, phase'⟩ := result_bldpoll loaded swept
      have stepped : (step si (.turn selected comes)).result = .ok si' := by
        simp only [step, phase, List.head?_cons, Option.map_some]
        exact turned
      exact ih left phase' later (onward si' stepped)

/-- `SIwait` keeps the descriptors small, if a session that comes in has a small one. -/
theorem walk_small {next : SiWait} {comes : Comes} (small : si.ginfo.AllSmall)
    (given : ∀ fd ∈ comes.accepted, fd < fdSetsize)
    (walked : (si.walk blk comes).result = .ok next) : next.ginfo.AllSmall := by
  -- The block may be the listener, which gets a new session, or a session that is read.
  unfold walk at walked
  rw [result_bind, result_plain] at walked
  obtain ⟨cell, -, walked⟩ := bind_eq_ok.mp walked
  dsimp only at walked
  split at walked
  · rw [result_bind] at walked
    obtain ⟨excepted, -, walked⟩ := bind_eq_ok.mp walked
    split at walked
    · cases walked
      exact small
    · rw [result_bind] at walked
      obtain ⟨readable, -, walked⟩ := bind_eq_ok.mp walked
      split at walked
      · unfold reads at walked
        split at walked
        · split at walked
          · rw [result_bind] at walked
            obtain ⟨⟨ginfo, newtp⟩, accepted, done⟩ := bind_eq_ok.mp walked
            cases done
            exact small.siAccept given accepted
          · cases walked
            exact small
        · split at walked
          · cases walked
            exact small
          · rw [result_bind, result_siTermUses] at walked
            obtain ⟨ginfo, termed, done⟩ := bind_eq_ok.mp walked
            cases done
            exact small.siTerm termed
      · cases walked
        exact small
  · cases walked
    exact small

/-- An event keeps the descriptors small, if those that are given out with it are. -/
theorem step_small {next : SiWait} {event : TransportEvent} (small : si.ginfo.AllSmall)
    (given : event.Small) (stepped : (si.step event).result = .ok next) : next.ginfo.AllSmall := by
  cases event with
  | listener type blk prep listens =>
    simp only [step] at stepped
    split at stepped
    · rw [result_bind, result_plain] at stepped
      obtain ⟨⟨ginfo, status⟩, made, done⟩ := bind_eq_ok.mp stepped
      cases done
      exact small.siListener given made
    · cases stepped
      exact small
  | connect blk prep connects =>
    simp only [step] at stepped
    split at stepped
    · rw [result_bind, result_siConnectUses] at stepped
      obtain ⟨⟨ginfo, status⟩, made, done⟩ := bind_eq_ok.mp stepped
      cases done
      exact small.siConnect given made
    · cases stepped
      exact small
  | close fd =>
    simp only [step] at stepped
    rw [result_bind, result_siCloseUses] at stepped
    obtain ⟨⟨ginfo, status⟩, closed, done⟩ := bind_eq_ok.mp stepped
    cases done
    exact small.siClose closed
  | sendt fd poll =>
    simp only [step] at stepped
    rw [result_bind] at stepped
    obtain ⟨ginfo, sent, done⟩ := bind_eq_ok.mp stepped
    cases done
    exact small.siSendt sent
  | term blk =>
    simp only [step] at stepped
    split at stepped
    · rw [result_bind, result_siTermUses] at stepped
      obtain ⟨ginfo, termed, done⟩ := bind_eq_ok.mp stepped
      cases done
      exact small.siTerm termed
    · cases stepped
      exact small
  | quit =>
    cases stepped
    exact small
  | turn selected comes =>
    simp only [step] at stepped
    split at stepped
    · -- Sets are built for the list as it is.
      split at stepped
      · cases stepped
        exact small
      · cases stepped
        exact small
    · unfold bldpoll at stepped
      rw [result_bind, result_plain] at stepped
      obtain ⟨cell, -, stepped⟩ := bind_eq_ok.mp stepped
      dsimp only at stepped
      split at stepped
      · rw [result_bind] at stepped
        obtain ⟨ginfo, swept, done⟩ := bind_eq_ok.mp stepped
        cases done
        exact small.sweep swept
      · split at stepped
        · cases stepped
          exact small
        · cases stepped
          exact small
    · cases stepped
      cases selected
      · exact small
      · exact small
      · exact small
    · exact walk_small small given stepped
    · cases stepped
      unfold again
      split
      · exact small
      · split
        · exact small
        · exact small
    · rw [result_bind] at stepped
      obtain ⟨ginfo, mapped, done⟩ := bind_eq_ok.mp stepped
      cases done
      unfold siAccepted at mapped
      rw [result_bind, result_plain] at mapped
      obtain ⟨cell, -, mapped⟩ := bind_eq_ok.mp mapped
      rw [result_siMapFdUses] at mapped
      rw [← Except.ok.inj mapped]
      exact small.siMapFd
    · unfold shut at stepped
      rw [result_bind, result_plain] at stepped
      obtain ⟨mem, set, stepped⟩ := bind_eq_ok.mp stepped
      rw [result_bind, result_siTermUses] at stepped
      obtain ⟨ginfo, termed, stepped⟩ := bind_eq_ok.mp stepped
      rw [result_bind, result_plain] at stepped
      obtain ⟨cell, -, done⟩ := bind_eq_ok.mp stepped
      cases done
      exact (small.setItem set fun tp => .inl rfl).siTerm termed
    · cases stepped
      exact small

/-- In a run in which the operating system gives out small descriptors only, and no new session is
closed before it is in the map, all indices are in range. -/
theorem run_small (events : List TransportEvent)
    (along : Along (fun si event => (step si event).result)
      (fun si event => event.Small ∧ si.MapsOpen) init events) :
    (run events).All Use.InRange := by
  -- Descriptors stay small along the run, so that no use is out of range.
  have fits : (run events).All Use.InRange ↔ Along (fun si event => (step si event).result)
      (fun si event => (step si event).All Use.InRange) init events :=
    all_foldlM events init
  simp only [step_inRange] at fits
  refine fits.mpr (@Along.imp _ _ _ _ _ _ (fun si => si.ginfo.AllSmall) ?_ ?_ _ _ ?_ along)
  · intro si event next small both stepped
    exact step_small small both.1 stepped
  · intro si event small both
    cases event with
    | turn selected comes =>
      have bound : ∀ blk, ∀ tp ∈ si.tpAt blk, tp.fd < fdSetsize := small
      unfold TransportEvent.Fits
      cases phase : si.phase with
      | bldpoll tpptr =>
        cases tpptr with
        | none => trivial
        | some blk => exact fun tp held _ => bound blk tp held
      | walk tpptr =>
        cases tpptr with
        | none => trivial
        | some blk => exact bound blk
      | newsession newtp nextone => exact both.2 newtp nextone phase
      | idle => trivial
      | shutdown tpb => trivial
    | _ => trivial
  · intro addr item held
    cases held

/-- In every run the indices that are used are in range exactly when all events meet the
condition. -/
theorem run_inRange_iff (events : List TransportEvent) :
    (∀ use ∈ (run events).marks, use.InRange) ↔
      Along (fun si event => (step si event).result) TransportEvent.Fits init events := by
  -- The marks of a run are those of its steps, and each step says when its own are in range.
  have along : (run events).All Use.InRange ↔ Along (fun si event => (step si event).result)
      (fun si event => (step si event).All Use.InRange) init events :=
    all_foldlM events init
  simp only [step_inRange] at along
  exact along

/-- `SIwait` goes on; whatever it asks about can be read, and a session may come in. -/
def goesOn (accepted : Option Nat) : TransportEvent :=
  .turn (.ready (fun _ => true) fun _ => false) ⟨1, accepted, true, false, true⟩

/-- A session comes in for a listener, and is set up but for the map. -/
def accepts (fd : Nat) : List TransportEvent :=
  .listener .stream 0 (some 3) true :: List.replicate 4 (goesOn (some fd))

/-- `SIbldpoll` gets to a session with the descriptor 1024; and the first port is closed, which is
the session that is not in the map yet. -/
theorem run_outOfRange :
    (Use.set 1024 ∈ (run (accepts 1024 ++ List.replicate 4 (goesOn none))).marks ∧
      ¬ (Use.set 1024).InRange) ∧
    Use.map (-1) ∈ (run (accepts 4 ++ [.close (-1), goesOn none])).marks ∧
      ¬ (Use.map (-1)).InRange := by
  decide +kernel

end SiWait

end Rmr
