import Rmr.Lib.Run
import Rmr.Transport.Wait
import Rmr.Proofs.Transport.Session

/-! The receive thread goes on while senders close sessions, unless they close one whose descriptor
it has just given to `select`. -/

namespace Rmr

/-- The sets of descriptors are in use. -/
def WaitPc.inPass : WaitPc → Bool
  | .build _ => true
  | .ready => true
  | .serve _ => true
  | _ => false

/-- The block that `SIbldpoll` looks at next. -/
def WaitPc.polling : WaitPc → Option Nat
  | .build (blk :: _) => some blk
  | _ => none

namespace Waiter

variable {wtr : Waiter}

/-- The loop goes on, and does its work: nothing but a callback makes it shut down or leave, it
never waits for data that is not there, every session that it knew is watched, and every one that
there is something to read for is served. -/
structure Contained (wtr : Waiter) : Prop where
  shutdown : wtr.shutdown = true → wtr.asked = true
  left : wtr.pc = .left → (∃ blk ∈ wtr.si.tplist, ∃ tpptr, wtr.si.blks blk = some tpptr ∧
    tpptr.listener = true) → wtr.asked = true
  moves : wtr.pc ≠ .stuck
  watched : wtr.pc = .build [] → ∀ blk ∈ wtr.listed, ∀ fd, wtr.si.fdOf blk = some fd →
    fd ∈ wtr.readfds
  served : wtr.pc = .serve [] → ∀ blk ∈ wtr.due, blk ∈ wtr.served

/-- A sender closes a session only when no other one is doing so and, while the sets are in use, its
descriptor is not in them; and `SIbldpoll` does not look at a block that a sender is in the midst of
closing. -/
def Orderly (wtr : Waiter) (event : WaitEvent) : Prop :=
  match event with
  | .close fd => ∀ found ∈ wtr.si.target fd, found.1 ∉ wtr.terming ∧
    (wtr.pc.inPass = true → found.2 ∉ wtr.polled)
  | .wait _ _ => ∀ blk ∈ wtr.pc.polling, blk ∉ wtr.terming
  | _ => True

/-- What holds wherever the receive thread is. -/
structure Base (wtr : Waiter) : Prop where
  sound : wtr.si.Sound wtr.terming
  calm : ∀ {blk tpptr}, blk ∈ wtr.terming → wtr.si.blks blk = some tpptr → tpptr.listener = false
  listens : ∃ blk tpptr, blk ∈ wtr.si.tplist ∧ wtr.si.blks blk = some tpptr ∧
    tpptr.listener = true ∧ tpptr.deleted = false
  placed : ∀ {blk}, blk ∈ wtr.si.tplist → blk < wtr.si.nextBlk
  asked : wtr.shutdown = true → wtr.asked = true

/-- Every descriptor in the sets is that of a block that nobody is closing. -/
def Live (wtr : Waiter) : Prop :=
  ∀ fd ∈ wtr.polled, ∃ blk tpptr, wtr.si.blks blk = some tpptr ∧ tpptr.fd = some fd ∧
    blk ∉ wtr.terming

/-- What holds in `SIbldpoll`. -/
structure Polls (wtr : Waiter) (todo : List Nat) : Prop where
  live : wtr.Live
  seen : ∀ {blk tpptr fd}, blk ∈ wtr.listed → blk ∉ todo → wtr.si.blks blk = some tpptr →
    tpptr.fd = some fd → fd ∈ wtr.polled ∧ blk ∉ wtr.terming
  /-- Sessions that were opened since then are not in the sets. -/
  late : ∀ {blk tpptr fd}, wtr.bound ≤ blk → wtr.si.blks blk = some tpptr → tpptr.fd = some fd →
    fd ∉ wtr.polled
  early : ∀ {blk}, blk ∈ wtr.listed → blk < wtr.bound
  todo : ∀ {blk}, blk ∈ todo → blk ∈ wtr.listed
  listed : ∀ {blk}, blk ∈ wtr.si.tplist → blk ∈ wtr.listed ∨ wtr.bound ≤ blk
  bounded : wtr.bound ≤ wtr.si.nextBlk
  reads : wtr.readfds = wtr.polled
  execpts : wtr.execpfds = wtr.polled

/-- What holds of the blocks that are still to be looked at once `select` has returned. -/
structure Loaded (wtr : Waiter) (todo : List Nat) : Prop where
  known : ∀ {blk tpptr fd}, blk ∈ todo → wtr.si.blks blk = some tpptr → tpptr.fd = some fd →
    fd ∈ wtr.readfds → tpptr.session ∈ wtr.loaded ∧ blk ∉ wtr.terming
  placed : ∀ {blk}, blk ∈ todo → blk < wtr.si.nextBlk
  sub : ∀ {fd}, fd ∈ wtr.readfds → fd ∈ wtr.polled

/-- Whatever is due is served or still to be looked at. -/
def Serves (wtr : Waiter) (todo : List Nat) : Prop :=
  ∀ blk ∈ wtr.due, blk ∈ wtr.served ∨ (blk ∈ todo ∧ wtr.isDue blk = true)

/-- What holds where the receive thread is. -/
def Here (wtr : Waiter) : Prop :=
  match wtr.pc with
  | .top => True
  | .build todo => wtr.Polls todo
  | .ready => wtr.Loaded wtr.si.tplist ∧ wtr.Live
  | .serve todo => wtr.Loaded todo ∧ wtr.Serves todo
  | .stuck => False
  | .bottom => True
  | .left => wtr.asked = true

/-- The invariant. -/
structure Inv (wtr : Waiter) : Prop where
  base : wtr.Base
  here : wtr.Here

/-- A block is due if it has a descriptor that `select` says is readable, and without an exception.
-/
theorem isDue_iff {blk : Nat} : wtr.isDue blk = true ↔ ∃ tpptr fd, wtr.si.blks blk = some tpptr ∧
    tpptr.fd = some fd ∧ fd ∈ wtr.readfds ∧ fd ∉ wtr.execpfds := by
  -- A block without a descriptor is never due.
  unfold isDue
  constructor
  · intro due
    split at due
    · cases due
    · rename_i fd has
      obtain ⟨tpptr, there, has⟩ := Si.fdOf_eq_some.mp has
      exact ⟨tpptr, fd, there, has, by simpa using due⟩
  · rintro ⟨tpptr, fd, there, has, sets⟩
    rw [Si.fdOf_eq_some.mpr ⟨tpptr, there, has⟩]
    simpa using sets

/-- The invariant gives what is claimed of the loop. -/
theorem Inv.contained (inv : wtr.Inv) : wtr.Contained := by
  -- By where the receive thread is: each part speaks of one place.
  obtain ⟨base, here⟩ := inv
  unfold Here at here
  constructor
  · exact base.asked
  · intro left _
    rw [left] at here
    exact here
  · intro stuck
    rw [stuck] at here
    exact here
  · intro built blk among fd has
    rw [built] at here
    obtain ⟨tpptr, there, has⟩ := Si.fdOf_eq_some.mp has
    rw [here.reads]
    exact (here.seen among List.not_mem_nil there has).1
  · intro done blk among
    rw [done] at here
    rcases here.2 blk among with served | ⟨todo, _⟩
    · exact served
    · cases todo

/-- There is the listener only. -/
theorem init_inv (fd : Nat) : (init fd).Inv := by
  -- The listener is the only block, and nobody asked for an end.
  refine ⟨⟨Si.init_sound fd, ?_, ?_, ?_, ?_⟩, trivial⟩
  · intro blk tpptr among
    cases among
  · exact ⟨0, { fd := some fd, listener := true, deleted := false, session := 0 },
      List.mem_singleton.mpr rfl, rfl, rfl, rfl⟩
  · intro blk among
    rw [List.mem_singleton.mp among]
    exact Nat.one_pos
  · intro shutdown
    cases shutdown

/-- What is common to all changes of the blocks that leave the list and its listener alone. -/
theorem Base.listens_of (base : wtr.Base) {si : Si}
    (kept : ∀ {blk tpptr}, wtr.si.blks blk = some tpptr → tpptr.listener = true →
      si.blks blk = some tpptr)
    (tplist : ∀ {blk}, blk ∈ wtr.si.tplist → blk ∈ si.tplist) :
    ∃ blk tpptr, blk ∈ si.tplist ∧ si.blks blk = some tpptr ∧ tpptr.listener = true ∧
      tpptr.deleted = false := by
  obtain ⟨blk, tpptr, among, there, listener, undeleted⟩ := base.listens
  exact ⟨blk, tpptr, tplist among, kept there listener, listener, undeleted⟩

/-- No descriptor in the sets is closed. -/
theorem Live.open_ (live : wtr.Live) (base : wtr.Base) {fd : Nat} (among : fd ∈ wtr.polled) :
    wtr.si.os fd ≠ none := by
  -- A descriptor in the sets belongs to a block that nobody is terminating, which owns it.
  obtain ⟨blk, tpptr, there, has, calm⟩ := live fd among
  rw [base.sound.owned there has calm]
  simp

/-- A session that is opened leaves the base as it is. -/
theorem Base.open_ (base : wtr.Base) {fd : Nat} (free : wtr.si.os fd = none) :
    Base { wtr with si := wtr.si.open_ fd } := by
  -- The new block is not marked and is no listener.
  refine ⟨base.sound.open_ free, ?_, ?_, ?_, base.asked⟩
  · intro blk tpptr among there
    rcases Si.open_blks there with ⟨_, rfl⟩ | ⟨_, before⟩
    · rfl
    · exact base.calm among before
  · refine base.listens_of (fun there _ => Si.open_old base.sound there) ?_
    intro blk among
    rw [Si.open_tplist]
    exact List.mem_cons_of_mem _ among
  · intro blk among
    dsimp only at among ⊢
    rw [Si.open_tplist, List.mem_cons] at among
    rw [Si.open_nextBlk]
    rcases among with rfl | among
    · exact Nat.lt_succ_self _
    · exact Nat.lt_succ_of_lt (base.placed among)

/-- A session that is opened is live. -/
theorem Live.opens (live : wtr.Live) (base : wtr.Base) (fd : Nat) :
    Live { wtr with si := wtr.si.open_ fd } := by
  -- The blocks that were there are as before.
  intro fd' among
  obtain ⟨blk, tpptr, there, rest⟩ := live fd' among
  exact ⟨blk, tpptr, Si.open_old base.sound there, rest⟩

/-- Blocks that are still to be looked at stay as they are when a session is opened. -/
theorem Loaded.open_ {todo : List Nat} (loaded : wtr.Loaded todo) (fd : Nat) :
    Loaded { wtr with si := wtr.si.open_ fd } todo := by
  -- The new block is not among those still to be looked at.
  refine ⟨?_, ?_, loaded.sub⟩
  · intro blk tpptr fd' among there
    have old : blk ≠ wtr.si.nextBlk := Nat.ne_of_lt (loaded.placed among)
    dsimp only at there
    rw [Si.open_blks_of_ne old] at there
    exact loaded.known among there
  · intro blk among
    dsimp only
    rw [Si.open_nextBlk]
    exact Nat.lt_succ_of_lt (loaded.placed among)

/-- What is due stays so when the blocks to look at stay as they are. -/
theorem Serves.of_blks {todo : List Nat} (serves : wtr.Serves todo) {si : Si}
    (same : ∀ {blk}, blk ∈ todo → wtr.isDue blk = true → si.fdOf blk = wtr.si.fdOf blk) :
    Serves { wtr with si := si } todo := by
  -- A block that was served stays so; one that is due is looked up as before.
  intro blk among
  rcases serves blk among with served | ⟨todo, due⟩
  · exact .inl served
  · refine .inr ⟨todo, ?_⟩
    unfold isDue at due ⊢
    dsimp only
    rw [same todo due]
    exact due

/-- What others do keeps what holds where the receive thread is, if it does so for each place. -/
theorem Here.imp {next : Waiter} (here : wtr.Here) (pc : next.pc = wtr.pc)
    (asked : wtr.asked = true → next.asked = true)
    (build : ∀ {todo}, wtr.pc = .build todo → wtr.Polls todo → next.Polls todo)
    (ready : wtr.pc = .ready → wtr.Loaded wtr.si.tplist → wtr.Live →
      next.Loaded next.si.tplist ∧ next.Live)
    (serve : ∀ {todo}, wtr.pc = .serve todo → wtr.Loaded todo → wtr.Serves todo →
      next.Loaded todo ∧ next.Serves todo) : next.Here := by
  -- By where the receive thread is, which is the same before and after.
  unfold Here at here ⊢
  rw [pc]
  cases where_ : wtr.pc with
  | top => trivial
  | build todo =>
    rw [where_] at here
    exact build where_ here
  | ready =>
    rw [where_] at here
    exact ready where_ here.1 here.2
  | serve todo =>
    rw [where_] at here
    exact serve where_ here.1 here.2
  | stuck =>
    rw [where_] at here
    exact here
  | bottom => trivial
  | left =>
    rw [where_] at here
    exact asked here

/-- A session that is opened while `SIbldpoll` is under way is not one that it walks over. -/
theorem Polls.open_ {todo : List Nat} (polls : wtr.Polls todo) (base : wtr.Base) {fd : Nat}
    (free : wtr.si.os fd = none) : Polls { wtr with si := wtr.si.open_ fd } todo := by
  refine ⟨Live.opens polls.live base fd, ?_, ?_, polls.early, polls.todo, ?_, ?_, polls.reads,
    polls.execpts⟩
  · intro blk tpptr fd' among done there
    have old : blk ≠ wtr.si.nextBlk :=
      Nat.ne_of_lt (Nat.lt_of_lt_of_le (polls.early among) polls.bounded)
    dsimp only at there
    rw [Si.open_blks_of_ne old] at there
    exact polls.seen among done there
  · intro blk tpptr fd' late there has
    rcases Si.open_blks there with ⟨_, rfl⟩ | ⟨_, before⟩
    · -- A descriptor that was free is not in the sets.
      cases has
      intro among
      exact Live.open_ polls.live base among free
    · exact polls.late late before has
  · intro blk among
    dsimp only at among
    rw [Si.open_tplist, List.mem_cons] at among
    rcases among with rfl | among
    · exact .inr polls.bounded
    · exact polls.listed among
  · dsimp only
    rw [Si.open_nextBlk]
    exact Nat.le_succ_of_le polls.bounded

/-- A sender may connect a session at any time. -/
theorem Inv.connect (inv : wtr.Inv) {fd : Nat} (free : wtr.si.os fd = none) :
    Inv { wtr with si := wtr.si.open_ fd } := by
  -- The new block may get the number of one that was closed, but of none in the sets.
  obtain ⟨base, here⟩ := inv
  refine ⟨base.open_ free, here.imp rfl id (fun _ polls => polls.open_ base free) ?_ ?_⟩
  · intro _ loaded live
    refine ⟨⟨?_, (base.open_ free).placed, loaded.sub⟩, live.opens base fd⟩
    intro blk tpptr fd' among there has reads
    rcases Si.open_blks there with ⟨_, rfl⟩ | ⟨new, before⟩
    · cases has
      exact absurd free (live.open_ base (loaded.sub reads))
    · dsimp only at among
      rw [Si.open_tplist, List.mem_cons] at among
      exact loaded.known (among.resolve_left new) before has reads
  · intro todo _ loaded serves
    refine ⟨loaded.open_ fd, serves.of_blks ?_⟩
    intro blk among _
    unfold Si.fdOf
    rw [Si.open_blks_of_ne (Nat.ne_of_lt (loaded.placed among))]

/-- A sender begins to close a session whose descriptor is not in the sets. -/
theorem Inv.close (inv : wtr.Inv) {fd : Nat} (orderly : wtr.Orderly (.close fd)) :
    (wtr.close fd).Inv := by
  obtain ⟨base, here⟩ := inv
  unfold Waiter.close
  split
  · exact ⟨base, here⟩
  · rename_i blk fd' found
    obtain ⟨calm, outside⟩ := orderly _ found
    dsimp only at calm outside
    obtain ⟨rfl, tpptr, there, has, listener⟩ := base.sound.target_eq found
    -- A block whose descriptor is in the sets is another one.
    have other : wtr.pc.inPass = true → ∀ {blk' tpptr' fd}, wtr.si.blks blk' = some tpptr' →
        tpptr'.fd = some fd → fd ∈ wtr.polled → blk' ≠ blk := by
      rintro pass blk' tpptr' fd there' has' among rfl
      cases there.symm.trans there'
      cases has.symm.trans has'
      exact outside pass among
    have still : wtr.pc.inPass = true → wtr.Live → Live { wtr with
        si := wtr.si.shut fd', terming := blk :: wtr.terming } := by
      intro pass live fd among
      obtain ⟨blk', tpptr', there', has', calm'⟩ := live fd among
      exact ⟨blk', tpptr', there', has', by simp [other pass there' has' among, calm']⟩
    have known : wtr.pc.inPass = true → ∀ {todo}, wtr.Loaded todo → Loaded { wtr with
        si := wtr.si.shut fd', terming := blk :: wtr.terming } todo := by
      intro pass todo loaded
      refine ⟨?_, loaded.placed, loaded.sub⟩
      intro blk' tpptr' fd among there' has' reads
      obtain ⟨session, calm'⟩ := loaded.known among there' has' reads
      exact ⟨session, by simp [other pass there' has' (loaded.sub reads), calm']⟩
    refine ⟨⟨base.sound.shut there has calm, ?_, base.listens, base.placed, base.asked⟩, ?_⟩
    · intro blk' tpptr' among there'
      rcases List.mem_cons.mp among with rfl | among
      · cases there.symm.trans there'
        exact listener
      · exact base.calm among there'
    · refine here.imp rfl id ?_ ?_ ?_
      · intro todo pc polls
        have pass : wtr.pc.inPass = true := by rw [pc]; rfl
        refine ⟨still pass polls.live, ?_, polls.late, polls.early, polls.todo, polls.listed,
          polls.bounded, polls.reads, polls.execpts⟩
        intro blk' tpptr' fd among done there' has'
        obtain ⟨polled, calm'⟩ := polls.seen among done there' has'
        exact ⟨polled, by simp [other pass there' has' polled, calm']⟩
      · intro pc loaded live
        have pass : wtr.pc.inPass = true := by rw [pc]; rfl
        exact ⟨known pass loaded, still pass live⟩
      · intro todo pc loaded serves
        have pass : wtr.pc.inPass = true := by rw [pc]; rfl
        exact ⟨known pass loaded, serves⟩

/-- A sender is done with closing a session. -/
theorem Inv.mark (inv : wtr.Inv) {blk : Nat} (among : blk ∈ wtr.terming) :
    Inv { wtr with si := wtr.si.mark blk, terming := wtr.terming.erase blk } := by
  obtain ⟨base, here⟩ := inv
  -- What nobody was closing is still there, and nobody is closing it.
  have calm : ∀ {blk'}, blk' ∉ wtr.terming → blk' ∉ wtr.terming.erase blk :=
    fun calm' among' => calm' (List.mem_of_mem_erase among')
  have kept : ∀ {blk'}, blk' ∉ wtr.terming → (wtr.si.mark blk).blks blk' = wtr.si.blks blk' := by
    intro blk' calm'
    apply Si.mark_blks_of_ne
    rintro rfl
    exact calm' among
  have still : wtr.Live → Live { wtr with
      si := wtr.si.mark blk, terming := wtr.terming.erase blk } := by
    intro live fd polled
    obtain ⟨blk', tpptr', there', has', calm'⟩ := live fd polled
    exact ⟨blk', tpptr', (kept calm').trans there', has', calm calm'⟩
  have known : ∀ {todo}, wtr.Loaded todo → Loaded { wtr with
      si := wtr.si.mark blk, terming := wtr.terming.erase blk } todo := by
    intro todo loaded
    refine ⟨?_, ?_, loaded.sub⟩
    · intro blk' tpptr' fd among' there' has' reads
      obtain ⟨session, calm'⟩ := loaded.known among' (Si.mark_fd there' has').2 has' reads
      exact ⟨session, calm calm'⟩
    · intro blk' among'
      dsimp only
      rw [Si.mark_nextBlk]
      exact loaded.placed among'
  refine ⟨⟨base.sound.mark blk, ?_, ?_, ?_, base.asked⟩, here.imp rfl id ?_ ?_ ?_⟩
  · intro blk' tpptr' among' there'
    dsimp only at among' there'
    by_cases same : blk' = blk
    · subst same
      cases before : wtr.si.blks blk' with
      | none =>
        rw [Si.mark_of_nil before] at there'
        cases before.symm.trans there'
      | some tpptr =>
        rw [Si.mark_eq before] at there'
        cases Option.some.inj (there'.symm.trans (Function.update_self _ _ _))
        have listener := base.calm among before
        exact listener
    · rw [Si.mark_blks_of_ne same] at there'
      exact base.calm (List.mem_of_mem_erase among') there'
  · refine base.listens_of ?_ (fun among' => by rw [Si.mark_tplist]; exact among')
    intro blk' tpptr' there' listener
    rw [Si.mark_blks_of_ne ?_]
    · exact there'
    · rintro rfl
      cases listener.symm.trans (base.calm among there')
  · intro blk' among'
    dsimp only at among' ⊢
    rw [Si.mark_tplist] at among'
    rw [Si.mark_nextBlk]
    exact base.placed among'
  · intro todo _ polls
    refine ⟨still polls.live, ?_, ?_, polls.early, polls.todo, ?_, ?_, polls.reads, polls.execpts⟩
    · intro blk' tpptr' fd listed done there' has'
      obtain ⟨polled, calm'⟩ := polls.seen listed done (Si.mark_fd there' has').2 has'
      exact ⟨polled, calm calm'⟩
    · intro blk' tpptr' fd late there' has'
      exact polls.late late (Si.mark_fd there' has').2 has'
    · intro blk' among'
      dsimp only at among'
      rw [Si.mark_tplist] at among'
      exact polls.listed among'
    · dsimp only
      rw [Si.mark_nextBlk]
      exact polls.bounded
  · intro _ loaded live
    refine ⟨?_, still live⟩
    dsimp only
    rw [Si.mark_tplist]
    exact known loaded
  · intro todo _ loaded serves
    refine ⟨known loaded, ?_⟩
    intro blk' due
    rcases serves blk' due with served | ⟨todo', isDue⟩
    · exact .inl served
    · -- What is due is not being closed.
      refine .inr ⟨todo', ?_⟩
      obtain ⟨tpptr', fd, there', has', reads, execpts⟩ := isDue_iff.mp isDue
      have calm' := (loaded.known todo' there' has' reads).2
      exact isDue_iff.mpr ⟨tpptr', fd, (kept calm').trans there', has', reads, execpts⟩

/-- `SIbldpoll` begins. -/
theorem Base.polls (base : wtr.Base) : Polls { wtr with
    readfds := []
    execpfds := []
    polled := []
    due := []
    served := []
    listed := wtr.si.tplist
    bound := wtr.si.nextBlk
    pc := .build wtr.si.tplist } wtr.si.tplist where
  -- Nothing was looked at yet, and all blocks are still to come.
  live := fun _ among => absurd among List.not_mem_nil
  seen := fun among done => absurd among done
  late := fun _ _ _ => List.not_mem_nil
  early := base.placed
  todo := id
  listed := .inl
  bounded := Nat.le_refl _
  reads := rfl
  execpts := rfl

/-- A block that has no descriptor needs no place in the sets. -/
theorem Polls.skip {blk : Nat} {todo : List Nat} (polls : wtr.Polls (blk :: todo))
    (none : ∀ {tpptr fd}, wtr.si.blks blk = some tpptr → tpptr.fd ≠ some fd) :
    wtr.Polls todo := by
  -- Other blocks than this one were looked at or are still to come, as before.
  refine ⟨polls.live, ?_, polls.late, polls.early,
    fun among => polls.todo (List.mem_cons_of_mem _ among), polls.listed, polls.bounded,
      polls.reads,
    polls.execpts⟩
  intro blk' tpptr fd among done there has
  have apart : blk' ≠ blk := by
    rintro rfl
    exact none there has
  exact polls.seen among (by simp [apart, done]) there has

/-- A block that is marked is removed. -/
theorem Polls.remove {blk : Nat} {todo : List Nat} (polls : wtr.Polls todo)
    (removed : wtr.si.remove blk = wtr.si ∨ ∃ tpptr, wtr.si.blks blk = some tpptr ∧
      tpptr.fd = none ∧ tpptr.deleted = true ∧ wtr.si.remove blk = { wtr.si with
        blks := Function.update wtr.si.blks blk none
        tplist := wtr.si.tplist.erase blk }) :
    Polls { wtr with si := wtr.si.remove blk } todo := by
  -- By whether the block is removed at all; if so, it has no descriptor in the sets.
  rcases removed with same | ⟨tpptr, there, gone, _, removed⟩
  · rw [same]
    exact polls
  · rw [removed]
    have old : ∀ {blk' tpptr'}, Function.update wtr.si.blks blk Option.none blk' = some tpptr' →
        wtr.si.blks blk' = some tpptr' := by
      intro blk' tpptr' there'
      rw [Function.update_apply] at there'
      split at there'
      · cases there'
      · exact there'
    refine ⟨?_, ?_, ?_, polls.early, polls.todo, ?_, polls.bounded, polls.reads, polls.execpts⟩
    · intro fd among
      obtain ⟨blk', tpptr', there', has', calm'⟩ := polls.live fd among
      refine ⟨blk', tpptr', ?_, has', calm'⟩
      dsimp only
      rw [Function.update_of_ne ?_]
      · exact there'
      · rintro rfl
        cases there.symm.trans there'
        cases gone.symm.trans has'
    · intro blk' tpptr' fd among done there' has'
      exact polls.seen among done (old there') has'
    · intro blk' tpptr' fd late there' has'
      exact polls.late late (old there') has'
    · intro blk' among
      exact polls.listed (List.mem_of_mem_erase among)

/-- A descriptor that nobody is closing goes into the sets. -/
theorem Polls.poll {blk fd : Nat} {tpptr : TpBlk} {todo : List Nat}
    (polls : wtr.Polls (blk :: todo)) (base : wtr.Base) (there : wtr.si.blks blk = some tpptr)
    (has : tpptr.fd = some fd) (calm : blk ∉ wtr.terming) : (wtr.poll fd).Polls todo := by
  refine ⟨?_, ?_, ?_, polls.early, fun among => polls.todo (List.mem_cons_of_mem _ among),
    polls.listed, polls.bounded, ?_, ?_⟩
  · intro fd' among
    rcases List.mem_cons.mp among with rfl | among
    · exact ⟨blk, tpptr, there, has, calm⟩
    · exact polls.live fd' among
  · intro blk' tpptr' fd' among done there' has'
    by_cases same : blk' = blk
    · subst same
      cases there.symm.trans there'
      cases has.symm.trans has'
      exact ⟨List.mem_cons_self, calm⟩
    · obtain ⟨polled, calm'⟩ := polls.seen among (by simp [same, done]) there' has'
      exact ⟨List.mem_cons_of_mem _ polled, calm'⟩
  · intro blk' tpptr' fd' late there' has' among
    rcases List.mem_cons.mp among with rfl | among
    · -- Only a block that is being closed would share it with a later one.
      have first : blk < blk' :=
        Nat.lt_of_lt_of_le (polls.early (polls.todo List.mem_cons_self)) late
      exact calm (base.sound.newer there there' has has' first)
    · exact polls.late late there' has' among
  · exact congrArg (fd :: ·) polls.reads
  · exact congrArg (fd :: ·) polls.execpts

/-- A block that is marked is no listener that is needed. -/
theorem Base.remove (base : wtr.Base) (blk : Nat) :
    Base { wtr with si := wtr.si.remove blk } := by
  -- Only a block that is marked and closed is removed, and no listener is.
  rcases base.sound.remove_cases blk with same | ⟨tpptr, there, gone, deleted, removed⟩
  · rw [same]
    exact base
  · have sound := base.sound.remove blk
    rw [removed] at sound ⊢
    refine ⟨sound, ?_, ?_, ?_, base.asked⟩
    · intro blk' tpptr' among there'
      dsimp only at there'
      rw [Function.update_apply] at there'
      split at there'
      · cases there'
      · exact base.calm among there'
    · obtain ⟨blk', tpptr', among, there', listener, undeleted⟩ := base.listens
      have apart : blk' ≠ blk := by
        rintro rfl
        cases there.symm.trans there'
        cases deleted.symm.trans undeleted
      exact ⟨blk', tpptr', (List.mem_erase_of_ne apart).mpr among,
        (Function.update_of_ne apart _ _).trans there', listener, undeleted⟩
    · intro blk' among
      exact base.placed (List.mem_of_mem_erase among)

/-- `SIbldpoll` looks at a block. -/
theorem Polls.bldpoll {blk : Nat} {todo : List Nat} (polls : wtr.Polls (blk :: todo))
    (base : wtr.Base) (calm : blk ∉ wtr.terming) :
    (wtr.bldpoll blk).Base ∧ (wtr.bldpoll blk).Polls todo := by
  -- A block that is marked and closed goes; one that is open is put into the sets.
  unfold Waiter.bldpoll
  split
  · rename_i nil
    refine ⟨base, polls.skip ?_⟩
    intro tpptr fd there
    cases nil.symm.trans there
  · rename_i tpptr there
    split
    · rename_i deleted
      have skipped : wtr.Polls todo := by
        refine polls.skip ?_
        intro tpptr' fd there' has
        cases there.symm.trans there'
        cases (base.sound.gone there deleted).symm.trans has
      exact ⟨base.remove blk, skipped.remove (base.sound.remove_cases blk)⟩
    · split
      · rename_i gone
        refine ⟨base, polls.skip ?_⟩
        intro tpptr' fd there' has
        cases there.symm.trans there'
        cases gone.symm.trans has
      · rename_i fd has
        exact ⟨⟨base.sound, base.calm, base.listens, base.placed, base.asked⟩,
          polls.poll base there has calm⟩

/-- The base does not depend on where the receive thread is and what is in the sets. -/
theorem Base.congr (base : wtr.Base) {next : Waiter} (si : next.si = wtr.si)
    (terming : next.terming = wtr.terming) (asked : next.shutdown = true → next.asked = true) :
    next.Base := by
  -- The base speaks of the blocks and of who is terminating, and of nothing else.
  refine ⟨?_, ?_, ?_, ?_, asked⟩
  · rw [si, terming]
    exact base.sound
  · rw [si, terming]
    exact base.calm
  · rw [si]
    exact base.listens
  · rw [si]
    exact base.placed

/-- With all descriptors in its sets open, `select` does not fail, and it returns for sessions that
the blocks have. -/
theorem Inv.select (inv : wtr.Inv) (pc : wtr.pc = .build []) (ret : SelectRet) :
    (wtr.select ret).Inv := by
  obtain ⟨base, here⟩ := inv
  unfold Here at here
  rw [pc] at here
  have polls : wtr.Polls [] := here
  have allOpen : ¬ ∃ fd ∈ wtr.execpfds, wtr.si.os fd = none := by
    rintro ⟨fd, among, closed⟩
    rw [polls.execpts] at among
    exact Live.open_ polls.live base among closed
  unfold Waiter.select
  rw [if_neg allOpen]
  cases ret with
  | interrupted => exact ⟨base.congr rfl rfl base.asked, trivial⟩
  | done reads excepts =>
    dsimp only
    split
    · refine ⟨base.congr rfl rfl base.asked, ⟨?_, base.placed, ?_⟩, polls.live⟩
      · intro blk tpptr fd among there has loaded
        have reading := List.mem_of_mem_filter loaded
        rw [polls.reads] at reading
        -- A block that is in the sets was there when they were built.
        have listed : blk ∈ wtr.listed := by
          rcases polls.listed among with listed | late
          · exact listed
          · exact absurd reading (polls.late late there has)
        have calm := (polls.seen listed List.not_mem_nil there has).2
        refine ⟨?_, calm⟩
        exact List.mem_filterMap.mpr ⟨fd, loaded, base.sound.owned there has calm⟩
      · intro fd loaded
        rw [← polls.reads]
        exact List.mem_of_mem_filter loaded
    · exact ⟨base.congr rfl rfl base.asked, trivial⟩

/-- A block that is due is served, and the others stay as they are. -/
theorem Inv.receive {blk : Nat} {tpptr : TpBlk} {todo : List Nat} (base : wtr.Base)
    (loaded : wtr.Loaded (blk :: todo)) (serves : wtr.Serves (blk :: todo))
    (there : wtr.si.blks blk = some tpptr) (calm : blk ∉ wtr.terming) (ret : ServeRet) :
    (wtr.receive blk tpptr ret).Base ∧ (wtr.receive blk tpptr ret).Loaded todo ∧
      (wtr.receive blk tpptr ret).Serves todo := by
  -- The block is noted as served first.
  have known : wtr.Loaded todo := ⟨fun among => loaded.known (List.mem_cons_of_mem _ among),
    fun among => loaded.placed (List.mem_cons_of_mem _ among), loaded.sub⟩
  have noted : Serves { wtr with served := wtr.served ++ [blk] } todo := by
    intro blk' due
    rcases serves blk' due with served | ⟨among, isDue⟩
    · exact .inl (List.mem_append_left _ served)
    · rcases List.mem_cons.mp among with rfl | among
      · exact .inl (List.mem_append_right _ List.mem_cons_self)
      · exact .inr ⟨among, isDue⟩
  have quits : ∀ quit, ((wtr.shutdown || quit) = true → (wtr.asked || quit) = true) := by
    intro quit
    cases quit with
    | false =>
      rw [Bool.or_false, Bool.or_false]
      exact base.asked
    | true =>
      intro _
      exact Bool.or_true _
  unfold Waiter.receive
  dsimp only
  split
  · split
    · rename_i fd
      split
      · exact ⟨base.congr rfl rfl base.asked, ⟨known.known, known.placed, known.sub⟩, noted⟩
      · rename_i free
        have free : wtr.si.os fd = none := by simpa using free
        refine ⟨(base.open_ free).congr rfl rfl base.asked, ?_, ?_⟩
        · have opened := known.open_ fd
          exact ⟨opened.known, opened.placed, opened.sub⟩
        · refine noted.of_blks ?_
          intro blk' among _
          unfold Si.fdOf
          rw [Si.open_blks_of_ne (Nat.ne_of_lt (known.placed among))]
    · exact ⟨base.congr rfl rfl base.asked, ⟨known.known, known.placed, known.sub⟩, noted⟩
  · split
    · rename_i quit
      exact ⟨base.congr rfl rfl (quits quit), ⟨known.known, known.placed, known.sub⟩, noted⟩
    · rename_i listener _ quit
      refine ⟨⟨base.sound.term calm, ?_, ?_, ?_, quits quit⟩, ⟨?_, ?_, known.sub⟩, ?_⟩
      · intro blk' tpptr' among there'
        have apart : blk' ≠ blk := by
          rintro rfl
          exact calm among
        rw [Si.term_blks_of_ne apart] at there'
        exact base.calm among there'
      · refine base.listens_of ?_ (fun among => by rw [Si.term_tplist]; exact among)
        intro blk' tpptr' there' isListener
        rw [Si.term_blks_of_ne ?_]
        · exact there'
        · rintro rfl
          cases there.symm.trans there'
          exact listener isListener
      · intro blk' among
        dsimp only [cbstat] at among ⊢
        rw [Si.term_tplist] at among
        rw [Si.term_nextBlk]
        exact base.placed among
      · intro blk' tpptr' fd among there' has'
        exact known.known among (Si.term_fd there' has').2 has'
      · intro blk' among
        dsimp only [cbstat]
        rw [Si.term_nextBlk]
        exact known.placed among
      · intro blk' due
        rcases noted blk' due with served | ⟨among, isDue⟩
        · exact .inl served
        · by_cases same : blk' = blk
          · rw [same]
            exact .inl (List.mem_append_right _ List.mem_cons_self)
          · obtain ⟨tpptr', fd, there', sets⟩ := isDue_iff.mp isDue
            exact .inr ⟨among, isDue_iff.mpr
              ⟨tpptr', fd, (Si.term_blks_of_ne same).trans there', sets⟩⟩
    · exact ⟨base.congr rfl rfl base.asked, ⟨known.known, known.placed, known.sub⟩, noted⟩

/-- One block is looked at. -/
theorem Inv.serve (inv : wtr.Inv) {blk : Nat} {todo : List Nat} (pc : wtr.pc = .serve (blk :: todo))
    (ret : ServeRet) : (wtr.serve blk todo ret).Inv := by
  obtain ⟨base, here⟩ := inv
  unfold Here at here
  rw [pc] at here
  obtain ⟨loaded, serves⟩ := here
  have known : wtr.Loaded todo := ⟨fun among => loaded.known (List.mem_cons_of_mem _ among),
    fun among => loaded.placed (List.mem_cons_of_mem _ among), loaded.sub⟩
  -- A block that is not due is not missed.
  have pass : wtr.isDue blk = false → Inv { wtr with pc := .serve todo } := by
    intro undue
    refine ⟨base.congr rfl rfl base.asked, ⟨known.known, known.placed, known.sub⟩, ?_⟩
    intro blk' due
    rcases serves blk' due with served | ⟨among, isDue⟩
    · exact .inl served
    · refine .inr ⟨?_, isDue⟩
      rcases List.mem_cons.mp among with rfl | among
      · cases undue.symm.trans isDue
      · exact among
  unfold Waiter.serve
  split
  · rename_i nil
    apply pass
    simp [isDue, Si.fdOf, nil]
  · rename_i tpptr there
    split
    · rename_i undue
      exact pass undue
    · rename_i due
      have due : wtr.isDue blk = true := by simpa using due
      obtain ⟨tpptr', fd, there', has, reads, _⟩ := isDue_iff.mp due
      cases there.symm.trans there'
      obtain ⟨session, calm⟩ := loaded.known List.mem_cons_self there has reads
      rw [if_neg (not_not_intro session)]
      obtain ⟨base', loaded', serves'⟩ := Inv.receive base loaded serves there calm ret
      exact ⟨base'.congr rfl rfl base'.asked, ⟨loaded'.known, loaded'.placed, loaded'.sub⟩, serves'⟩

/-- The receive thread goes on. -/
theorem Inv.wait (inv : wtr.Inv) {select : SelectRet} {serve : ServeRet}
    (orderly : wtr.Orderly (.wait select serve)) : (wtr.wait select serve).Inv := by
  unfold Waiter.wait
  split
  · exact ⟨inv.base.congr rfl rfl inv.base.asked, inv.base.polls⟩
  · rename_i blk todo pc
    have polls : wtr.Polls (blk :: todo) := by
      have here := inv.here
      unfold Here at here
      rw [pc] at here
      exact here
    have calm : blk ∉ wtr.terming := orderly blk (by rw [pc]; rfl)
    obtain ⟨base, polls⟩ := polls.bldpoll inv.base calm
    exact ⟨base.congr rfl rfl base.asked,
      ⟨polls.live, polls.seen, polls.late, polls.early, polls.todo,
      polls.listed, polls.bounded, polls.reads, polls.execpts⟩⟩
  · rename_i pc
    exact inv.select pc select
  · rename_i pc
    have here := inv.here
    unfold Here at here
    rw [pc] at here
    obtain ⟨loaded, _⟩ := here
    refine ⟨inv.base.congr rfl rfl inv.base.asked, ⟨loaded.known, loaded.placed, loaded.sub⟩, ?_⟩
    intro blk due
    obtain ⟨among, isDue⟩ := List.mem_filter.mp due
    exact .inr ⟨among, isDue⟩
  · rename_i blk todo pc
    exact inv.serve pc serve
  · exact ⟨inv.base.congr rfl rfl inv.base.asked, trivial⟩
  · refine ⟨inv.base.congr rfl rfl inv.base.asked, ?_⟩
    obtain ⟨blk, _, among, _⟩ := inv.base.listens
    unfold Here
    by_cases running : wtr.shutdown = false
    · -- There is a listener, so the list is not empty.
      simp only [running, List.ne_nil_of_mem among, ne_eq, not_false_eq_true, and_self, if_true]
    · rw [if_neg fun both => running both.2]
      exact inv.base.asked (by simpa using running)
  · exact inv
  · exact inv

/-- Each event that is orderly keeps the invariant. -/
theorem Inv.step (inv : wtr.Inv) {event : WaitEvent} (orderly : wtr.Orderly event) :
    (wtr.step event).Inv := by
  -- By the event, where those of the receive thread depend on where it is.
  cases event with
  | connect fd =>
    unfold Waiter.step
    dsimp only
    split
    · exact inv
    · rename_i free
      exact inv.connect (by simpa using free)
  | close fd => exact inv.close orderly
  | mark blk =>
    unfold Waiter.step
    dsimp only
    split
    · rename_i among
      exact inv.mark among
    · exact inv
  | wait select serve => exact inv.wait orderly

instance (wtr : Waiter) (event : WaitEvent) : Decidable (wtr.Orderly event) :=
  match event with
  | .close fd => inferInstanceAs (Decidable (∀ found ∈ wtr.si.target fd, _ ∧ _))
  | .wait _ _ => inferInstanceAs (Decidable (∀ blk ∈ wtr.pc.polling, _))
  | .connect _ => isTrue trivial
  | .mark _ => isTrue trivial

/-- The receive thread goes on, and the descriptors in a list can be read from. -/
def goesOn (reads : List Nat) : WaitEvent := .wait (.done (· ∈ reads) (fun _ => false))
    (.data false)

end Waiter

end Rmr
