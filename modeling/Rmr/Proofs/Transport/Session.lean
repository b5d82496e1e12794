import Rmr.Transport.Session

/-! Laws of transport blocks: what opening and closing sessions does to the descriptors. -/

namespace Rmr

namespace Si

variable {si : Si} {blk fd : Nat} {tpptr : TpBlk} {terming : List Nat}

/-- What holds of transport blocks: each one that has a descriptor has its own, unless somebody is
in the midst of terminating it. -/
structure Sound (terming : List Nat) (si : Si) : Prop where
  owned : ∀ {blk tpptr fd}, si.blks blk = some tpptr → tpptr.fd = some fd → blk ∉ terming →
    si.os fd = some tpptr.session
  /-- Of two blocks with one descriptor, the one that had it first is about to give it up. -/
  newer : ∀ {blk other tpptr tpptr' fd}, si.blks blk = some tpptr → si.blks other = some tpptr' →
    tpptr.fd = some fd → tpptr'.fd = some fd → blk < other → blk ∈ terming
  apart : ∀ {blk other tpptr tpptr'}, si.blks blk = some tpptr → si.blks other = some tpptr' →
    tpptr.session = tpptr'.session → blk = other
  numbered : ∀ {blk tpptr}, si.blks blk = some tpptr → tpptr.session < si.nextSession
  placed : ∀ {blk tpptr}, si.blks blk = some tpptr → blk < si.nextBlk
  mapped : ∀ {fd blk}, si.tpMap fd = some blk → fd < maxFds ∧
    ∃ tpptr, si.blks blk = some tpptr ∧ tpptr.fd = some fd ∧ tpptr.listener = false
  gone : ∀ {blk tpptr}, si.blks blk = some tpptr → tpptr.deleted = true → tpptr.fd = none

/-- There is the listener only. -/
theorem init_sound (fd : Nat) : (init fd).Sound [] := by
  -- The only block is that of the listener, at the first address.
  have only : ∀ {blk tpptr}, (init fd).blks blk = some tpptr → blk = 0 ∧
      tpptr = { fd := some fd, listener := true, deleted := false, session := 0 } := by
    intro blk tpptr there
    unfold init at there
    dsimp only at there
    rw [Function.update_apply] at there
    split at there
    · rename_i first
      exact ⟨first, (Option.some.inj there).symm⟩
    · cases there
  constructor
  · intro blk tpptr fd' there has _
    obtain ⟨_, rfl⟩ := only there
    cases has
    exact Function.update_self fd (some 0) (fun _ => none)
  · intro blk other tpptr tpptr' fd' there there' _ _ less
    rw [(only there).1, (only there').1] at less
    exact absurd less (Nat.lt_irrefl 0)
  · intro blk other tpptr tpptr' there there' _
    rw [(only there).1, (only there').1]
  · intro blk tpptr there
    obtain ⟨_, rfl⟩ := only there
    exact Nat.one_pos
  · intro blk tpptr there
    rw [(only there).1]
    exact Nat.one_pos
  · intro fd' blk mapped
    cases mapped
  · intro blk tpptr there deleted
    obtain ⟨_, rfl⟩ := only there
    cases deleted

/-- The descriptor of a block is what it says. -/
theorem fdOf_eq_some : si.fdOf blk = some fd ↔
    ∃ tpptr, si.blks blk = some tpptr ∧ tpptr.fd = some fd :=
  Option.bind_eq_some_iff

/-- What the second half of `SIterm` does. -/
theorem mark_eq (there : si.blks blk = some tpptr) :
    si.mark blk = { si with
      tpMap := unmap si.tpMap tpptr.fd
      blks := Function.update si.blks blk (some { tpptr with fd := none, deleted := true }) } := by
  simp only [mark, there]

/-- Where there is no block, none is marked. -/
theorem mark_of_nil (nil : si.blks blk = none) : si.mark blk = si := by
  simp only [mark, nil]

/-- What `SIterm` does to a block that has its descriptor. -/
theorem term_eq (there : si.blks blk = some tpptr) (has : tpptr.fd = some fd) :
    si.term blk = { si with
      os := Function.update si.os fd none
      tpMap := unmap si.tpMap tpptr.fd
      blks := Function.update si.blks blk (some { tpptr with fd := none, deleted := true }) } := by
  unfold term
  rw [fdOf_eq_some.mpr ⟨tpptr, there, has⟩]
  exact mark_eq there

/-- What `SIterm` does to a block that has none any more. -/
theorem term_eq_of_gone (there : si.blks blk = some tpptr) (gone : tpptr.fd = none) :
    si.term blk = si.mark blk := by
  have none : si.fdOf blk = none := by simp [fdOf, there, gone]
  simp only [term, none]

/-- Where there is no block, none is closed. -/
theorem term_of_nil (nil : si.blks blk = none) : si.term blk = si := by
  have none : si.fdOf blk = none := by simp [fdOf, nil]
  simp only [term, none, mark_of_nil nil]

/-- The second half of `SIterm` does nothing to another block. -/
theorem mark_blks_of_ne {other : Nat} (apart : other ≠ blk) :
    (si.mark blk).blks other = si.blks other := by
  cases there : si.blks blk with
  | none => rw [mark_of_nil there]
  | some tpptr =>
    rw [mark_eq there]
    exact Function.update_of_ne apart _ _

/-- `SIterm` does nothing to another block. -/
theorem term_blks_of_ne {other : Nat} (apart : other ≠ blk) :
    (si.term blk).blks other = si.blks other := by
  unfold term
  split
  · exact mark_blks_of_ne apart
  · exact mark_blks_of_ne apart

/-- Marking a block gives out no session. -/
@[simp] theorem mark_nextSession (si : Si) (blk : Nat) :
    (si.mark blk).nextSession = si.nextSession := by
  unfold mark
  split
  · rfl
  · rfl

/-- Marking a block gives out no block. -/
@[simp] theorem mark_nextBlk (si : Si) (blk : Nat) : (si.mark blk).nextBlk = si.nextBlk := by
  unfold mark
  split
  · rfl
  · rfl

/-- A block that is marked stays in the list. -/
@[simp] theorem mark_tplist (si : Si) (blk : Nat) : (si.mark blk).tplist = si.tplist := by
  unfold mark
  split
  · rfl
  · rfl

/-- The second half of `SIterm` closes nothing. -/
theorem mark_os (si : Si) (blk : Nat) : (si.mark blk).os = si.os := by
  unfold mark
  split
  · rfl
  · rfl

/-- Closing a session gives out none. -/
@[simp] theorem term_nextSession (si : Si) (blk : Nat) :
    (si.term blk).nextSession = si.nextSession := by
  unfold term
  split
  · simp
  · simp [shut]

/-- Closing a session gives out no block. -/
@[simp] theorem term_nextBlk (si : Si) (blk : Nat) : (si.term blk).nextBlk = si.nextBlk := by
  unfold term
  split
  · simp
  · simp [shut]

/-- The block of a session that is closed stays in the list. -/
@[simp] theorem term_tplist (si : Si) (blk : Nat) : (si.term blk).tplist = si.tplist := by
  unfold term
  split
  · simp
  · simp [shut]

/-- Two blocks that nobody is terminating do not have the same descriptor. -/
theorem Sound.fd_ne (sound : si.Sound terming) {other : Nat} {tpptr' : TpBlk} {fd' : Nat}
    (apart : other ≠ blk) (there : si.blks blk = some tpptr) (has : tpptr.fd = some fd)
    (calm : blk ∉ terming) (there' : si.blks other = some tpptr') (has' : tpptr'.fd = some fd')
    (calm' : other ∉ terming) : fd' ≠ fd := by
  -- One of the blocks is newer, so that the older one is being terminated.
  rintro rfl
  rcases Nat.lt_or_gt_of_ne apart with less | more
  · exact calm' (sound.newer there' there has' has less)
  · exact calm (sound.newer there there' has has' more)

/-- The descriptor of another block stays open. -/
theorem Sound.term_os (sound : si.Sound terming) (calm : blk ∉ terming) {other : Nat}
    {tpptr' : TpBlk} {fd' : Nat} (apart : other ≠ blk) (there' : si.blks other = some tpptr')
    (has' : tpptr'.fd = some fd') (calm' : other ∉ terming) :
    (si.term blk).os fd' = si.os fd' := by
  -- Each open descriptor belongs to one block, so that the one that is closed is another.
  cases there : si.blks blk with
  | none => rw [term_of_nil there]
  | some tpptr =>
    cases has : tpptr.fd with
    | none => rw [term_eq_of_gone there has, mark_eq there]
    | some fd =>
      rw [term_eq there has]
      exact Function.update_of_ne (sound.fd_ne apart there has calm there' has' calm') _ _

/-- A map without the descriptor of a block has no entry for the block. -/
theorem Sound.unmapped (sound : si.Sound terming) (there : si.blks blk = some tpptr)
    {fd' other : Nat} (mapped : unmap si.tpMap tpptr.fd fd' = some other) :
    si.tpMap fd' = some other ∧ other ≠ blk := by
  -- The entry of the descriptor is that of the block, as the map is exact.
  have before : si.tpMap fd' = some other := by
    cases has : tpptr.fd with
    | none =>
      rw [has] at mapped
      exact mapped
    | some fd =>
      rw [has] at mapped
      dsimp only [unmap] at mapped
      split at mapped
      · rw [Function.update_apply] at mapped
        split at mapped
        · cases mapped
        · exact mapped
      · exact mapped
  refine ⟨before, ?_⟩
  rintro rfl
  obtain ⟨low, tpptr', there', has', _⟩ := sound.mapped before
  cases there.symm.trans there'
  simp [unmap, has', low] at mapped

/-- What `SIterm` and its second half leave of a process, apart from the descriptors that are open:
the block is marked, and what was mapped to it is not. -/
theorem Sound.give_up (sound : si.Sound terming) (there : si.blks blk = some tpptr)
    {next : Si} {still : List Nat}
    (blks : next.blks = Function.update si.blks blk
      (some { tpptr with fd := none, deleted := true }))
    (tpMap : ∀ {fd' other}, next.tpMap fd' = some other → si.tpMap fd' = some other ∧ other ≠ blk)
    (nextSession : next.nextSession = si.nextSession) (nextBlk : next.nextBlk = si.nextBlk)
    (kept : ∀ {other}, other ≠ blk → other ∈ terming → other ∈ still)
    (owned : ∀ {other tpptr' fd'}, other ≠ blk → si.blks other = some tpptr' →
      tpptr'.fd = some fd' → other ∉ still → next.os fd' = some tpptr'.session) :
    next.Sound still := by
  -- Each block after is one from before, with the same session.
  have from_ : ∀ {other tpptr'}, next.blks other = some tpptr' →
      ∃ before, si.blks other = some before ∧ tpptr'.session = before.session ∧
        (tpptr'.fd = none ∨ (tpptr' = before ∧ other ≠ blk)) := by
    intro other tpptr' is
    rw [blks, Function.update_apply] at is
    split at is
    · rename_i same
      cases is
      rw [same]
      exact ⟨tpptr, there, rfl, .inl rfl⟩
    · rename_i apart
      exact ⟨tpptr', is, rfl, .inr ⟨rfl, apart⟩⟩
  constructor
  · intro other tpptr' fd' is has calm
    obtain ⟨before, was, _, gone | ⟨rfl, apart⟩⟩ := from_ is
    · cases gone.symm.trans has
    · exact owned apart was has calm
  · intro one other tpptr' tpptr'' fd' is is' has has' less
    obtain ⟨before, was, _, gone | ⟨rfl, apart⟩⟩ := from_ is
    · cases gone.symm.trans has
    · obtain ⟨before', was', _, gone' | ⟨rfl, _⟩⟩ := from_ is'
      · cases gone'.symm.trans has'
      · exact kept apart (sound.newer was was' has has' less)
  · intro one other tpptr' tpptr'' is is' same
    obtain ⟨_, was, session, _⟩ := from_ is
    obtain ⟨_, was', session', _⟩ := from_ is'
    exact sound.apart was was' (session.symm.trans (same.trans session'))
  · intro other tpptr' is
    obtain ⟨_, was, session, _⟩ := from_ is
    rw [session, nextSession]
    exact sound.numbered was
  · intro other tpptr' is
    obtain ⟨_, was, _⟩ := from_ is
    rw [nextBlk]
    exact sound.placed was
  · intro fd' other mapped
    obtain ⟨before, apart⟩ := tpMap mapped
    obtain ⟨low, tpptr', there', rest⟩ := sound.mapped before
    refine ⟨low, tpptr', ?_, rest⟩
    rw [blks, Function.update_of_ne apart]
    exact there'
  · intro other tpptr' is deleted
    obtain ⟨_, was, _, gone | ⟨rfl, _⟩⟩ := from_ is
    · exact gone
    · exact sound.gone was deleted

/-- `SIterm` for a block that nobody else is terminating. -/
theorem Sound.term (sound : si.Sound terming) (calm : blk ∉ terming) :
    (si.term blk).Sound terming := by
  -- The cases are those of the block: not there, without a descriptor, and with one to be closed.
  cases there : si.blks blk with
  | none =>
    rw [term_of_nil there]
    exact sound
  | some tpptr =>
    refine sound.give_up there ?_ ?_ (term_nextSession si blk) (term_nextBlk si blk)
      (fun _ among => among) ?_
    · cases has : tpptr.fd with
      | none => rw [term_eq_of_gone there has, mark_eq there]
      | some fd => rw [term_eq there has]
    · intro fd' other mapped
      refine sound.unmapped there ?_
      cases has : tpptr.fd with
      | none =>
        rw [term_eq_of_gone there has, mark_eq there, has] at mapped
        exact mapped
      | some fd =>
        rw [term_eq there has, has] at mapped
        exact mapped
    · intro other tpptr' fd' apart there' has' calm'
      rw [sound.term_os calm apart there' has' calm']
      exact sound.owned there' has' calm'

/-- The first half of `SIterm`: somebody is in the midst of it. -/
theorem Sound.shut (sound : si.Sound terming) (there : si.blks blk = some tpptr)
    (has : tpptr.fd = some fd) (calm : blk ∉ terming) : (si.shut fd).Sound (blk :: terming) := by
  -- The descriptor is closed while the block still has it, so that the block is left out of what
  -- holds.
  refine ⟨?_, ?_, sound.apart, sound.numbered, sound.placed, sound.mapped, sound.gone⟩
  · intro other tpptr' fd' there' has' calm'
    rw [List.mem_cons, not_or] at calm'
    have other := sound.fd_ne calm'.1 there has calm there' has' calm'.2
    exact (Function.update_of_ne other _ _).trans (sound.owned there' has' calm'.2)
  · intro one other tpptr' tpptr'' fd' there' there'' has' has'' less
    exact List.mem_cons_of_mem _ (sound.newer there' there'' has' has'' less)

/-- The second half of `SIterm`. -/
theorem Sound.mark (sound : si.Sound terming) (blk : Nat) :
    (si.mark blk).Sound (terming.erase blk) := by
  cases there : si.blks blk with
  | none =>
    -- A block that is not there any more is not missed.
    have apart : ∀ {other tpptr'}, si.blks other = some tpptr' → other ≠ blk := by
      rintro other tpptr' there' rfl
      cases there.symm.trans there'
    rw [mark_of_nil there]
    refine ⟨?_, ?_, sound.apart, sound.numbered, sound.placed, sound.mapped, sound.gone⟩
    · intro other tpptr' fd there' has' calm
      exact sound.owned there' has' fun among =>
        calm ((List.mem_erase_of_ne (apart there')).mpr among)
    · intro one other tpptr' tpptr'' fd there' there'' has' has'' less
      exact (List.mem_erase_of_ne (apart there')).mpr
        (sound.newer there' there'' has' has'' less)
  | some tpptr =>
    rw [mark_eq there]
    refine sound.give_up there rfl (fun mapped => sound.unmapped there mapped) rfl rfl ?_ ?_
    · intro other apart among
      exact (List.mem_erase_of_ne apart).mpr among
    · intro other tpptr' fd' apart there' has' calm'
      exact sound.owned there' has' fun among => calm' ((List.mem_erase_of_ne apart).mpr among)

/-- A block that has its descriptor after somebody was done with `SIterm` is another one. -/
theorem mark_fd {other : Nat} {tpptr' : TpBlk} (there : (si.mark blk).blks other = some tpptr')
    (has : tpptr'.fd = some fd) : other ≠ blk ∧ si.blks other = some tpptr' := by
  -- Marking takes the descriptor away from the block, and from no other.
  have apart : other ≠ blk := by
    rintro rfl
    cases before : si.blks other with
    | none =>
      rw [mark_of_nil before] at there
      cases before.symm.trans there
    | some tpptr =>
      rw [mark_eq before] at there
      have after := there.symm.trans (Function.update_self _ _ _)
      cases Option.some.inj after
      cases has
  rw [mark_blks_of_ne apart] at there
  exact ⟨apart, there⟩

/-- Likewise after `SIterm` as a whole. -/
theorem term_fd {other : Nat} {tpptr' : TpBlk} (there : (si.term blk).blks other = some tpptr')
    (has : tpptr'.fd = some fd) : other ≠ blk ∧ si.blks other = some tpptr' := by
  -- Marking comes after the close, and does not give another block a descriptor.
  unfold term at there
  split at there
  · exact mark_fd there has
  · obtain ⟨apart, before⟩ := mark_fd there has
    exact ⟨apart, before⟩

/-- A block of the process after a session was opened is the new one or one from before. -/
theorem open_blks {other : Nat} {tpptr' : TpBlk} (there : (si.open_ fd).blks other = some tpptr') :
    (other = si.nextBlk ∧ tpptr' =
      { fd := some fd, listener := false, deleted := false, session := si.nextSession }) ∨
      (other ≠ si.nextBlk ∧ si.blks other = some tpptr') := by
  -- The new block is put at the next address, and the others stay where they were.
  have there : Function.update si.blks si.nextBlk
      (some { fd := some fd, listener := false, deleted := false, session := si.nextSession })
        other =
      some tpptr' := by
    unfold open_ mapFd at there
    dsimp only at there
    split at there
    · exact there
    · exact there
  rw [Function.update_apply] at there
  split at there
  · rename_i new
    exact .inl ⟨new, (Option.some.inj there).symm⟩
  · rename_i old
    exact .inr ⟨old, there⟩

/-- The new block has the descriptor, and the new session. -/
theorem open_new : (si.open_ fd).blks si.nextBlk =
    some { fd := some fd, listener := false, deleted := false, session := si.nextSession } := by
  unfold open_ mapFd
  dsimp only
  split
  · exact Function.update_self _ _ _
  · exact Function.update_self _ _ _

/-- Opening a session does nothing to the blocks that are there. -/
theorem open_blks_of_ne {other : Nat} (old : other ≠ si.nextBlk) :
    (si.open_ fd).blks other = si.blks other := by
  unfold open_ mapFd
  dsimp only
  split
  · exact Function.update_of_ne old _ _
  · exact Function.update_of_ne old _ _

/-- The other blocks are as they were. -/
theorem open_old (sound : si.Sound terming) (there : si.blks blk = some tpptr) :
    (si.open_ fd).blks blk = some tpptr := by
  rw [open_blks_of_ne (Nat.ne_of_lt (sound.placed there))]
  exact there

/-- The new block is the first one of the list. -/
theorem open_tplist : (si.open_ fd).tplist = si.nextBlk :: si.tplist := by
  unfold open_ mapFd
  split
  · rfl
  · rfl

/-- The descriptor belongs to the new session, and all else is as it was. -/
theorem open_os : (si.open_ fd).os = Function.update si.os fd (some si.nextSession) := by
  unfold open_ mapFd
  split
  · rfl
  · rfl

/-- One session was given out. -/
theorem open_nextSession : (si.open_ fd).nextSession = si.nextSession + 1 := by
  unfold open_ mapFd
  split
  · rfl
  · rfl

/-- One block was given out. -/
theorem open_nextBlk : (si.open_ fd).nextBlk = si.nextBlk + 1 := by
  unfold open_ mapFd
  split
  · rfl
  · rfl

/-- The descriptor is mapped to the new block, if there is room for it in the map. -/
theorem open_tpMap : (si.open_ fd).tpMap =
    if fd < maxFds then Function.update si.tpMap fd (some si.nextBlk) else si.tpMap := by
  unfold open_ mapFd
  split
  · rfl
  · rfl

/-- A session on a descriptor that was not open gets a block of its own. -/
theorem Sound.open_ (sound : si.Sound terming) (free : si.os fd = none) :
    (si.open_ fd).Sound terming := by
  -- Only a block that is being terminated has a descriptor that is not open.
  have other : ∀ {blk tpptr fd'}, si.blks blk = some tpptr → tpptr.fd = some fd' →
      blk ∉ terming → fd' ≠ fd := by
    rintro blk tpptr fd' there has calm rfl
    cases free.symm.trans (sound.owned there has calm)
  constructor
  · intro blk tpptr fd' there has calm
    rw [open_os]
    rcases open_blks there with ⟨_, rfl⟩ | ⟨_, before⟩
    · cases has
      exact Function.update_self _ _ _
    · rw [Function.update_of_ne (other before has calm)]
      exact sound.owned before has calm
  · intro one two tpptr tpptr' fd' there there' has has' less
    rcases open_blks there with ⟨new, rfl⟩ | ⟨_, before⟩
    · rcases open_blks there' with ⟨new', rfl⟩ | ⟨_, before'⟩
      · omega
      · have old := sound.placed before'
        omega
    · rcases open_blks there' with ⟨new', rfl⟩ | ⟨_, before'⟩
      · cases has'
        by_contra calm
        exact other before has calm rfl
      · exact sound.newer before before' has has' less
  · intro one two tpptr tpptr' there there' same
    rcases open_blks there with ⟨new, rfl⟩ | ⟨_, before⟩
    · rcases open_blks there' with ⟨new', rfl⟩ | ⟨_, before'⟩
      · exact new.trans new'.symm
      · exact absurd same.symm (Nat.ne_of_lt (sound.numbered before'))
    · rcases open_blks there' with ⟨new', rfl⟩ | ⟨_, before'⟩
      · exact absurd same (Nat.ne_of_lt (sound.numbered before))
      · exact sound.apart before before' same
  · intro blk tpptr there
    rw [open_nextSession]
    rcases open_blks there with ⟨_, rfl⟩ | ⟨_, before⟩
    · exact Nat.lt_succ_self _
    · exact Nat.lt_succ_of_lt (sound.numbered before)
  · intro blk tpptr there
    rw [open_nextBlk]
    rcases open_blks there with ⟨rfl, _⟩ | ⟨_, before⟩
    · exact Nat.lt_succ_self _
    · exact Nat.lt_succ_of_lt (sound.placed before)
  · intro fd' blk mapped
    have old : si.tpMap fd' = some blk → fd' < maxFds ∧ ∃ tpptr,
        (si.open_ fd).blks blk = some tpptr ∧ tpptr.fd = some fd' ∧ tpptr.listener = false := by
      intro before
      obtain ⟨low, tpptr, there, rest⟩ := sound.mapped before
      exact ⟨low, tpptr, open_old sound there, rest⟩
    rw [open_tpMap] at mapped
    split at mapped
    · rename_i low
      rw [Function.update_apply] at mapped
      split at mapped
      · rename_i same
        cases mapped
        rw [same]
        exact ⟨low, _, open_new, rfl, rfl⟩
      · exact old mapped
    · exact old mapped
  · intro blk tpptr there deleted
    rcases open_blks there with ⟨_, rfl⟩ | ⟨_, before⟩
    · cases deleted
    · exact sound.gone before deleted

/-- Removing a block that is marked does nothing to the descriptors. -/
theorem Sound.remove_cases (sound : si.Sound terming) (blk : Nat) :
    (si.remove blk = si) ∨ ∃ tpptr, si.blks blk = some tpptr ∧ tpptr.fd = none ∧
      tpptr.deleted = true ∧ si.remove blk = { si with
        blks := Function.update si.blks blk none
        tplist := si.tplist.erase blk } := by
  -- A block that is marked has no descriptor any more, so that `SIterm` has nothing to close.
  unfold remove
  split
  · exact .inl rfl
  · rename_i tpptr there
    split
    · rename_i marked
      have gone := sound.gone there marked.2
      refine .inr ⟨tpptr, there, gone, marked.2, ?_⟩
      rw [term_eq_of_gone there gone, mark_eq there, gone]
      simp [unmap]
    · exact .inl rfl

/-- A block that is removed was marked, so that nothing refers to it. -/
theorem Sound.remove (sound : si.Sound terming) (blk : Nat) : (si.remove blk).Sound terming := by
  -- The block had no descriptor and was in no entry, so that nothing else loses by it.
  rcases sound.remove_cases blk with same | ⟨tpptr, there, gone, _, removed⟩
  · rw [same]
    exact sound
  · rw [removed]
    have old : ∀ {other tpptr'}, Function.update si.blks blk none other = some tpptr' →
        si.blks other = some tpptr' := by
      intro other tpptr' there'
      rw [Function.update_apply] at there'
      split at there'
      · cases there'
      · exact there'
    constructor
    · intro other tpptr' fd there' has calm
      exact sound.owned (old there') has calm
    · intro one other tpptr' tpptr'' fd there' there'' has' has'' less
      exact sound.newer (old there') (old there'') has' has'' less
    · intro one other tpptr' tpptr'' there' there'' same
      exact sound.apart (old there') (old there'') same
    · intro other tpptr' there'
      exact sound.numbered (old there')
    · intro other tpptr' there'
      exact sound.placed (old there')
    · intro fd other mapped
      obtain ⟨low, tpptr', there', has, rest⟩ := sound.mapped mapped
      have apart : other ≠ blk := by
        rintro rfl
        cases there.symm.trans there'
        cases gone.symm.trans has
      exact ⟨low, tpptr', (Function.update_of_ne apart _ _).trans there', has, rest⟩
    · intro other tpptr' there' deleted
      exact sound.gone (old there') deleted

/-- What is found for a descriptor has it, and is no listener. -/
theorem Sound.target_eq (sound : si.Sound terming) {fd' : Nat}
    (found : si.target fd = some (blk, fd')) : fd' = fd ∧
      ∃ tpptr, si.blks blk = some tpptr ∧ tpptr.fd = some fd ∧ tpptr.listener = false := by
  obtain ⟨blk', is, found⟩ := Option.bind_eq_some_iff.mp found
  obtain ⟨fd'', has, found⟩ := Option.bind_eq_some_iff.mp found
  split at found
  · rename_i small
    cases found
    unfold find at is
    split at is
    · obtain ⟨_, tpptr, there, has', rest⟩ := sound.mapped is
      have same := has.symm.trans (fdOf_eq_some.mpr ⟨tpptr, there, has'⟩)
      exact ⟨Option.some.inj same, tpptr, there, has', rest⟩
    · -- What is not in the map is also too large for `select`.
      rename_i large
      have holds : si.fdOf blk = some fd := by simpa using List.find?_some is
      have same := Option.some.inj (has.symm.trans holds)
      simp only [fdSetsize, maxFds] at small large
      omega
  · cases found

end Si

end Rmr
