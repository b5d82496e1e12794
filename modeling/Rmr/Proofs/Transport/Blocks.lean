import Rmr.Transport.Blocks

/-! Laws of the list of transport blocks: what the calls leave linked, and when a sweep loses it. -/

namespace Rmr

namespace GinfoBlk

variable {ginfo next : GinfoBlk} {list first rest : List (Nat × Tp)} {blk : Nat}
    {tp : Tp} {fd : Int}

/-- What every call keeps: the list, and the bound on its length. -/
def Counted (ginfo : GinfoBlk) (list : List (Nat × Tp)) : Prop :=
  ginfo.Listed list ∧ list.length ≤ ginfo.linked

/-- A block that is in memory is in the list. -/
theorem Listed.place (listed : ginfo.Listed list) (there : ginfo.mem blk ≠ none) :
    ∃ first tp rest, list = first ++ (blk, tp) :: rest := by
  -- A block outside of the list would not be in memory.
  have among : blk ∈ addrs list := by
    by_contra outside
    exact there (listed.only blk outside)
  obtain ⟨entry, member, rfl⟩ := List.mem_map.mp among
  obtain ⟨first, rest, rfl⟩ := List.append_of_mem member
  exact ⟨first, entry.2, rest, rfl⟩

/-- The first block is where the list starts. -/
theorem Listed.starts (listed : ginfo.Listed list) : ginfo.tplist = list.head?.map Prod.fst := by
  obtain ⟨_, _, seg⟩ := listed.linked
  exact seg.starts

/-- The block at a place of the list is in memory, between its neighbours. -/
theorem Listed.load (listed : ginfo.Listed (first ++ (blk, tp) :: rest)) :
    ginfo.mem.load blk = .ok ⟨rest.head?.map Prod.fst, first.getLast?.map Prod.fst, tp⟩ := by
  have cell : ginfo.mem blk = _ := listed.linked.cell
  rw [Cells.load, cell]

/-- A new block in front of the list. -/
theorem Counted.addHead (counted : ginfo.Counted list) (fresh : ginfo.mem blk = none) (tp : Tp) :
    ∃ next, ginfo.addHead blk tp = .ok next ∧ next.Counted ((blk, tp) :: list) := by
  -- The block is new to the list, as those in the list are in memory.
  obtain ⟨listed, bound⟩ := counted
  have outside : blk ∉ addrs list := by
    intro among
    obtain ⟨entry, among, same⟩ := List.mem_map.mp among
    obtain ⟨_, _, seg⟩ := listed.linked
    obtain ⟨_, _, cell⟩ := seg.found among
    rw [same, fresh] at cell
    cases cell
  obtain ⟨mem, put, linked, same⟩ := listed.linked.linkFront outside tp
  refine ⟨{ ginfo with mem := mem, tplist := some blk, linked := ginfo.linked + 1 }, ?_,
    ⟨linked, ?_, ?_⟩, Nat.succ_le_succ bound⟩
  · rw [GinfoBlk.addHead, put]
    rfl
  · intro other outside
    exact (same other outside).trans
      (listed.only other fun among => outside (List.mem_cons_of_mem _ among))
  · intro fd other mapped
    obtain ⟨low, high, tp', among, is⟩ := listed.mapped fd other mapped
    exact ⟨low, high, tp', List.mem_cons_of_mem _ among, is⟩

/-- A block of the list is mapped by its descriptor. -/
theorem Counted.mapFd (counted : ginfo.Counted list) (among : (blk, tp) ∈ list) (is : tp.fd = fd)
    (low : 0 ≤ fd) : (ginfo.siMapFd fd blk).Counted list := by
  -- Descriptors beyond the map are not mapped at all.
  obtain ⟨⟨linked, only, mapped⟩, bound⟩ := counted
  unfold siMapFd
  split
  · rename_i high
    refine ⟨⟨linked, only, ?_⟩, bound⟩
    intro fd' other found
    dsimp only at found
    by_cases same : fd' = fd
    · subst same
      rw [Function.update_self] at found
      cases found
      exact ⟨low, high, tp, among, is⟩
    · rw [Function.update_of_ne same] at found
      exact mapped fd' other found
  · exact ⟨⟨linked, only, mapped⟩, bound⟩

/-- A change that leaves the descriptor of a block alone. -/
theorem Counted.setItem (counted : ginfo.Counted (first ++ (blk, tp) :: rest)) (change : Tp → Tp)
    (keeps : (change tp).fd = tp.fd) :
    ∃ mem, ginfo.mem.setItem blk change = .ok mem ∧
      { ginfo with mem := mem }.Counted (first ++ (blk, change tp) :: rest) := by
  obtain ⟨⟨linked, only, mapped⟩, bound⟩ := counted
  obtain ⟨mem, set, linked, same⟩ := linked.setItem change
  have sameAddrs : addrs (first ++ (blk, change tp) :: rest) =
      addrs (first ++ (blk, tp) :: rest) := by
    rw [addrs_append, addrs_append]
    rfl
  refine ⟨mem, set, ⟨linked, ?_, ?_⟩, ?_⟩
  · intro other outside
    rw [sameAddrs] at outside
    exact (same other outside).trans (only other outside)
  · intro fd other found
    obtain ⟨low, high, tp', among, is⟩ := mapped fd other found
    refine ⟨low, high, ?_⟩
    -- The block is the changed one, with the same descriptor, or another one.
    rcases List.mem_append.mp among with early | later
    · exact ⟨tp', List.mem_append_left _ early, is⟩
    · rcases List.mem_cons.mp later with here | later
      · cases here
        exact ⟨change tp, List.mem_append_right _ List.mem_cons_self, keeps.trans is⟩
      · exact ⟨tp', List.mem_append_right _ (List.mem_cons_of_mem _ later), is⟩
  · rw [List.length_append, List.length_cons] at bound ⊢
    exact bound

/-- A terminated block stays in the list, and nothing in the map refers to it. -/
theorem Counted.siTerm (counted : ginfo.Counted (first ++ (blk, tp) :: rest)) :
    ∃ next, ginfo.siTerm blk = .ok next ∧ next.Counted (first ++ (blk, tp.termed) :: rest) := by
  obtain ⟨⟨linked, only, mapped⟩, bound⟩ := counted
  have loaded := Listed.load ⟨linked, only, mapped⟩
  obtain ⟨mem, set, linked, same⟩ := linked.setItem Tp.termed
  refine ⟨{ ginfo with
    mem := mem
    tpMap := if 0 ≤ tp.fd ∧ tp.fd < maxFds then Function.update ginfo.tpMap tp.fd none
      else ginfo.tpMap }, ?_, ⟨linked, ?_, ?_⟩, ?_⟩
  · rw [GinfoBlk.siTerm, loaded]
    change (ginfo.mem.setItem blk Tp.termed >>= _) = _
    rw [set]
    rfl
  · have sameAddrs : addrs (first ++ (blk, tp.termed) :: rest) =
        addrs (first ++ (blk, tp) :: rest) := by
      rw [addrs_append, addrs_append]
      rfl
    intro other outside
    rw [sameAddrs] at outside
    exact (same other outside).trans (only other outside)
  · intro fd other found
    -- What the map still has, it had before, and not by the descriptor of this block.
    have before : ginfo.tpMap fd = some other ∧ (0 ≤ tp.fd ∧ tp.fd < maxFds → fd ≠ tp.fd) := by
      dsimp only at found
      split at found
      · by_cases here : fd = tp.fd
        · rw [here, Function.update_self] at found
          cases found
        · rw [Function.update_of_ne here] at found
          exact ⟨found, fun _ => here⟩
      · rename_i outOfMap
        exact ⟨found, fun inMap => absurd inMap outOfMap⟩
    obtain ⟨low, high, tp', among, is⟩ := mapped fd other before.1
    refine ⟨low, high, tp', ?_, is⟩
    rcases List.mem_append.mp among with early | later
    · exact List.mem_append_left _ early
    · rcases List.mem_cons.mp later with here | later
      · cases here
        subst is
        exact absurd rfl (before.2 ⟨low, high⟩)
      · exact List.mem_append_right _ (List.mem_cons_of_mem _ later)
  · rw [List.length_append, List.length_cons] at bound ⊢
    exact bound

/-- A block that has no descriptor is taken out of a list that has others. -/
theorem Counted.siRmTpb (counted : ginfo.Counted (first ++ (blk, tp) :: rest)) (closed : tp.fd < 0)
    (others : first ≠ [] ∨ rest ≠ []) :
    ∃ next, ginfo.siRmTpb blk = .ok next ∧ next.Counted (first ++ rest) := by
  obtain ⟨⟨linked, only, mapped⟩, bound⟩ := counted
  have loaded := Listed.load ⟨linked, only, mapped⟩
  obtain ⟨mem, head, unlinked, linked, same⟩ := linked.unlink
  refine ⟨{ ginfo with mem := mem, tplist := head }, ?_, ⟨linked, ?_, ?_⟩, ?_⟩
  · rw [GinfoBlk.siRmTpb, loaded]
    -- A neighbour is all that tells that the block is in the list.
    have neighbour : first.getLast?.map Prod.fst ≠ none ∨ rest.head?.map Prod.fst ≠ none := by
      rcases others with before | after
      · left
        rw [List.getLast?_eq_some_getLast before]
        exact Option.some_ne_none _
      · right
        rw [List.head?_eq_some_head after]
        exact Option.some_ne_none _
    change (if _ then _ else _) = _
    rw [if_pos neighbour]
    rw [unlinked]
    rfl
  · intro other outside
    by_cases here : other = blk
    · rw [here]
      exact Cells.unlink_freed unlinked
    · have outside' : other ∉ addrs (first ++ (blk, tp) :: rest) := by
        rw [addrs_append] at outside ⊢
        intro among
        rcases List.mem_append.mp among with early | later
        · exact outside (List.mem_append_left _ early)
        · rcases List.mem_cons.mp later with is | later
          · exact here is
          · exact outside (List.mem_append_right _ later)
      exact (same other outside').trans (only other outside')
  · intro fd other found
    obtain ⟨low, high, tp', among, is⟩ := mapped fd other found
    refine ⟨low, high, tp', ?_, is⟩
    rcases List.mem_append.mp among with early | later
    · exact List.mem_append_left _ early
    · rcases List.mem_cons.mp later with here | later
      · cases here
        omega
      · exact List.mem_append_right _ later
  · rw [List.length_append, List.length_cons] at bound
    rw [List.length_append]
    exact Nat.le_of_succ_le bound

/-- A marked block is gone after the sweep got to it, and any other is left. -/
theorem Counted.sweep (counted : ginfo.Counted (first ++ (blk, tp) :: rest))
    (others : tp.delete = true → first ≠ [] ∨ rest ≠ []) :
    ∃ next, ginfo.sweep blk tp = .ok next ∧
      next.Counted (first ++ ([(blk, tp)].filter fun entry => !entry.2.delete) ++ rest) := by
  unfold GinfoBlk.sweep
  cases marked : tp.delete with
  | false =>
    refine ⟨ginfo, rfl, ?_⟩
    rw [List.filter_cons_of_pos (by rw [marked]; rfl), List.filter_nil, List.append_assoc]
    exact counted
  | true =>
    rw [List.filter_cons_of_neg (by rw [marked]; exact Bool.false_ne_true), List.filter_nil,
      List.append_nil]
    by_cases isOpen : 0 ≤ tp.fd
    · -- It was not closed for some reason.
      obtain ⟨mid, termed, counted⟩ := counted.siTerm
      obtain ⟨next, removed, counted⟩ := counted.siRmTpb
        (show (-1 : Int) < 0 by decide) (others marked)
      refine ⟨next, ?_, counted⟩
      rw [if_pos rfl, if_pos isOpen, termed]
      exact removed
    · obtain ⟨next, removed, counted⟩ := counted.siRmTpb (Int.not_le.mp isOpen) (others marked)
      refine ⟨next, ?_, counted⟩
      rw [if_pos rfl, if_neg isOpen]
      exact removed

/-- The sweep from some place on leaves the blocks that are not marked, if there is one. -/
theorem Counted.siBldpollFrom {fuel : Nat} (counted : ginfo.Counted (first ++ rest))
    (enough : rest.length ≤ fuel)
    (stays : rest = [] ∨ ∃ entry ∈ first ++ rest, entry.2.delete = false) :
    ∃ next, siBldpollFrom fuel ginfo (rest.head?.map Prod.fst) = .ok next ∧
      next.Counted (first ++ rest.filter fun entry => !entry.2.delete) := by
  induction rest generalizing ginfo first fuel with
  | nil =>
    refine ⟨ginfo, ?_, counted⟩
    cases fuel <;> rfl
  | cons entry rest ih =>
    obtain ⟨blk, tp⟩ := entry
    cases fuel with
    | zero => cases enough
    | succ fuel =>
      have loaded := counted.1.load
      obtain ⟨kept, among, unmarked⟩ : ∃ entry ∈ first ++ (blk, tp) :: rest,
          entry.2.delete = false := by
        rcases stays with none | some
        · cases none
        · exact some
      -- A marked block is not the one that stays, so it has a neighbour.
      have others : tp.delete = true → first ≠ [] ∨ rest ≠ [] := by
        intro marked
        by_contra alone
        obtain ⟨rfl, rfl⟩ : first = [] ∧ rest = [] := by
          exact ⟨by_contra fun before => alone (.inl before), by_contra fun after => alone
            (.inr after)⟩
        cases List.mem_singleton.mp among
        rw [marked] at unmarked
        cases unmarked
      obtain ⟨mid, swept, counted⟩ := counted.sweep others
      have stays' : rest = [] ∨ ∃ entry ∈ first ++
          ([(blk, tp)].filter fun entry => !entry.2.delete) ++ rest, entry.2.delete = false := by
        right
        refine ⟨kept, ?_, unmarked⟩
        rcases List.mem_append.mp among with early | later
        · exact List.mem_append_left _ (List.mem_append_left _ early)
        · rcases List.mem_cons.mp later with here | later
          · refine List.mem_append_left _ (List.mem_append_right _ ?_)
            rw [← here]
            exact List.mem_filter.mpr ⟨List.mem_singleton_self _, by rw [unmarked]; rfl⟩
          · exact List.mem_append_right _ later
      obtain ⟨next, ran, counted⟩ := ih counted (Nat.le_of_succ_le_succ enough) stays'
      refine ⟨next, ?_, ?_⟩
      · change (ginfo.mem.load blk >>= _) = _
        rw [loaded]
        change (ginfo.sweep blk tp >>= _) = _
        rw [swept]
        exact ran
      · rw [List.append_assoc, ← List.filter_append] at counted
        exact counted

/-- The sweep leaves the blocks that are not marked, where there is one or no block at all. -/
theorem Counted.siBldpoll (counted : ginfo.Counted list)
    (stays : list = [] ∨ ∃ entry ∈ list, entry.2.delete = false) :
    ∃ next, ginfo.siBldpoll = .ok next ∧
      next.Counted (list.filter fun entry => !entry.2.delete) := by
  -- The walk is that from the front of the list.
  unfold GinfoBlk.siBldpoll
  rw [counted.1.starts]
  have front : ginfo.Counted ([] ++ list) := counted
  exact front.siBldpollFrom counted.2 stays

/-- The walk of the list finds the first block of a kind. -/
theorem Counted.search (counted : ginfo.Counted list) (matched : Tp → Bool) :
    ginfo.search matched =
      .ok ((list.find? fun entry => matched entry.2).map Prod.fst) := by
  obtain ⟨_, _, seg⟩ := counted.1.linked
  exact seg.search matched counted.2

/-- Any block that the walk finds is one of the list. -/
theorem Counted.search_mem (counted : ginfo.Counted list) (matched : Tp → Bool) :
    ∃ found, ginfo.search matched = .ok found ∧
      ∀ blk, found = some blk → ∃ tp, (blk, tp) ∈ list ∧ matched tp = true := by
  -- What the search finds is in the list and matches.
  refine ⟨_, counted.search matched, ?_⟩
  intro blk is
  obtain ⟨entry, found, rfl⟩ := Option.map_eq_some_iff.mp is
  have matches_ := List.find?_some found
  exact ⟨entry.2, List.mem_of_find?_eq_some found, matches_⟩

/-- What `SIclose` takes a descriptor for is a block of the list. -/
theorem Counted.closes (counted : ginfo.Counted list) (fd : Int) :
    ∃ found, ginfo.closes fd = .ok found ∧ ∀ blk, found = some blk → ∃ tp, (blk, tp) ∈ list := by
  -- The map gives a block of the list; beyond the map the list itself is searched.
  have walk : ∀ matched, ∃ found, ginfo.search matched = .ok found ∧
      ∀ blk, found = some blk → ∃ tp, (blk, tp) ∈ list := by
    intro matched
    obtain ⟨found, searched, among⟩ := counted.search_mem matched
    refine ⟨found, searched, fun blk is => ?_⟩
    obtain ⟨tp, among, _⟩ := among blk is
    exact ⟨tp, among⟩
  unfold GinfoBlk.closes
  split
  · split
    · refine ⟨_, rfl, fun blk mapped => ?_⟩
      obtain ⟨_, _, tp, among, _⟩ := counted.1.mapped fd blk mapped
      exact ⟨tp, among⟩
    · exact walk _
  · split
    · exact walk _
    · exact walk _

/-- `SIclose` leaves the blocks in the list, where one may be marked now. -/
theorem Counted.siClose (counted : ginfo.Counted list) (fd : Int) :
    ∃ next status, ginfo.siClose fd = .ok (next, status) ∧ ∃ list', next.Counted list' := by
  -- A session that is found is marked and closed, and its block stays where it is.
  obtain ⟨found, closes, among⟩ := counted.closes fd
  unfold GinfoBlk.siClose
  rw [closes]
  cases found with
  | none => exact ⟨ginfo, siError, rfl, list, counted⟩
  | some blk =>
    obtain ⟨tp, among⟩ := among blk rfl
    obtain ⟨first, rest, rfl⟩ := List.append_of_mem among
    obtain ⟨mem, set, counted⟩ := counted.setItem Tp.closing rfl
    obtain ⟨next, termed, counted⟩ := counted.siTerm
    refine ⟨next, siOk, ?_, _, counted⟩
    change (ginfo.mem.setItem blk Tp.closing >>= _) = _
    rw [set]
    change ({ ginfo with mem := mem }.siTerm blk >>= _) = _
    rw [termed]
    rfl

/-- `SIlistener` adds a block or none, if it does not fail to listen. -/
theorem Counted.siListener (counted : ginfo.Counted list) (fresh : ginfo.mem blk = none)
    (type : SockType) (prep : Option Nat) {listens : Bool}
    (does : type = .stream → prep ≠ none → listens = true) :
    ∃ next status, ginfo.siListener type blk prep listens = .ok (next, status) ∧
      ∃ list', next.Counted list' := by
  -- A listener that cannot listen frees its block, which is what the condition excludes.
  unfold GinfoBlk.siListener
  cases prep with
  | none => exact ⟨ginfo, siError, rfl, list, counted⟩
  | some fd =>
    cases type with
    | stream =>
      cases does rfl (Option.some_ne_none fd)
      obtain ⟨next, added, counted⟩ := counted.addHead fresh
        { Tp.new with fd := fd, type := some .stream, listenfd := true }
      refine ⟨next, fd, ?_, _, counted⟩
      change (ginfo.addHead blk _ >>= _) = _
      rw [added]
      rfl
    | dgram =>
      obtain ⟨next, added, counted⟩ := counted.addHead fresh
        { Tp.new with fd := fd, type := some .dgram }
      refine ⟨next, fd, ?_, _, counted⟩
      change (ginfo.addHead blk _ >>= _) = _
      rw [added]
      rfl

/-- `SIconnect` adds a block that is mapped, or none. -/
theorem Counted.siConnect (counted : ginfo.Counted list) (fresh : ginfo.mem blk = none)
    (prep : Option Nat) (connects : Bool) :
    ∃ next status, ginfo.siConnect blk prep connects = .ok (next, status) ∧
      ∃ list', next.Counted list' := by
  -- Only a session that is connected gets a block.
  unfold GinfoBlk.siConnect
  cases prep with
  | none => exact ⟨ginfo, siError, rfl, list, counted⟩
  | some fd =>
    cases connects with
    | false => exact ⟨ginfo, siError, rfl, list, counted⟩
    | true =>
      obtain ⟨mid, added, counted⟩ := counted.addHead fresh
        { Tp.new with fd := fd, type := some .stream, session := true }
      refine ⟨mid.siMapFd fd blk, fd, ?_, _,
        counted.mapFd List.mem_cons_self rfl (Int.natCast_nonneg fd)⟩
      change (ginfo.addHead blk _ >>= _) = _
      rw [added]
      rfl

/-- `SInewsession` adds a block that is mapped, one that is marked already, or none. -/
theorem Counted.siNewsession (counted : ginfo.Counted list) {listener : Nat}
    (there : ginfo.mem listener ≠ none) (fresh : ginfo.mem blk = none) (accepted : Option Nat)
    (allocates rejects : Bool) :
    ∃ next status, ginfo.siNewsession listener blk accepted allocates rejects = .ok (next, status) ∧
      ∃ list', next.Counted list' := by
  -- The listener is in the list still after the new block was put in front of it.
  obtain ⟨first, tp, rest, is⟩ := counted.1.place there
  have loaded := (is ▸ counted).1.load
  unfold GinfoBlk.siNewsession
  rw [loaded]
  cases accepted with
  | none => exact ⟨ginfo, siError, rfl, list, counted⟩
  | some fd =>
    change ∃ next status, (if (decide (tp.fd < 0) || !allocates) = true then _ else _) = _ ∧ _
    split
    · exact ⟨ginfo, siError, rfl, list, counted⟩
    · obtain ⟨mid, added, counted⟩ := counted.addHead fresh { Tp.new with fd := fd }
      rw [added]
      change ∃ next status, (if rejects = true then _ else _) = _ ∧ _
      cases rejects with
      | true =>
        have front : mid.Counted ([] ++ (blk, { Tp.new with fd := fd }) :: list) := counted
        obtain ⟨next, termed, counted⟩ := front.siTerm
        refine ⟨next, siError, ?_, _, counted⟩
        rw [if_pos rfl, termed]
        rfl
      | false =>
        have front : mid.Counted ([] ++ (blk, { Tp.new with fd := fd }) :: list) := counted
        obtain ⟨mem, set, counted⟩ := front.setItem (fun tp => { tp with session := true }) rfl
        refine ⟨{ mid with mem := mem }.siMapFd fd blk, siOk, ?_, _,
          counted.mapFd List.mem_cons_self rfl (Int.natCast_nonneg fd)⟩
        rw [if_neg Bool.false_ne_true, set]
        rfl

/-- An event that meets the condition leaves the blocks in a list. -/
theorem Counted.step (counted : ginfo.Counted list) {event : SiEvent} (keeps : event.Keeps ginfo) :
    ∃ next, ginfo.step event = .ok next ∧ ∃ list', next.Counted list' := by
  -- By the event, each of which is one of the calls above.
  cases event with
  | listener type blk prep listens =>
    simp only [GinfoBlk.step]
    split
    · rename_i fresh
      obtain ⟨next, status, called, counted⟩ :=
        counted.siListener (Option.isNone_iff_eq_none.mp fresh) type prep keeps
      rw [called]
      exact ⟨next, rfl, counted⟩
    · exact ⟨ginfo, rfl, list, counted⟩
  | connect blk prep connects =>
    simp only [GinfoBlk.step]
    split
    · rename_i fresh
      obtain ⟨next, status, called, counted⟩ :=
        counted.siConnect (Option.isNone_iff_eq_none.mp fresh) prep connects
      rw [called]
      exact ⟨next, rfl, counted⟩
    · exact ⟨ginfo, rfl, list, counted⟩
  | newsession listener blk accepted allocates rejects =>
    simp only [GinfoBlk.step]
    split
    · rename_i both
      obtain ⟨there, fresh⟩ := Bool.and_eq_true_iff.mp both
      obtain ⟨next, status, called, counted⟩ := counted.siNewsession
        (Option.isSome_iff_ne_none.mp there) (Option.isNone_iff_eq_none.mp fresh) accepted allocates
        rejects
      rw [called]
      exact ⟨next, rfl, counted⟩
    · exact ⟨ginfo, rfl, list, counted⟩
  | term blk =>
    simp only [GinfoBlk.step]
    split
    · rename_i there
      obtain ⟨first, tp, rest, rfl⟩ := counted.1.place (Option.isSome_iff_ne_none.mp there)
      obtain ⟨next, termed, counted⟩ := counted.siTerm
      exact ⟨next, termed, _, counted⟩
    · exact ⟨ginfo, rfl, list, counted⟩
  | close fd =>
    obtain ⟨next, status, called, counted⟩ := counted.siClose fd
    refine ⟨next, ?_, counted⟩
    change Prod.fst <$> ginfo.siClose fd = _
    rw [called]
    rfl
  | bldpoll =>
    have stays : list = [] ∨ ∃ entry ∈ list, entry.2.delete = false := by
      rcases keeps with empty | some
      · left
        rw [counted.1.starts, Option.map_eq_none_iff, List.head?_eq_none_iff] at empty
        exact empty
      · right
        obtain ⟨found, searched, among⟩ := counted.search_mem fun tp => !tp.delete
        have isSome := some.of_ok searched
        obtain ⟨blk, rfl⟩ := Option.isSome_iff_exists.mp isSome
        obtain ⟨tp, among, unmarked⟩ := among blk rfl
        exact ⟨(blk, tp), among, Bool.not_eq_true' _ |>.mp unmarked⟩
    obtain ⟨next, swept, counted⟩ := counted.siBldpoll stays
    exact ⟨next, swept, _, counted⟩

end GinfoBlk

end Rmr
