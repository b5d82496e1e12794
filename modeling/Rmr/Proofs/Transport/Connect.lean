import Rmr.Proofs.Transport.Endpoint

/-! Senders that connect endpoints keep what holds of them. -/

namespace Rmr

namespace Links

variable {links next : Links} {thread ep : Nat} {pc nextPc : LinkPc}

/-- What a step of a sender is, at an endpoint whose gate nobody else has. -/
structure Moves (links next : Links) (thread ep : Nat) (pc nextPc : LinkPc) : Prop where
  senders : next.senders = links.senders.set thread nextPc
  disc : next.disc = links.disc
  only : Only links next ep
  about : pc.about = some ep
  /-- Nobody else has the gate. -/
  gate : links.gate ep = none ∨ links.gate ep = some (.sender thread)
  live : ∀ fd, links.live fd = true → next.live fd = true
  up : links.Up ep → next.Up ep
  mapped : ∀ fd, next.fd2ep fd = some ep → next.nnSock ep = fd ∧ 0 ≤ fd ∧ next.live fd = true
  /-- Only a new descriptor is mapped. -/
  maps : ∀ fd, next.fd2ep fd ≠ none → links.fd2ep fd = none → pc.inHand links.nnSock = some fd
  here : next.Here thread nextPc
  /-- Only a descriptor that was not in use gets into the sender's hand. -/
  hand : ∀ fd ∈ nextPc.inHand next.nnSock, pc.inHand links.nnSock = some fd ∨ links.live fd = false
  covered : next.Up ep ∨ next.Down ep ∨ ∃ adds, nextPc = .add ep adds

/-- A sender's step at an endpoint whose gate nobody else has. -/
theorem Sound.moves (sound : links.Sound) (ep : Nat) (nextPc : LinkPc)
    (at_ : links.senders[thread]? = some pc)
    (moves : Moves links next thread ep pc nextPc) : next.Sound := by
  have about : links.disc.stillOpen ≠ some ep := (sound.here at_).alone ep moves.about
  -- What another sender has the gate of, and what it has in hand, is as before.
  have away : ∀ {other : Nat} {otherPc : LinkPc}, other ≠ thread →
      links.senders[other]? = some otherPc → otherPc.gated ≠ some ep := by
    intro other otherPc differs is gated
    have gate := moves.gate
    rw [(sound.here is).held ep gated] at gate
    simp [differs] at gate
  have same : ∀ {other : Nat} {otherPc : LinkPc}, other ≠ thread →
      links.senders[other]? = some otherPc →
      otherPc.inHand next.nnSock = otherPc.inHand links.nnSock := fun differs is =>
    LinkPc.inHand_congr fun other gated => moves.only.nnSock other fun same =>
      away differs is (same ▸ gated)
  have senders : ∀ {other : Nat} {otherPc : LinkPc}, next.senders[other]? = some otherPc →
      other = thread ∧ otherPc = nextPc ∨ other ≠ thread ∧
        links.senders[other]? = some otherPc := by
    intro other otherPc is
    rw [moves.senders, List.getElem?_set] at is
    grind
  have unmapped : ∀ {fd}, links.fd2ep fd = none → pc.inHand links.nnSock ≠ some fd →
      next.fd2ep fd = none := fun none differs => by
    by_contra maps
    exact differs (moves.maps _ maps none)
  exact {
    mapped := by
      intro fd other maps
      by_cases is : other = ep
      · cases is
        exact moves.mapped fd maps
      · obtain ⟨sock, nonneg, live⟩ := sound.mapped ((moves.only.maps other is fd).mp maps)
        exact ⟨(moves.only.nnSock other is).trans sock, nonneg, moves.live fd live⟩
    here := by
      intro other otherPc is
      obtain ⟨rfl, rfl⟩ | ⟨differs, is⟩ := senders is
      · exact moves.here
      · refine (sound.here is).frame moves.only (away differs is) (fun linked =>
          moves.up ((sound.here is).linked ep linked)) (fun fd inHand => ?_) ?_
        · obtain ⟨nonneg, live, none, kept⟩ := (sound.here is).hand fd inHand
          refine ⟨nonneg, moves.live fd live, unmapped none fun mine => ?_, moves.disc ▸ kept⟩
          exact differs (sound.apart is at_ inHand mine)
        · rw [moves.disc]
          exact (sound.here is).alone
    apart := by
      intro one other onePc otherPc fd isOne isOther oneHand otherHand
      -- A descriptor that was in use is in this sender's hand only if it was there before.
      have mine : ∀ {other : Nat} {otherPc : LinkPc}, other ≠ thread →
          links.senders[other]? = some otherPc → nextPc.inHand next.nnSock = some fd →
          otherPc.inHand next.nnSock = some fd → thread = other := by
        intro other otherPc differs is inHand otherHand
        rw [same differs is] at otherHand
        rcases moves.hand fd inHand with before | new
        · exact sound.apart at_ is before otherHand
        · exact absurd ((sound.here is).hand fd otherHand).live (by simp [new])
      obtain ⟨rfl, rfl⟩ | ⟨oneDiffers, isOne⟩ := senders isOne
      · obtain ⟨rfl, rfl⟩ | ⟨otherDiffers, isOther⟩ := senders isOther
        · rfl
        · exact mine otherDiffers isOther oneHand otherHand
      · obtain ⟨rfl, rfl⟩ | ⟨otherDiffers, isOther⟩ := senders isOther
        · exact (mine oneDiffers isOne otherHand oneHand).symm
        · rw [same oneDiffers isOne] at oneHand
          rw [same otherDiffers isOther] at otherHand
          exact sound.apart isOne isOther oneHand otherHand
    there := by
      have kept : ∀ fd, pc.inHand links.nnSock = some fd → links.disc.closing ≠ some fd :=
        fun fd inHand => ((sound.here at_).hand fd inHand).kept
      refine sound.there.frame moves.disc moves.only moves.live (fun fd closing none => ?_) ?_
      · exact unmapped none fun inHand => kept fd inHand closing
      · refine ⟨about, fun receiver => ?_⟩
        have gate := moves.gate
        rw [receiver] at gate
        simp at gate
    covered := by
      intro other
      by_cases is : other = ep
      · cases is
        rcases moves.covered with up | down | ⟨adds, rfl⟩
        · exact .inl up
        · exact .inr (.inl down)
        · refine .inr (.inr (.inl ⟨thread, adds, ?_⟩))
          have bound := (List.getElem?_eq_some_iff.mp at_).1
          rw [moves.senders, List.getElem?_set_self bound]
      · rw [moves.only.up_iff is, moves.only.down_iff is, moves.disc]
        rcases sound.covered other with up | down | ⟨adder, adds, adding⟩ | between
        · exact .inl up
        · exact .inr (.inl down)
        · refine .inr (.inr (.inl ⟨adder, adds, ?_⟩))
          have differs : adder ≠ thread := by
            rintro rfl
            cases at_.symm.trans adding
            exact is (Option.some.inj moves.about)
          rw [moves.senders, List.getElem?_set_ne differs.symm]
          exact adding
        · exact .inr (.inr (.inr between)) }

/-- An endpoint that a sender is at is open and mapped or the opposite, if nobody else has its gate.
-/
theorem Sound.up_or_down (sound : links.Sound) (at_ : links.senders[thread]? = some pc)
    (about : pc.about = some ep)
    (gate : links.gate ep = none ∨ links.gate ep = some (.sender thread))
    (notAdd : ∀ adds, pc ≠ .add ep adds) : links.Up ep ∨ links.Down ep := by
  -- The endpoint is covered: up, down, being added by a sender, or between two steps of the
  -- callback.
  rcases sound.covered ep with up | down | ⟨adder, adds, adding⟩ | between
  · exact .inl up
  · exact .inr down
  · by_cases same : adder = thread
    · cases same
      exact absurd (Option.some.inj (at_.symm.trans adding)) (notAdd adds)
    · have held := (sound.here adding).held ep rfl
      rw [held] at gate
      simp [same] at gate
  · have still := (sound.here at_).alone ep about
    cases is : links.disc <;> simp_all [DiscPc.between, DiscPc.stillOpen]

/-- A sender goes to a place where it has no new descriptor. -/
theorem Sound.goTo (sound : links.Sound) (at_ : links.senders[thread]? = some pc)
    (notAdd : ∀ ep adds, pc ≠ .add ep adds) (none : nextPc.inHand links.nnSock = none)
    (here : links.Here thread nextPc) : (links.goTo thread nextPc).Sound := by
  -- Nothing but the sender's place changes, and there it has nothing in hand.
  have same : Same links (links.goTo thread nextPc) := ⟨rfl, rfl, rfl, rfl⟩
  have fresh : ∀ {fd}, links.Fresh fd → (links.goTo thread nextPc).Fresh fd := fun fresh =>
    ⟨fresh.nonneg, fresh.live, fresh.unmapped, fresh.kept⟩
  have senders : ∀ {other : Nat} {otherPc : LinkPc},
      (links.goTo thread nextPc).senders[other]? = some otherPc →
      other = thread ∧ otherPc = nextPc ∨ links.senders[other]? = some otherPc := by
    intro other otherPc is
    rw [Links.goTo, List.getElem?_set] at is
    grind
  exact {
    mapped := sound.mapped
    here := by
      intro other otherPc is
      obtain ⟨rfl, rfl⟩ | is := senders is
      · exact here.same same (fun fd inHand => fresh (here.hand fd inHand)) here.alone
      · have here := sound.here is
        exact here.same same (fun fd inHand => fresh (here.hand fd inHand)) here.alone
    apart := by
      intro one other onePc otherPc fd isOne isOther oneHand otherHand
      obtain ⟨rfl, rfl⟩ | isOne := senders isOne
      · exact absurd (none.symm.trans oneHand) nofun
      · obtain ⟨rfl, rfl⟩ | isOther := senders isOther
        · exact absurd (none.symm.trans otherHand) nofun
        · exact sound.apart isOne isOther oneHand otherHand
    there := sound.there.same same rfl fun _ live => live
    covered := by
      intro ep
      rw [same.up_iff, same.down_iff]
      rcases sound.covered ep with up | down | ⟨adder, adds, adding⟩ | between
      · exact .inl up
      · exact .inr (.inl down)
      · refine .inr (.inr (.inl ⟨adder, adds, ?_⟩))
        have differs : thread ≠ adder := by
          rintro rfl
          exact notAdd ep adds (Option.some.inj (at_.symm.trans adding))
        exact (List.getElem?_set_ne differs).trans adding
      · exact .inr (.inr (.inr between)) }

/-- The state is the same but for one gate. -/
theorem only_gate (holder : Option Holder) (next : LinkPc) :
    Only links ({ links with gate := Function.update links.gate ep holder }.goTo thread next) ep
      where
  isOpen _ _ := rfl
  nnSock _ _ := rfl
  gate _ differs := Function.update_of_ne differs _ _
  maps _ _ _ := Iff.rfl

/-- A sender takes the gate. -/
theorem Sound.lock (sound : links.Sound) {adds : Bool}
    (at_ : links.senders[thread]? = some (.lock ep adds)) (free : links.gate ep = none) :
    ({ links with gate := Function.update links.gate ep (some (.sender thread)) }.goTo thread
      (.check ep adds)).Sound := by
  -- The gate was free, so that nobody else relied on it.
  have alone := (sound.here at_).alone ep rfl
  exact sound.moves ep (.check ep adds) at_ {
    senders := rfl
    disc := rfl
    only := only_gate _ _
    about := rfl
    gate := .inl free
    live := fun _ live => live
    up := fun up => ⟨up.isOpen, up.maps⟩
    mapped := fun _ maps => sound.mapped maps
    maps := fun _ maps none => absurd none maps
    here := {
      held := by rintro _ ⟨⟩; exact Function.update_self _ _ _
      shut := nofun
      linked := nofun
      adding := nofun
      hand := nofun
      alone := by rintro _ ⟨⟩; exact alone }
    hand := nofun
    covered := by
      rcases sound.up_or_down at_ rfl (.inl free) nofun with up | down
      · exact .inl ⟨up.isOpen, up.maps⟩
      · exact .inr (.inl ⟨down.isShut, down.unmapped⟩) }

/-- A sender that has the gate sees if the endpoint is open. -/
theorem Sound.check (sound : links.Sound) {adds : Bool}
    (at_ : links.senders[thread]? = some (.check ep adds)) :
    (links.goTo thread (if links.isOpen ep then .unlock ep adds else .connect ep adds)).Sound := by
  -- An endpoint whose gate the sender has is up or down, and the mark tells which.
  have here := sound.here at_
  have held := here.held ep rfl
  have alone := here.alone ep rfl
  rcases sound.up_or_down at_ rfl (.inr held) nofun with up | down
  · rw [up.isOpen]
    exact sound.goTo at_ nofun rfl {
      held := by rintro _ ⟨⟩; exact held
      shut := nofun
      linked := by rintro _ ⟨⟩; exact up
      adding := nofun
      hand := nofun
      alone := by rintro _ ⟨⟩; exact alone }
  · rw [down.isShut]
    exact sound.goTo at_ nofun rfl {
      held := by rintro _ ⟨⟩; exact held
      shut := by rintro _ ⟨⟩; exact down
      linked := nofun
      adding := nofun
      hand := nofun
      alone := by rintro _ ⟨⟩; exact alone }

/-- A sender that has the gate does not get a connection. -/
theorem Sound.connect_none (sound : links.Sound) {adds : Bool}
    (at_ : links.senders[thread]? = some (.connect ep adds)) :
    ({ links with nnSock := Function.update links.nnSock ep (-1) }.goTo thread
      (.giveUp ep)).Sound := by
  -- The endpoint is down, so that nobody relies on the descriptor that is overwritten.
  have here := sound.here at_
  have held := here.held ep rfl
  have down := here.shut ep rfl
  exact sound.moves ep (.giveUp ep) at_ {
    senders := rfl
    disc := rfl
    only := ⟨fun _ _ => rfl, fun _ differs => Function.update_of_ne differs _ _, fun _ _ => rfl,
      fun _ _ _ => Iff.rfl⟩
    about := rfl
    gate := .inr held
    live := fun _ live => live
    up := fun up => absurd up.maps (down.unmapped _)
    mapped := fun fd maps => absurd maps (down.unmapped fd)
    maps := fun _ maps none => absurd none maps
    here := {
      held := by rintro _ ⟨⟩; exact held
      shut := by rintro _ ⟨⟩; exact ⟨down.isShut, down.unmapped⟩
      linked := nofun
      adding := nofun
      hand := nofun
      alone := by rintro _ ⟨⟩; exact here.alone ep rfl }
    hand := nofun
    covered := .inr (.inl ⟨down.isShut, down.unmapped⟩) }

/-- A sender that has the gate gets a connection. -/
theorem Sound.connect_some (sound : links.Sound) {adds : Bool} {fd : Int}
    (at_ : links.senders[thread]? = some (.connect ep adds)) (free : links.isFree fd = true) :
    ({ links with live := Function.update links.live fd true }.goTo thread
      (.assign ep adds fd)).Sound := by
  have here := sound.here at_
  have held := here.held ep rfl
  have down := here.shut ep rfl
  obtain ⟨nonneg, unused⟩ : 0 ≤ fd ∧ links.live fd = false := by
    simpa [isFree] using free
  have live : ∀ other, links.live other = true →
      Function.update links.live fd true other = true := by
    intro other isLive
    rw [Function.update_apply, isLive, ite_self]
  exact sound.moves ep (.assign ep adds fd) at_ {
    senders := rfl
    disc := rfl
    only := ⟨fun _ _ => rfl, fun _ _ => rfl, fun _ _ => rfl, fun _ _ _ => Iff.rfl⟩
    about := rfl
    gate := .inr held
    live
    up := fun up => ⟨up.isOpen, up.maps⟩
    mapped := fun fd maps => absurd maps (down.unmapped fd)
    maps := fun _ maps none => absurd none maps
    here := {
      held := by rintro _ ⟨⟩; exact held
      shut := by rintro _ ⟨⟩; exact ⟨down.isShut, down.unmapped⟩
      linked := nofun
      adding := nofun
      hand := by
        rintro _ ⟨⟩
        refine ⟨nonneg, Function.update_self _ _ _, ?_, fun closing => ?_⟩
        -- A descriptor that is mapped or being closed is in use.
        · by_contra maps
          obtain ⟨other, maps⟩ := Option.ne_none_iff_exists'.mp maps
          exact absurd (sound.mapped maps).2.2 (by simp [unused])
        · exact absurd (sound.there.live closing) (by simp [unused])
      alone := by rintro _ ⟨⟩; exact here.alone ep rfl }
    hand := by rintro _ ⟨⟩; exact .inr unused
    covered := .inr (.inl ⟨down.isShut, down.unmapped⟩) }

/-- A sender puts its new descriptor into the endpoint. -/
theorem Sound.assign (sound : links.Sound) {adds : Bool} {fd : Int}
    (at_ : links.senders[thread]? = some (.assign ep adds fd)) :
    ({ links with nnSock := Function.update links.nnSock ep fd }.goTo thread
      (.setOpen ep adds)).Sound := by
  -- The endpoint is down, so that the new descriptor is not mapped to it, or to another one.
  have here := sound.here at_
  have held := here.held ep rfl
  have down := here.shut ep rfl
  have fresh := here.hand fd rfl
  have sock : Function.update links.nnSock ep fd ep = fd := Function.update_self _ _ _
  exact sound.moves ep (.setOpen ep adds) at_ {
    senders := rfl
    disc := rfl
    only := ⟨fun _ _ => rfl, fun _ differs => Function.update_of_ne differs _ _, fun _ _ => rfl,
      fun _ _ _ => Iff.rfl⟩
    about := rfl
    gate := .inr held
    live := fun _ live => live
    up := fun up => absurd up.maps (down.unmapped _)
    mapped := fun fd maps => absurd maps (down.unmapped fd)
    maps := fun _ maps none => absurd none maps
    here := {
      held := by rintro _ ⟨⟩; exact held
      shut := by rintro _ ⟨⟩; exact ⟨down.isShut, down.unmapped⟩
      linked := nofun
      adding := nofun
      hand := by
        intro new inHand
        obtain rfl : new = fd := (Option.some.inj inHand).symm.trans sock
        exact ⟨fresh.nonneg, fresh.live, fresh.unmapped, fresh.kept⟩
      alone := by rintro _ ⟨⟩; exact here.alone ep rfl }
    hand := by rintro _ ⟨⟩; exact .inl (congrArg some sock.symm)
    covered := .inr (.inl ⟨down.isShut, down.unmapped⟩) }

/-- A sender marks the endpoint as open. -/
theorem Sound.setOpen (sound : links.Sound) {adds : Bool}
    (at_ : links.senders[thread]? = some (.setOpen ep adds)) :
    ({ links with isOpen := Function.update links.isOpen ep true }.goTo thread
      (.add ep adds)).Sound := by
  -- The mark comes before the map entry: in between the endpoint is one that is being added.
  have here := sound.here at_
  have held := here.held ep rfl
  have down := here.shut ep rfl
  have fresh := here.hand (links.nnSock ep) rfl
  exact sound.moves ep (.add ep adds) at_ {
    senders := rfl
    disc := rfl
    only := ⟨fun _ differs => Function.update_of_ne differs _ _, fun _ _ => rfl, fun _ _ => rfl,
      fun _ _ _ => Iff.rfl⟩
    about := rfl
    gate := .inr held
    live := fun _ live => live
    up := fun up => absurd up.maps (down.unmapped _)
    mapped := fun fd maps => absurd maps (down.unmapped fd)
    maps := fun _ maps none => absurd none maps
    here := {
      held := by rintro _ ⟨⟩; exact held
      shut := nofun
      linked := nofun
      adding := by rintro _ _ ⟨⟩; exact ⟨Function.update_self _ _ _, down.unmapped⟩
      hand := by rintro _ ⟨⟩; exact ⟨fresh.nonneg, fresh.live, fresh.unmapped, fresh.kept⟩
      alone := by rintro _ ⟨⟩; exact here.alone ep rfl }
    hand := by rintro _ ⟨⟩; exact .inl rfl
    covered := .inr (.inr ⟨adds, rfl⟩) }

/-- A sender maps its new descriptor to the endpoint. -/
theorem Sound.add (sound : links.Sound) {adds : Bool}
    (at_ : links.senders[thread]? = some (.add ep adds)) :
    ((links.fd2epAdd ep).goTo thread (.unlock ep adds)).Sound := by
  -- With the map entry the endpoint is up, and its descriptor is the one just opened.
  have here := sound.here at_
  have held := here.held ep rfl
  obtain ⟨isOpen, unmapped⟩ := here.adding ep adds rfl
  have fresh := here.hand (links.nnSock ep) rfl
  have up : ((links.fd2epAdd ep).goTo thread (.unlock ep adds)).Up ep :=
    ⟨isOpen, Function.update_self _ _ _⟩
  have maps : ∀ fd, fd ≠ links.nnSock ep →
      Function.update links.fd2ep (links.nnSock ep) (some ep) fd = links.fd2ep fd :=
        fun _ differs =>
    Function.update_of_ne differs _ _
  exact sound.moves ep (.unlock ep adds) at_ {
    senders := rfl
    disc := rfl
    only := {
      isOpen := fun _ _ => rfl
      nnSock := fun _ _ => rfl
      gate := fun _ _ => rfl
      maps := by
        intro other differs fd
        simp only [Links.goTo, fd2epAdd, Function.update_apply]
        by_cases same : fd = links.nnSock ep
        · simp [same, fresh.unmapped, differs.symm]
        · simp [same] }
    about := rfl
    gate := .inr held
    live := fun _ live => live
    up := fun _ => up
    mapped := by
      intro fd isMapped
      by_cases same : fd = links.nnSock ep
      · cases same
        exact ⟨rfl, fresh.nonneg, fresh.live⟩
      · exact absurd ((maps fd same).symm.trans isMapped) (unmapped fd)
    maps := by
      intro fd isMapped none
      by_contra differs
      exact isMapped ((maps fd fun same => differs (congrArg some same.symm)).trans none)
    here := {
      held := by rintro _ ⟨⟩; exact held
      shut := nofun
      linked := by rintro _ ⟨⟩; exact up
      adding := nofun
      hand := nofun
      alone := by rintro _ ⟨⟩; exact here.alone ep rfl }
    hand := nofun
    covered := .inl up }

/-- A sender gives the gate back and keeps the endpoint in view. -/
theorem Sound.unlock (sound : links.Sound) {adds : Bool}
    (at_ : links.senders[thread]? = some (.unlock ep adds)) :
    ({ links with gate := Function.update links.gate ep none }.goTo thread
      (.openAgain ep adds)).Sound := by
  -- The endpoint is up and stays so, also when the gate is somebody else's.
  have here := sound.here at_
  have held := here.held ep rfl
  have up := here.linked ep rfl
  exact sound.moves ep (.openAgain ep adds) at_ {
    senders := rfl
    disc := rfl
    only := only_gate _ _
    about := rfl
    gate := .inr held
    live := fun _ live => live
    up := fun up => ⟨up.isOpen, up.maps⟩
    mapped := fun _ maps => sound.mapped maps
    maps := fun _ maps none => absurd none maps
    here := {
      held := nofun
      shut := nofun
      linked := by rintro _ ⟨⟩; exact ⟨up.isOpen, up.maps⟩
      adding := nofun
      hand := nofun
      alone := by rintro _ ⟨⟩; exact here.alone ep rfl }
    hand := nofun
    covered := .inl ⟨up.isOpen, up.maps⟩ }

/-- A sender gives the gate back without a connection. -/
theorem Sound.giveUp (sound : links.Sound)
    (at_ : links.senders[thread]? = some (.giveUp ep)) :
    ({ links with gate := Function.update links.gate ep none }.goTo thread .idle).Sound := by
  -- The endpoint is down, and the sender is not about it any more.
  have here := sound.here at_
  have held := here.held ep rfl
  have down := here.shut ep rfl
  exact sound.moves ep .idle at_ {
    senders := rfl
    disc := rfl
    only := only_gate _ _
    about := rfl
    gate := .inr held
    live := fun _ live => live
    up := fun up => ⟨up.isOpen, up.maps⟩
    mapped := fun _ maps => sound.mapped maps
    maps := fun _ maps none => absurd none maps
    here := ⟨nofun, nofun, nofun, nofun, nofun, nofun⟩
    hand := nofun
    covered := .inr (.inl ⟨down.isShut, down.unmapped⟩) }

/-- A sender marks an open endpoint as open. -/
theorem Sound.openAgain (sound : links.Sound) {adds : Bool}
    (at_ : links.senders[thread]? = some (.openAgain ep adds)) :
    ({ links with isOpen := Function.update links.isOpen ep true }.goTo thread
      (.readSock ep adds)).Sound := by
  -- The mark was there before, so that the step changes nothing but the sender's place.
  have here := sound.here at_
  have up := here.linked ep rfl
  have alone := here.alone ep rfl
  have same : Function.update links.isOpen ep true = links.isOpen := by
    rw [← up.isOpen, Function.update_eq_self]
  rw [same]
  exact sound.goTo at_ nofun rfl {
    held := nofun
    shut := nofun
    linked := by
      intro other linked
      cases adds <;> cases linked
      exact up
    adding := nofun
    hand := nofun
    alone := by
      intro other about
      cases adds <;> cases about
      exact alone }

/-- A sender reads the descriptor. -/
theorem Sound.readSock (sound : links.Sound) {adds : Bool}
    (at_ : links.senders[thread]? = some (.readSock ep adds)) :
    (links.goTo thread (if adds then .addAgain ep else .idle)).Sound := by
  -- A send is done once it has read the descriptor; `rmr_wh_open` maps it again.
  have here := sound.here at_
  cases adds with
  | false => exact sound.goTo at_ nofun rfl ⟨nofun, nofun, nofun, nofun, nofun, nofun⟩
  | true =>
    exact sound.goTo at_ nofun rfl {
      held := nofun
      shut := nofun
      linked := by rintro _ ⟨⟩; exact here.linked ep rfl
      adding := nofun
      hand := nofun
      alone := by rintro _ ⟨⟩; exact here.alone ep rfl }

/-- A sender maps a mapped descriptor. -/
theorem Sound.addAgain (sound : links.Sound)
    (at_ : links.senders[thread]? = some (.addAgain ep)) :
    ((links.fd2epAdd ep).goTo thread .idle).Sound := by
  -- The descriptor was mapped already, so that the state is the same.
  have up := (sound.here at_).linked ep rfl
  have same : links.fd2epAdd ep = links := by
    rw [fd2epAdd, ← up.maps, Function.update_eq_self]
  rw [same]
  exact sound.goTo at_ nofun rfl ⟨nofun, nofun, nofun, nofun, nofun, nofun⟩

/-- A thread that wants to send finds an endpoint that is not open. -/
theorem Sound.begin_ (sound : links.Sound) {adds : Bool}
    (at_ : links.senders[thread]? = some .idle) (shut : links.isOpen ep = false) :
    (links.goTo thread (.lock ep adds)).Sound := by
  -- The endpoint is not open, so the receive thread has nothing left to do with it.
  refine sound.goTo at_ nofun rfl ⟨nofun, nofun, nofun, nofun, nofun, ?_⟩
  rintro _ ⟨⟩ still
  exact absurd (sound.there.isOpen still) (by simp [shut])

/-- A sender goes on from where it is. -/
theorem Sound.sender (sound : links.Sound) (at_ : links.senders[thread]? = some pc)
    (fd : Option Int) : (links.sender thread fd pc).Sound := by
  -- One case for each place of the sender, each with its lemma.
  cases pc with
  | idle => exact sound
  | lock ep adds =>
    simp only [Links.sender]
    split
    case isTrue free => exact sound.lock at_ free
    case isFalse => exact sound
  | check ep adds => exact sound.check at_
  | connect ep adds =>
    cases fd with
    | none => exact sound.connect_none at_
    | some fd =>
      simp only [Links.sender, connect]
      split
      case isTrue free => exact sound.connect_some at_ free
      case isFalse => exact sound
  | assign ep adds fd => exact sound.assign at_
  | setOpen ep adds => exact sound.setOpen at_
  | add ep adds => exact sound.add at_
  | unlock ep adds => exact sound.unlock at_
  | giveUp ep => exact sound.giveUp at_
  | openAgain ep adds => exact sound.openAgain at_
  | readSock ep adds => exact sound.readSock at_
  | addAgain ep => exact sound.addAgain at_

end Links

end Rmr
