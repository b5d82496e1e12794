import Rmr.Proofs.Transport.Lost

/-! What refers to a descriptor for an endpoint, wherever senders and the receive thread are. -/

namespace Rmr

/-- The descriptor that is lost, and the endpoint that the receive thread has yet to tell. -/
@[grind =] def DiscPc.telling : DiscPc → Option (Int × Nat)
  | .lock fd ep | .setShut fd ep | .revoke fd ep => some (fd, ep)
  | .idle | .del _ _ | .unlock _ _ | .term _ => none

namespace Links

variable {links next : Links} {thread ep : Nat} {pc nextPc : LinkPc} {sock : Int}

/-- Something says that a descriptor is an endpoint's: the map, the sender that has the endpoint's
gate, or the receive thread that is about to tell the endpoint. -/
inductive Refers (links : Links) (ep : Nat) (sock : Int) : Prop where
  | mapped (maps : links.fd2ep sock = some ep)
  | inHand {thread : Nat} {pc : LinkPc} (at_ : links.senders[thread]? = some pc)
    (gated : pc.gated = some ep) (hand : pc.inHand links.nnSock = some sock)
  | telling (tells : links.disc.telling = some (sock, ep))

/-- The descriptor of an endpoint was revoked, or something says that it is the endpoint's. -/
def Minded (links : Links) (ep : Nat) : Prop :=
  links.nnSock ep < 0 ∨ links.Refers ep (links.nnSock ep)

/-- An endpoint that is open and mapped is minded. -/
theorem Up.minded (up : links.Up ep) : links.Minded ep := .inr (.mapped up.maps)

/-- An endpoint that is found open is minded. -/
theorem Sound.minded_of_open (sound : links.Sound) (isOpen : links.isOpen ep = true) :
    links.Minded ep := by
  rcases sound.covered ep with up | down | ⟨adder, adds, adding⟩ | between
  · exact up.minded
  · cases down.isShut.symm.trans isOpen
  · exact .inr (.inHand adding rfl rfl)
  · -- The receive thread has deleted the descriptor, and has the endpoint in hand.
    have there := sound.there
    unfold There at there
    cases is : links.disc with rw [is] at there between
    | lock fd other =>
      cases between
      exact .inr (.telling (by rw [is, there.2.2.2]; rfl))
    | setShut fd other =>
      cases between
      exact .inr (.telling (by rw [is, there.2.2.2.1]; rfl))
    | idle | del fd other | revoke fd other | unlock fd other | term fd => cases between

/-- What something refers to is a descriptor in use. -/
theorem Sound.refers_live (sound : links.Sound) (refers : links.Refers ep sock) :
    links.live sock = true := by
  -- By where the reference is: in the map, with a sender, or with the receive thread.
  rcases refers with maps | ⟨at_, -, inHand⟩ | tells
  · exact (sound.mapped maps).2.2
  · exact ((sound.here at_).hand sock inHand).live
  · refine sound.there.live ?_
    cases is : links.disc <;> simp_all [DiscPc.telling, DiscPc.closing]

/-- What another sender has in hand does not depend on the endpoint whose gate a sender has. -/
theorem Sound.inHand_of_ne (sound : links.Sound) (at_ : links.senders[thread]? = some pc)
    (gated : pc.gated = some ep) {other : Nat} {otherPc : LinkPc} (differs : other ≠ thread)
    (is : links.senders[other]? = some otherPc) {nnSock : Nat → Int}
    (same : ∀ away ≠ ep, nnSock away = links.nnSock away) :
    otherPc.inHand nnSock = otherPc.inHand links.nnSock := by
  -- The gate of the endpoint is held by one sender only, so that the other one is elsewhere.
  refine LinkPc.inHand_congr fun away otherGated => same away ?_
  rintro rfl
  have held := (sound.here is).held away otherGated
  rw [(sound.here at_).held away gated] at held
  cases held
  exact differs rfl

/-- What a sender has in hand does not depend on an endpoint whose gate the receive thread has. -/
theorem Sound.inHand_of_receiver (sound : links.Sound) (held : links.gate ep = some .receiver)
    (at_ : links.senders[thread]? = some pc) :
    pc.inHand (Function.update links.nnSock ep sock) = pc.inHand links.nnSock := by
  -- A sender that depends on the number would have the gate that the receive thread has.
  refine LinkPc.inHand_congr fun other gated => Function.update_of_ne ?_ _ _
  rintro rfl
  cases held.symm.trans ((sound.here at_).held other gated)

/-- Where a sender gets to, or another one is. -/
theorem goTo_senders {other : Nat} {otherPc : LinkPc}
    (is : (links.senders.set thread nextPc)[other]? = some otherPc) :
    (other = thread ∧ otherPc = nextPc) ∨
      (other ≠ thread ∧ links.senders[other]? = some otherPc) := by
  rw [List.getElem?_set] at is
  grind

/-- A sender that is there gets to another place. -/
theorem goTo_self (at_ : links.senders[thread]? = some pc) :
    (links.senders.set thread nextPc)[thread]? = some nextPc :=
  List.getElem?_set_self (List.getElem?_eq_some_iff.mp at_).1

/-- What refers to descriptors after a sender's step that leaves them alone did so before. -/
theorem refers_of_goTo (refers : next.Refers ep sock) (at_ : links.senders[thread]? = some pc)
    (senders : next.senders = links.senders.set thread nextPc)
    (nnSock : next.nnSock = links.nnSock) (fd2ep : next.fd2ep = links.fd2ep)
    (disc : next.disc = links.disc)
    (stays : nextPc.inHand links.nnSock = none ∨
      pc.gated = nextPc.gated ∧ pc.inHand links.nnSock = nextPc.inHand links.nnSock) :
    links.Refers ep sock := by
  -- The map and the callback are the same, and only the sender's own hand may differ.
  rcases refers with maps | ⟨is, gated, inHand⟩ | tells
  · exact .mapped (fd2ep ▸ maps)
  · rw [senders] at is
    rw [nnSock] at inHand
    rcases goTo_senders is with ⟨rfl, rfl⟩ | ⟨-, is⟩
    · rcases stays with none | ⟨sameGate, sameHand⟩
      · cases none.symm.trans inHand
      · exact .inHand at_ (sameGate.trans gated) (sameHand.trans inHand)
    · exact .inHand is gated inHand
  · exact .telling (disc ▸ tells)

/-- What refers to descriptors before such a step still does. -/
theorem Refers.goTo (refers : links.Refers ep sock) (at_ : links.senders[thread]? = some pc)
    (senders : next.senders = links.senders.set thread nextPc)
    (nnSock : next.nnSock = links.nnSock) (fd2ep : next.fd2ep = links.fd2ep)
    (disc : next.disc = links.disc)
    (stays : pc.inHand links.nnSock = none ∨
      nextPc.gated = pc.gated ∧ nextPc.inHand links.nnSock = pc.inHand links.nnSock) :
    next.Refers ep sock := by
  -- The map and the callback are the same, and only the sender's own hand may differ.
  rcases refers with maps | @⟨other, otherPc, is, gated, inHand⟩ | tells
  · exact .mapped (fd2ep.symm ▸ maps)
  · by_cases same : other = thread
    · cases same
      cases at_.symm.trans is
      rcases stays with none | ⟨sameGate, sameHand⟩
      · cases none.symm.trans inHand
      · refine .inHand (senders ▸ goTo_self at_) (sameGate.trans gated) ?_
        rw [nnSock]
        exact sameHand.trans inHand
    · have stays : next.senders[other]? = some otherPc := by
        rw [senders, List.getElem?_set_ne (Ne.symm same)]
        exact is
      exact .inHand stays gated (nnSock.symm ▸ inHand)
  · exact .telling (disc.symm ▸ tells)

/-- What refers to descriptors when the one of an endpoint changes that a sender has the gate of:
what did before, the map of that endpoint, or the sender. -/
theorem Sound.refers_move (sound : links.Sound) (refers : next.Refers ep sock)
    (at_ : links.senders[thread]? = some pc) {here : Nat} (isGated : pc.gated = some here)
    (senders : next.senders = links.senders.set thread nextPc)
    (nnSock : ∀ away ≠ here, next.nnSock away = links.nnSock away)
    (maps : ∀ fd other, next.fd2ep fd = some other → links.fd2ep fd = some other ∨
      (other = here ∧ pc.inHand links.nnSock = some fd))
    (disc : next.disc = links.disc) :
    links.Refers ep sock ∨
      (nextPc.gated = some ep ∧ nextPc.inHand next.nnSock = some sock) := by
  -- Three ways to refer to a descriptor: the map, a sender's hand, and the callback.
  rcases refers with mapped | ⟨is, gated, inHand⟩ | tells
  · rcases maps sock ep mapped with before | ⟨rfl, inHand⟩
    · exact .inl (.mapped before)
    · exact .inl (.inHand at_ isGated inHand)
  · rw [senders] at is
    rcases goTo_senders is with ⟨rfl, rfl⟩ | ⟨differs, is⟩
    · exact .inr ⟨gated, inHand⟩
    · rw [sound.inHand_of_ne at_ isGated differs is nnSock] at inHand
      exact .inl (.inHand is gated inHand)
  · exact .inl (.telling (disc ▸ tells))

/-- Other endpoints are minded as before when a sender changes the one whose gate it has. -/
theorem Sound.minded_move (sound : links.Sound) (at_ : links.senders[thread]? = some pc)
    {here : Nat} (isGated : pc.gated = some here)
    (senders : next.senders = links.senders.set thread nextPc)
    (nnSock : ∀ away ≠ here, next.nnSock away = links.nnSock away)
    (maps : ∀ fd other, other ≠ here → links.fd2ep fd = some other →
      next.fd2ep fd = some other)
    (disc : next.disc = links.disc) (away : ep ≠ here) (minded : links.Minded ep) :
    next.Minded ep := by
  -- Three ways to refer to a descriptor, each of which is about another endpoint here.
  unfold Minded
  rw [nnSock ep away]
  refine minded.imp id fun refers => ?_
  rcases refers with mapped | ⟨is, gated, inHand⟩ | tells
  · exact .mapped (maps _ ep away mapped)
  · rename_i other otherPc
    have differs : other ≠ thread := by
      rintro rfl
      cases at_.symm.trans is
      exact away (Option.some.inj (gated.symm.trans isGated))
    have stays : next.senders[other]? = some otherPc := by
      rw [senders, List.getElem?_set_ne differs.symm]
      exact is
    exact .inHand stays gated ((sound.inHand_of_ne at_ isGated differs is nnSock).trans inHand)
  · exact .telling (disc.symm ▸ tells)

/-- What refers to a descriptor after a sender's step did so before, unless the descriptor is one
that `SIconnect` just returned for the endpoint. -/
theorem Sound.refers_sender (sound : links.Sound) (at_ : links.senders[thread]? = some pc)
    {fd : Option Int} (refers : (links.sender thread fd pc).Refers ep sock) :
    links.Refers ep sock ∨ ∃ adds, pc = .connect ep adds ∧ fd = some sock := by
  have kept : ∀ {next : Links} {nextPc : LinkPc}, next.Refers ep sock →
      next.senders = links.senders.set thread nextPc →
      next.nnSock = links.nnSock → next.fd2ep = links.fd2ep → next.disc = links.disc →
      (nextPc.inHand links.nnSock = none ∨
        pc.gated = nextPc.gated ∧ pc.inHand links.nnSock = nextPc.inHand links.nnSock) →
      links.Refers ep sock :=
    fun refers senders nnSock fd2ep disc stays =>
      refers_of_goTo refers at_ senders nnSock fd2ep disc stays
  cases pc with
  | idle => exact .inl refers
  | lock here adds =>
    simp only [Links.sender] at refers
    split at refers
    · exact .inl (kept refers rfl rfl rfl rfl (.inl rfl))
    · exact .inl refers
  | check here adds =>
    refine .inl (kept refers rfl rfl rfl rfl (.inl ?_))
    split
    · rfl
    · rfl
  | connect here adds =>
    cases fd with
    | none =>
      refine .inl ((sound.refers_move refers at_ rfl rfl
        (fun _ away => Function.update_of_ne away _ _)
          (fun _ _ maps => .inl maps) rfl).resolve_right ?_)
      rintro ⟨_, ⟨⟩⟩
    | some new =>
      simp only [Links.sender, Links.connect] at refers
      split at refers
      · refine (sound.refers_move refers at_ rfl rfl (fun _ _ => rfl) (fun _ _ maps => .inl maps)
          rfl).imp id ?_
        rintro ⟨⟨⟩, ⟨⟩⟩
        exact ⟨adds, rfl, rfl⟩
      · exact .inl refers
  | assign here adds new =>
    refine .inl ((sound.refers_move refers at_ rfl rfl
      (fun _ away => Function.update_of_ne away _ _) (fun _ _ maps => .inl maps) rfl).elim id ?_)
    -- The sender had the descriptor in hand before.
    rintro ⟨⟨⟩, inHand⟩
    exact .inHand at_ rfl (inHand.symm.trans (congrArg some (Function.update_self _ _ _))).symm
  | setOpen here adds => exact .inl (kept refers rfl rfl rfl rfl (.inr ⟨rfl, rfl⟩))
  | add here adds =>
    refine .inl ((sound.refers_move refers at_ rfl rfl (fun _ _ => rfl) ?_ rfl).resolve_right ?_)
    · intro fd' other maps
      change Function.update _ _ _ _ = _ at maps
      rw [Function.update_apply] at maps
      split at maps
      · rename_i same
        cases maps
        exact .inr ⟨rfl, congrArg some same.symm⟩
      · exact .inl maps
    · rintro ⟨_, ⟨⟩⟩
  | unlock here adds => exact .inl (kept refers rfl rfl rfl rfl (.inl rfl))
  | giveUp here => exact .inl (kept refers rfl rfl rfl rfl (.inl rfl))
  | openAgain here adds => exact .inl (kept refers rfl rfl rfl rfl (.inl rfl))
  | readSock here adds =>
    refine .inl (kept refers rfl rfl rfl rfl (.inl ?_))
    split
    · rfl
    · rfl
  | addAgain here =>
    -- The descriptor is mapped already.
    have up := (sound.here at_).linked here rfl
    have same : links.fd2epAdd here = links := by
      rw [fd2epAdd, ← up.maps, Function.update_eq_self]
    simp only [Links.sender, same] at refers
    exact .inl (kept refers rfl rfl rfl rfl (.inl rfl))

/-- A sender's step keeps endpoints minded. -/
theorem Sound.minded_sender (sound : links.Sound) (at_ : links.senders[thread]? = some pc)
    (fd : Option Int) (minded : links.Minded ep) : (links.sender thread fd pc).Minded ep := by
  have kept : ∀ {next : Links} {nextPc : LinkPc}, next.senders = links.senders.set thread nextPc →
      next.nnSock = links.nnSock → next.fd2ep = links.fd2ep → next.disc = links.disc →
      (pc.inHand links.nnSock = none ∨
        nextPc.gated = pc.gated ∧ nextPc.inHand links.nnSock = pc.inHand links.nnSock) →
      next.Minded ep := by
    intro next nextPc senders nnSock fd2ep disc stays
    unfold Minded
    rw [nnSock]
    exact minded.imp id fun refers => refers.goTo at_ senders nnSock fd2ep disc stays
  cases pc with
  | idle => exact minded
  | lock here adds =>
    simp only [Links.sender]
    split
    · exact kept rfl rfl rfl rfl (.inl rfl)
    · exact minded
  | check here adds =>
    exact kept rfl rfl rfl rfl (.inl rfl)
  | connect here adds =>
    cases fd with
    | none =>
      by_cases same : ep = here
      · cases same
        refine .inl ?_
        change Function.update links.nnSock ep (-1) ep < 0
        rw [Function.update_self]
        decide
      · exact sound.minded_move at_ rfl rfl (fun _ away => Function.update_of_ne away _ _)
          (fun _ _ _ maps => maps) rfl same minded
    | some new =>
      simp only [Links.sender, Links.connect]
      split
      · exact kept rfl rfl rfl rfl (.inl rfl)
      · exact minded
  | assign here adds new =>
    by_cases same : ep = here
    · cases same
      exact .inr (.inHand (goTo_self at_) rfl rfl)
    · exact sound.minded_move at_ rfl rfl (fun _ away => Function.update_of_ne away _ _)
        (fun _ _ _ maps => maps) rfl same minded
  | setOpen here adds => exact kept rfl rfl rfl rfl (.inr ⟨rfl, rfl⟩)
  | add here adds =>
    by_cases same : ep = here
    · cases same
      refine .inr (.mapped ?_)
      exact Function.update_self (links.nnSock ep) (some ep) links.fd2ep
    · refine sound.minded_move at_ rfl rfl (fun _ _ => rfl) ?_ rfl same minded
      -- What is mapped already is not the new descriptor.
      intro fd' other _ maps
      have fresh := (sound.here at_).hand (links.nnSock here) rfl
      have differs : fd' ≠ links.nnSock here := by
        rintro rfl
        cases fresh.unmapped.symm.trans maps
      exact (Function.update_of_ne differs _ _).trans maps
  | unlock here adds => exact kept rfl rfl rfl rfl (.inl rfl)
  | giveUp here => exact kept rfl rfl rfl rfl (.inl rfl)
  | openAgain here adds => exact kept rfl rfl rfl rfl (.inl rfl)
  | readSock here adds =>
    exact kept rfl rfl rfl rfl (.inl rfl)
  | addAgain here =>
    have up := (sound.here at_).linked here rfl
    have same : links.fd2epAdd here = links := by
      rw [fd2epAdd, ← up.maps, Function.update_eq_self]
    simp only [Links.sender, same]
    exact kept rfl rfl rfl rfl (.inl rfl)

/-- The receive thread's step brings nothing new that refers to a descriptor. -/
theorem Sound.refers_receiver (sound : links.Sound) (refers : links.receiver.Refers ep sock) :
    links.Refers ep sock := by
  have there := sound.there
  unfold There at there
  unfold Links.receiver at refers
  cases is : links.disc with rw [is] at there refers
  | idle => exact refers
  | del fd here =>
    obtain ⟨-, up, sockIs⟩ := there
    rcases refers with maps | ⟨at_, gated, inHand⟩ | tells
    · dsimp only at maps
      rw [Function.update_apply] at maps
      split at maps
      · cases maps
      · exact .mapped maps
    · exact .inHand at_ gated inHand
    · -- The descriptor that is to be told of was mapped to the endpoint.
      cases tells
      exact .mapped (sockIs ▸ up.maps)
  | lock fd here =>
    simp only at refers
    split at refers
    · rcases refers with maps | ⟨at_, gated, inHand⟩ | tells
      · exact .mapped maps
      · exact .inHand at_ gated inHand
      · exact .telling (is ▸ tells)
    · exact refers
  | setShut fd here =>
    rcases refers with maps | ⟨at_, gated, inHand⟩ | tells
    · exact .mapped maps
    · exact .inHand at_ gated inHand
    · exact .telling (is ▸ tells)
  | revoke fd here =>
    obtain ⟨-, none, sockIs, held⟩ := there
    rcases refers with maps | ⟨at_, gated, inHand⟩ | tells
    · exact .mapped maps
    · rw [sound.inHand_of_receiver held at_] at inHand
      exact .inHand at_ gated inHand
    · cases tells
  | unlock fd here =>
    rcases refers with maps | ⟨at_, gated, inHand⟩ | tells
    · exact .mapped maps
    · exact .inHand at_ gated inHand
    · cases tells
  | term fd =>
    rcases refers with maps | ⟨at_, gated, inHand⟩ | tells
    · exact .mapped maps
    · exact .inHand at_ gated inHand
    · cases tells

/-- The receive thread's step keeps endpoints minded. -/
theorem Sound.minded_receiver (sound : links.Sound) (minded : links.Minded ep) :
    links.receiver.Minded ep := by
  have there := sound.there
  unfold There at there
  unfold Links.receiver
  cases is : links.disc with (rw [is] at there; dsimp only)
  | idle => exact minded
  | del fd here =>
    obtain ⟨-, up, sockIs⟩ := there
    refine minded.imp id fun refers => ?_
    rcases refers with maps | ⟨at_, gated, inHand⟩ | tells
    · by_cases same : links.nnSock ep = fd
      · -- The endpoint is the one that is told now.
        have here_ : some ep = some here := by
          rw [← maps, same, ← sockIs]
          exact up.maps
        cases here_
        exact .telling (congrArg (fun fd => some (fd, ep)) sockIs.symm)
      · exact .mapped ((Function.update_of_ne same _ _).trans maps)
    · exact .inHand at_ gated inHand
    · rw [is] at tells
      cases tells
  | lock fd here =>
    split
    · refine minded.imp id fun refers => ?_
      rcases refers with maps | ⟨at_, gated, inHand⟩ | tells
      · exact .mapped maps
      · exact .inHand at_ gated inHand
      · rw [is] at tells
        exact .telling tells
    · exact minded
  | setShut fd here =>
    refine minded.imp id fun refers => ?_
    rcases refers with maps | ⟨at_, gated, inHand⟩ | tells
    · exact .mapped maps
    · exact .inHand at_ gated inHand
    · rw [is] at tells
      exact .telling tells
  | revoke fd here =>
    obtain ⟨-, none, sockIs, held⟩ := there
    by_cases same : ep = here
    · cases same
      refine .inl ?_
      dsimp only
      rw [Function.update_self]
      decide
    · unfold Minded
      dsimp only
      rw [Function.update_of_ne same]
      refine minded.imp id fun refers => ?_
      rcases refers with maps | ⟨at_, gated, inHand⟩ | tells
      · exact .mapped maps
      · exact .inHand at_ gated ((sound.inHand_of_receiver held at_).trans inHand)
      · rw [is] at tells
        cases tells
        exact absurd rfl same
  | unlock fd here =>
    refine minded.imp id fun refers => ?_
    rcases refers with maps | ⟨at_, gated, inHand⟩ | tells
    · exact .mapped maps
    · exact .inHand at_ gated inHand
    · rw [is] at tells
      cases tells
  | term fd =>
    refine minded.imp id fun refers => ?_
    rcases refers with maps | ⟨at_, gated, inHand⟩ | tells
    · exact .mapped maps
    · exact .inHand at_ gated inHand
    · rw [is] at tells
      cases tells

/-- What refers to descriptors is the same where endpoints, senders and what the receive thread has
to tell are. -/
theorem Refers.same (refers : links.Refers ep sock) (nnSock : next.nnSock = links.nnSock)
    (fd2ep : next.fd2ep = links.fd2ep) (senders : next.senders = links.senders)
    (disc : next.disc.telling = links.disc.telling) : next.Refers ep sock := by
  -- By where the reference is.
  rcases refers with maps | ⟨at_, gated, inHand⟩ | tells
  · exact .mapped (fd2ep.symm ▸ maps)
  · exact .inHand (senders.symm ▸ at_) gated (nnSock.symm ▸ inHand)
  · exact .telling (disc.trans tells)

/-- Likewise for endpoints that are minded. -/
theorem Minded.same (minded : links.Minded ep) (nnSock : next.nnSock = links.nnSock)
    (fd2ep : next.fd2ep = links.fd2ep) (senders : next.senders = links.senders)
    (disc : next.disc.telling = links.disc.telling) : next.Minded ep := by
  unfold Minded
  rw [nnSock]
  exact minded.imp id fun refers => refers.same nnSock fd2ep senders disc

/-- A sender's step leads where it is about the same endpoint, or about none. -/
theorem about_sender {fd : Option Int} {after : LinkPc}
    (among : after ∈ (links.sender thread fd pc).senders) (about : after.about = some ep) :
    after ∈ links.senders ∨ pc.about = some ep := by
  -- One case for each place of the sender: no step leads to another endpoint.
  have moved : ∀ {nextPc : LinkPc}, after ∈ links.senders.set thread nextPc →
      (nextPc.about = some ep → pc.about = some ep) →
      after ∈ links.senders ∨ pc.about = some ep := by
    intro nextPc among leads
    rcases List.mem_or_eq_of_mem_set among with old | rfl
    · exact .inl old
    · exact .inr (leads about)
  cases pc with
  | idle => exact .inl among
  | lock here adds =>
    simp only [Links.sender] at among
    split at among
    · exact moved among id
    · exact .inl among
  | check here adds =>
    refine moved among fun is => ?_
    split at is
    · exact is
    · exact is
  | connect here adds =>
    cases fd with
    | none => exact moved among id
    | some new =>
      simp only [Links.sender, connect] at among
      split at among
      · exact moved among id
      · exact .inl among
  | readSock here adds =>
    refine moved among fun is => ?_
    cases adds with
    | true => exact is
    | false => cases is
  | addAgain here => exact moved among (by rintro ⟨⟩)
  | giveUp here => exact moved among (by rintro ⟨⟩)
  | openAgain here adds =>
    refine moved among fun is => ?_
    cases adds with
    | true => exact is
    | false => cases is
  | assign here adds new => exact moved among id
  | setOpen here adds => exact moved among id
  | add here adds => exact moved among id
  | unlock here adds => exact moved among id

/-- A sender that is about to read a descriptor without mapping it again was there before, or found
the endpoint linked. -/
theorem readSock_sender {fd : Option Int}
    (among : .readSock ep false ∈ (links.sender thread fd pc).senders) :
    .readSock ep false ∈ links.senders ∨ pc = .openAgain ep false := by
  -- One case for each place of the sender; only the mark of an open endpoint leads to the read.
  have moved : ∀ {nextPc : LinkPc}, .readSock ep false ∈ links.senders.set thread nextPc →
      nextPc ≠ .readSock ep false → .readSock ep false ∈ links.senders ∨ pc = .openAgain ep false :=
    fun among other => .inl ((List.mem_or_eq_of_mem_set among).resolve_right (Ne.symm other))
  cases pc with
  | idle => exact .inl among
  | lock here adds =>
    simp only [Links.sender] at among
    split at among
    · exact moved among (by rintro ⟨⟩)
    · exact .inl among
  | check here adds =>
    refine moved among ?_
    split
    · rintro ⟨⟩
    · rintro ⟨⟩
  | connect here adds =>
    cases fd with
    | none => exact moved among (by rintro ⟨⟩)
    | some new =>
      simp only [Links.sender, connect] at among
      split at among
      · exact moved among (by rintro ⟨⟩)
      · exact .inl among
  | openAgain here adds =>
    rcases List.mem_or_eq_of_mem_set among with old | same
    · exact .inl old
    · cases same
      exact .inr rfl
  | readSock here adds =>
    refine moved among ?_
    split
    · rintro ⟨⟩
    · rintro ⟨⟩
  | assign here adds new => exact moved among (by rintro ⟨⟩)
  | setOpen here adds => exact moved among (by rintro ⟨⟩)
  | add here adds => exact moved among (by rintro ⟨⟩)
  | unlock here adds => exact moved among (by rintro ⟨⟩)
  | giveUp here => exact moved among (by rintro ⟨⟩)
  | addAgain here => exact moved among (by rintro ⟨⟩)

/-- A sender's step that connects nothing leaves sessions and the receive thread alone. -/
theorem sender_frame (links : Links) (thread : Nat) (pc : LinkPc) :
    (links.sender thread none pc).live = links.live ∧
      (links.sender thread none pc).disc = links.disc := by
  -- Only waiting for the gate has two branches, neither of which touches sessions.
  cases pc with
  | lock here adds =>
    simp only [Links.sender]
    split
    · exact ⟨rfl, rfl⟩
    · exact ⟨rfl, rfl⟩
  | _ => exact ⟨rfl, rfl⟩

/-- The receive thread goes on with the descriptor that it is busy with. -/
theorem receiver_closing {fd : Int} (busy : links.disc.closing = some fd)
    (more : ∀ fd, links.disc ≠ .term fd) : links.receiver.disc.closing = some fd := by
  -- One case for each step of the callback; only the last one lets go of the descriptor.
  unfold Links.receiver
  cases is : links.disc with rw [is] at busy more
  | idle => cases busy
  | del fd here => exact busy
  | lock fd here =>
    dsimp only
    split
    · exact busy
    · rw [is]
      exact busy
  | setShut fd here => exact busy
  | revoke fd here => exact busy
  | unlock fd here => exact busy
  | term fd => exact absurd rfl (more fd)

/-- The receive thread leaves senders alone. -/
theorem receiver_senders (links : Links) : links.receiver.senders = links.senders := by
  -- Only waiting for the gate has two branches, neither of which moves a sender.
  unfold Links.receiver
  cases links.disc with
  | lock fd here =>
    dsimp only
    split
    · rfl
    · rfl
  | idle | del fd here | setShut fd here | revoke fd here | unlock fd here | term fd => rfl

/-- In `mt_disc_cb` it leaves sessions alone. -/
theorem receiver_live (more : ∀ fd, links.disc ≠ .term fd) : links.receiver.live = links.live := by
  -- Only the last step closes a session, and that one is behind the callback.
  unfold Links.receiver
  cases is : links.disc with
  | lock fd here =>
    dsimp only
    split
    · rfl
    · rfl
  | term fd => exact absurd is (more fd)
  | idle | del fd here | setShut fd here | revoke fd here | unlock fd here => rfl

/-- Where the receive thread goes with a descriptor that is lost, nobody has to be told yet. -/
theorem lost_telling (links : Links) (fd : Int) : (links.lost fd).telling = none := by
  unfold Links.lost
  split
  · rfl
  · rfl

end Links

end Rmr
