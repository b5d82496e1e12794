import Rmr.Lib.Run
import Rmr.Proofs.Transport.Connect

/-! Once no sender is connecting and no disconnect is being handled, every endpoint that is marked
as open is connected and mapped, unless a session was lost while a sender was still busy with its
endpoint. -/

namespace Rmr

namespace Links

variable {links next : Links} {thread ep : Nat} {pc nextPc : LinkPc}

/-- What a step of the receive thread is, at an endpoint that no sender is at. -/
structure Drops (links next : Links) (ep : Nat) : Prop where
  senders : next.senders = links.senders
  live : next.live = links.live
  closing : next.disc.closing = links.disc.closing
  stillOpen : ∀ other, next.disc.stillOpen = some other → links.disc.stillOpen = some other
  only : Only links next ep
  /-- No sender has the gate, or found the endpoint open. -/
  away : ∀ {thread : Nat} {pc : LinkPc}, links.senders[thread]? = some pc →
    pc.gated ≠ some ep ∧ pc.linked ≠ some ep
  mapped : ∀ fd, next.fd2ep fd = some ep → next.nnSock ep = fd ∧ 0 ≤ fd ∧ next.live fd = true
  maps : ∀ fd, links.fd2ep fd = none → next.fd2ep fd = none
  there : next.There
  between : ∀ other ≠ ep, links.disc.between ≠ some other
  covered : next.Up ep ∨ next.Down ep ∨ next.disc.between = some ep

/-- The receive thread's step at an endpoint that no sender is at. -/
theorem Sound.drops (sound : links.Sound) (ep : Nat) (drops : Drops links next ep) :
    next.Sound where
  -- No sender is at the endpoint, and of every other one nothing has changed.
  mapped := by
    intro fd other maps
    by_cases is : other = ep
    · cases is
      exact drops.mapped fd maps
    · rw [drops.only.nnSock other is, drops.live]
      exact sound.mapped ((drops.only.maps other is fd).mp maps)
  here := by
    intro thread pc is
    rw [drops.senders] at is
    obtain ⟨ungated, unlinked⟩ := drops.away is
    have here := sound.here is
    refine here.frame drops.only ungated (fun linked => absurd linked unlinked) ?_ ?_
    · intro fd inHand
      obtain ⟨nonneg, live, none, kept⟩ := here.hand fd inHand
      exact ⟨nonneg, drops.live ▸ live, drops.maps fd none, drops.closing ▸ kept⟩
    · exact fun other about still => here.alone other about (drops.stillOpen other still)
  apart := by
    intro one other onePc otherPc fd isOne isOther oneHand otherHand
    have same : ∀ {thread : Nat} {pc : LinkPc}, links.senders[thread]? = some pc →
        pc.inHand next.nnSock = pc.inHand links.nnSock := fun is =>
      LinkPc.inHand_congr fun other gated => drops.only.nnSock other fun eq =>
        (drops.away is).1 (eq ▸ gated)
    rw [drops.senders] at isOne isOther
    rw [same isOne] at oneHand
    rw [same isOther] at otherHand
    exact sound.apart isOne isOther oneHand otherHand
  there := drops.there
  covered := by
    intro other
    by_cases is : other = ep
    · cases is
      rcases drops.covered with up | down | between
      · exact .inl up
      · exact .inr (.inl down)
      · exact .inr (.inr (.inr between))
    · rw [drops.only.up_iff is, drops.only.down_iff is, drops.senders]
      rcases sound.covered other with up | down | adding | between
      · exact .inl up
      · exact .inr (.inl down)
      · exact .inr (.inr (.inl adding))
      · exact absurd between (drops.between other is)

/-- No sender is at an endpoint that the receive thread has yet to mark as shut. -/
theorem Sound.away_of_stillOpen (sound : links.Sound) (still : links.disc.stillOpen = some ep)
    (is : links.senders[thread]? = some pc) : pc.gated ≠ some ep ∧ pc.linked ≠ some ep := by
  -- A sender that is about to do something with the endpoint keeps the receive thread away.
  have alone := (sound.here is).alone ep
  exact ⟨fun gated => alone (LinkPc.about_of_gated gated) still,
    fun linked => alone (LinkPc.about_of_linked linked) still⟩

/-- No sender is at an endpoint that is not mapped and whose gate the receive thread has. -/
theorem Sound.away_of_held (sound : links.Sound) (held : links.gate ep = some .receiver)
    (none : links.fd2ep (links.nnSock ep) = none) (is : links.senders[thread]? = some pc) :
    pc.gated ≠ some ep ∧ pc.linked ≠ some ep := by
  -- A sender with the gate would be the one that has it, and a linked one would have the descriptor
  -- mapped.
  constructor
  · intro gated
    cases held.symm.trans ((sound.here is).held ep gated)
  · intro linked
    exact absurd (none.symm.trans ((sound.here is).linked ep linked).maps) nofun

/-- An endpoint whose descriptor is not mapped is not mapped at all. -/
theorem Sound.unmapped (sound : links.Sound) (none : links.fd2ep (links.nnSock ep) = none)
    (fd : Int) : links.fd2ep fd ≠ some ep := by
  intro maps
  rw [(sound.mapped maps).1, maps] at none
  cases none

/-- The receive thread deletes the descriptor. -/
theorem Sound.del (sound : links.Sound) {fd : Int} (is : links.disc = .del fd ep) :
    Sound { links with
      fd2ep := Function.update links.fd2ep fd none
      disc := .lock fd ep } := by
  -- The endpoint was up, so that its entry is the one that goes.
  have there := sound.there
  rw [There, is] at there
  obtain ⟨isLive, up, sock⟩ := there
  have still : links.disc.stillOpen = some ep := by rw [is]; rfl
  have maps := up.maps
  rw [sock] at maps
  refine sound.drops ep {
    senders := rfl
    live := rfl
    closing := by rw [is]; rfl
    stillOpen := by rintro _ ⟨⟩; exact still
    only := {
      isOpen := fun _ _ => rfl
      nnSock := fun _ _ => rfl
      gate := fun _ _ => rfl
      maps := ?_ }
    away := sound.away_of_stillOpen still
    mapped := ?_
    maps := ?_
    there := ⟨isLive, Function.update_self _ _ _, up.isOpen, sock⟩
    between := by rw [is]; nofun
    covered := .inr (.inr rfl) }
  · intro other differs fd'
    by_cases same : fd' = fd
    · simp [same, maps, differs.symm]
    · simp [same]
  · intro fd' isMapped
    by_cases same : fd' = fd
    · simp [same] at isMapped
    · exact sound.mapped ((Function.update_of_ne same _ _).symm.trans isMapped)
  · intro fd' none
    exact (Function.update_apply _ _ _ _).trans (by rw [none, ite_self])

/-- The receive thread takes the gate. -/
theorem Sound.takeGate (sound : links.Sound) {fd : Int} (is : links.disc = .lock fd ep) :
    Sound { links with
      gate := Function.update links.gate ep (some .receiver)
      disc := .setShut fd ep } := by
  -- The endpoint is not mapped any more, and whoever waits for the gate stays where it is.
  have there := sound.there
  rw [There, is] at there
  obtain ⟨isLive, none, isOpen, sock⟩ := there
  have still : links.disc.stillOpen = some ep := by rw [is]; rfl
  exact sound.drops ep {
    senders := rfl
    live := rfl
    closing := by rw [is]; rfl
    stillOpen := by rintro _ ⟨⟩; exact still
    only := {
      isOpen := fun _ _ => rfl
      nnSock := fun _ _ => rfl
      gate := fun _ differs => Function.update_of_ne differs _ _
      maps := fun _ _ _ => Iff.rfl }
    away := sound.away_of_stillOpen still
    mapped := fun _ maps => sound.mapped maps
    maps := fun _ none => none
    there := ⟨isLive, none, isOpen, sock, Function.update_self _ _ _⟩
    between := by rw [is]; rintro _ differs ⟨⟩; exact differs rfl
    covered := .inr (.inr rfl) }

/-- The receive thread marks the endpoint as shut. -/
theorem Sound.setShut (sound : links.Sound) {fd : Int} (is : links.disc = .setShut fd ep) :
    Sound { links with
      isOpen := Function.update links.isOpen ep false
      disc := .revoke fd ep } := by
  -- With the mark gone the endpoint is between two steps of the callback.
  have there := sound.there
  rw [There, is] at there
  obtain ⟨isLive, none, -, sock, held⟩ := there
  have still : links.disc.stillOpen = some ep := by rw [is]; rfl
  exact sound.drops ep {
    senders := rfl
    live := rfl
    closing := by rw [is]; rfl
    stillOpen := nofun
    only := {
      isOpen := fun _ differs => Function.update_of_ne differs _ _
      nnSock := fun _ _ => rfl
      gate := fun _ _ => rfl
      maps := fun _ _ _ => Iff.rfl }
    away := sound.away_of_stillOpen still
    mapped := fun _ maps => sound.mapped maps
    maps := fun _ none => none
    there := ⟨isLive, none, sock, held⟩
    between := by rw [is]; rintro _ differs ⟨⟩; exact differs rfl
    covered := .inr (.inl ⟨Function.update_self _ _ _, sound.unmapped (sock ▸ none)⟩) }

/-- The receive thread revokes the descriptor. -/
theorem Sound.revoke (sound : links.Sound) {fd : Int} (is : links.disc = .revoke fd ep) :
    Sound { links with
      nnSock := Function.update links.nnSock ep (-1)
      disc := .unlock fd ep } := by
  -- The descriptor was not mapped any more, so that no entry is left that refers to it.
  have there := sound.there
  rw [There, is] at there
  obtain ⟨isLive, none, sock, held⟩ := there
  have gone : links.fd2ep (links.nnSock ep) = Option.none := sock ▸ none
  exact sound.drops ep {
    senders := rfl
    live := rfl
    closing := by rw [is]; rfl
    stillOpen := nofun
    only := {
      isOpen := fun _ _ => rfl
      nnSock := fun _ differs => Function.update_of_ne differs _ _
      gate := fun _ _ => rfl
      maps := fun _ _ _ => Iff.rfl }
    away := sound.away_of_held held gone
    mapped := fun fd maps => absurd maps (sound.unmapped gone fd)
    maps := fun _ none => none
    there := ⟨isLive, none, Function.update_self _ _ _, held⟩
    between := by rw [is]; nofun
    covered := by
      have down : links.Down ep := by
        rcases sound.covered ep with up | down | ⟨adder, adds, adding⟩ | between
        · exact absurd (gone.symm.trans up.maps) nofun
        · exact down
        · exact absurd (held.symm.trans ((sound.here adding).held ep rfl)) nofun
        · rw [is] at between
          cases between
      exact .inr (.inl ⟨down.isShut, down.unmapped⟩) }

/-- The receive thread gives the gate back. -/
theorem Sound.giveGate (sound : links.Sound) {fd : Int} (is : links.disc = .unlock fd ep) :
    Sound { links with gate := Function.update links.gate ep none, disc := .term fd } := by
  have there := sound.there
  rw [There, is] at there
  obtain ⟨isLive, none, sock, held⟩ := there
  -- No endpoint is mapped from -1.
  have gone : links.fd2ep (links.nnSock ep) = Option.none := by
    by_contra maps
    obtain ⟨other, maps⟩ := Option.ne_none_iff_exists'.mp maps
    have nonneg := (sound.mapped maps).2.1
    rw [sock] at nonneg
    exact absurd nonneg (by decide)
  exact sound.drops ep {
    senders := rfl
    live := rfl
    closing := by rw [is]; rfl
    stillOpen := nofun
    only := {
      isOpen := fun _ _ => rfl
      nnSock := fun _ _ => rfl
      gate := fun _ differs => Function.update_of_ne differs _ _
      maps := fun _ _ _ => Iff.rfl }
    away := sound.away_of_held held gone
    mapped := fun _ maps => sound.mapped maps
    maps := fun _ none => none
    there := ⟨isLive, none⟩
    between := by rw [is]; nofun
    covered := by
      rcases sound.covered ep with up | down | ⟨adder, adds, adding⟩ | between
      · exact .inl ⟨up.isOpen, up.maps⟩
      · exact .inr (.inl ⟨down.isShut, down.unmapped⟩)
      · exact absurd (held.symm.trans ((sound.here adding).held ep rfl)) nofun
      · rw [is] at between
        cases between }

/-- Descriptors and the receive thread's place are all that changes, and what each sender relies on
stays. -/
theorem Sound.same (sound : links.Sound) (same : Same links next)
    (senders : next.senders = links.senders)
    (mapped : ∀ {fd ep}, links.fd2ep fd = some ep → next.live fd = true)
    (fresh : ∀ {thread : Nat} {pc : LinkPc} {fd}, links.senders[thread]? = some pc →
      pc.inHand links.nnSock = some fd → next.live fd = true ∧ next.disc.closing ≠ some fd)
    (alone : ∀ {thread : Nat} {pc : LinkPc}, links.senders[thread]? = some pc →
      ∀ ep ∈ pc.about, next.disc.stillOpen ≠ some ep)
    (there : next.There) (between : ∀ ep, links.disc.between = some ep →
      next.disc.between = some ep) : next.Sound where
  -- Links are the same, so that only what is asked of descriptors is to be shown.
  mapped := by
    intro fd ep maps
    rw [same.fd2ep] at maps
    rw [same.nnSock]
    obtain ⟨sock, nonneg, -⟩ := sound.mapped maps
    exact ⟨sock, nonneg, mapped maps⟩
  here := by
    intro thread pc is
    rw [senders] at is
    have here := sound.here is
    refine here.same same (fun fd inHand => ?_) (alone is)
    obtain ⟨isLive, kept⟩ := fresh is inHand
    exact ⟨(here.hand fd inHand).nonneg, isLive, same.fd2ep ▸ (here.hand fd inHand).unmapped, kept⟩
  apart := by
    intro one other onePc otherPc fd isOne isOther oneHand otherHand
    rw [senders] at isOne isOther
    rw [same.nnSock] at oneHand otherHand
    exact sound.apart isOne isOther oneHand otherHand
  there := there
  covered := by
    intro ep
    rw [same.up_iff, same.down_iff, senders]
    rcases sound.covered ep with up | down | adding | isBetween
    · exact .inl up
    · exact .inr (.inl down)
    · exact .inr (.inr (.inl adding))
    · exact .inr (.inr (.inr (between ep isBetween)))

/-- The receive thread closes the session. -/
theorem Sound.term (sound : links.Sound) {fd : Int} (is : links.disc = .term fd) :
    Sound { links with live := Function.update links.live fd false, disc := .idle } := by
  -- The descriptor is not mapped, so that no endpoint loses a live one.
  have there := sound.there
  rw [There, is] at there
  obtain ⟨-, none⟩ := there
  refine sound.same ⟨rfl, rfl, rfl, rfl⟩ rfl ?_ ?_ (fun _ _ _ => nofun) trivial ?_
  · intro other ep maps
    have differs : other ≠ fd := by
      rintro rfl
      cases none.symm.trans maps
    exact (Function.update_of_ne differs _ _).trans (sound.mapped maps).2.2
  · intro thread pc other at_ inHand
    have fresh := (sound.here at_).hand other inHand
    have differs : other ≠ fd := by
      rintro rfl
      exact fresh.kept (by rw [is]; rfl)
    exact ⟨(Function.update_of_ne differs _ _).trans fresh.live, nofun⟩
  · rw [is]
    nofun

/-- Somebody connects. -/
theorem Sound.accept (sound : links.Sound) (fd : Int) :
    Sound { links with live := Function.update links.live fd true } := by
  -- More descriptors are live than before, which takes nothing from anybody.
  have live : ∀ other, links.live other = true →
      Function.update links.live fd true other = true := by
    intro other isLive
    rw [Function.update_apply, isLive, ite_self]
  have same : Same links { links with live := Function.update links.live fd true } :=
    ⟨rfl, rfl, rfl, rfl⟩
  refine sound.same same rfl (fun maps => live _ (sound.mapped maps).2.2) ?_
    (fun at_ => (sound.here at_).alone) (sound.there.same same rfl live) (fun _ between => between)
  intro thread pc other at_ inHand
  have fresh := (sound.here at_).hand other inHand
  exact ⟨live other fresh.live, fresh.kept⟩

/-- The receive thread goes on from where it is. -/
theorem Sound.receiver (sound : links.Sound) : links.receiver.Sound := by
  -- One case for each place of the receive thread, each with its lemma.
  unfold Links.receiver
  cases is : links.disc with
  | idle => exact sound
  | del fd ep => exact sound.del is
  | lock fd ep =>
    simp only
    split
    · exact sound.takeGate is
    · exact sound
  | setShut fd ep => exact sound.setShut is
  | revoke fd ep => exact sound.revoke is
  | unlock fd ep => exact sound.giveGate is
  | term fd => exact sound.term is

/-- The other side of a session is gone. -/
theorem Sound.gone (sound : links.Sound) {fd : Int} (live : links.live fd = true)
    (idle : links.disc = .idle) (calm : links.Calm (.disc fd)) :
    Sound { links with disc := links.lost fd } := by
  have same : Same links { links with disc := links.lost fd } := ⟨rfl, rfl, rfl, rfl⟩
  have senders : ∀ {thread : Nat} {pc : LinkPc}, links.senders[thread]? = some pc →
      pc.inHand links.nnSock ≠ some fd ∧ ∀ ep ∈ links.fd2ep fd, pc.about ≠ some ep := fun at_ =>
    calm idle live _ (List.mem_of_getElem? at_)
  cases maps : links.fd2ep fd with
  | none =>
    have lost : links.lost fd = .term fd := by rw [Links.lost, maps]
    rw [lost] at same ⊢
    refine sound.same same rfl (fun maps => (sound.mapped maps).2.2) ?_ (fun _ _ _ => nofun)
      ⟨live, maps⟩ (by rw [idle]; nofun)
    rintro thread pc other at_ inHand
    refine ⟨((sound.here at_).hand other inHand).live, ?_⟩
    rintro ⟨⟩
    exact (senders at_).1 inHand
  | some ep =>
    have lost : links.lost fd = .del fd ep := by rw [Links.lost, maps]
    rw [lost] at same ⊢
    have sock := (sound.mapped maps).1
    -- An endpoint that is mapped and in nobody's hands is open.
    have up : links.Up ep := by
      rcases sound.covered ep with up | down | ⟨adder, adds, adding⟩ | between
      · exact up
      · exact absurd maps (down.unmapped fd)
      · exact absurd maps (((sound.here adding).adding ep adds rfl).2 fd)
      · rw [idle] at between
        cases between
    refine sound.same same rfl (fun maps => (sound.mapped maps).2.2) ?_ ?_
      ⟨live, same.up_iff.mpr up, sock⟩ (by rw [idle]; nofun)
    · rintro thread pc other at_ inHand
      refine ⟨((sound.here at_).hand other inHand).live, ?_⟩
      rintro ⟨⟩
      exact (senders at_).1 inHand
    · rintro thread pc at_ other about ⟨⟩
      exact (senders at_).2 ep maps about

/-- One event. -/
theorem Sound.step (sound : links.Sound) {event : LinksEvent} (calm : links.Calm event) :
    (links.step event).Sound := by
  -- One case for each event; what is not calm is excluded.
  cases event with
  | begin_ thread ep adds =>
    simp only [Links.step]
    split
    case isTrue waits => exact sound.begin_ waits.1 waits.2
    case isFalse => exact sound
  | sender thread fd =>
    simp only [Links.step]
    split
    case h_1 pc at_ => exact sound.sender at_ fd
    case h_2 => exact sound
  | accept fd =>
    simp only [Links.step]
    split
    · exact sound.accept fd
    · exact sound
  | disc fd =>
    simp only [Links.step]
    split
    case isTrue comes => exact sound.gone comes.2 comes.1 calm
    case isFalse => exact sound
  | receiver => exact sound.receiver

/-- Nothing is connected. -/
theorem sound_init (threads : Nat) (nnSock : Nat → Int) : (init threads nnSock).Sound where
  -- Every sender is idle, every endpoint is down, and nothing is mapped.
  mapped := nofun
  here := by
    intro thread pc is
    obtain rfl := (List.mem_replicate.mp (List.mem_of_getElem? is)).2
    exact ⟨nofun, nofun, nofun, nofun, nofun, nofun⟩
  apart := by
    intro thread other pc otherPc fd is _ inHand
    obtain rfl := (List.mem_replicate.mp (List.mem_of_getElem? is)).2
    cases inHand
  there := trivial
  covered _ := .inr (.inl ⟨rfl, nofun⟩)

/-- What is sound is consistent when nothing is in progress. -/
theorem Sound.consistent (sound : links.Sound) (quiet : links.Quiet) : links.Consistent where
  -- Nobody is adding, and the callback is over, so that an open endpoint can only be up.
  isOpen := by
    intro ep isOpen
    have up : links.Up ep := by
      rcases sound.covered ep with up | down | ⟨adder, adds, adding⟩ | between
      · exact up
      · exact absurd (down.isShut.symm.trans isOpen) nofun
      · exact absurd (quiet.1 _ (List.mem_of_getElem? adding)) nofun
      · have idle := quiet.2
        cases is : links.disc <;> simp_all [DiscPc.between, DiscPc.isCallback]
    exact ⟨(sound.mapped up.maps).2.1, up.maps⟩
  fd2ep _ _ maps := (sound.mapped maps).1

/-- However senders that connect and the receive thread that is told of lost sessions take turns: if
no session is lost while a sender is still busy with its endpoint, then whenever nothing is in
progress the endpoints are consistent. -/
theorem run_consistent (threads : Nat) (nnSock : Nat → Int) (events : List LinksEvent)
    (calm : Throughout step Calm (init threads nnSock) events)
    (quiet : (events.foldl step (init threads nnSock)).Quiet) :
    (events.foldl step (init threads nnSock)).Consistent :=
  (calm.keeps (fun sound calm => sound.step calm) (sound_init threads nnSock)).consistent quiet

/-- A thread connects an endpoint and maps it, the session is lost and marked as such, and another
thread connects the endpoint again for a message that goes to the owner of a managed element. -/
def reconnects : List LinksEvent :=
  [.begin_ 0 7 true] ++ List.replicate 2 (.sender 0 none) ++ [.sender 0 (some 5)] ++
    List.replicate 7 (.sender 0 none) ++ [.disc 5] ++ List.replicate 6 .receiver ++
    [.begin_ 1 7 false] ++ List.replicate 2 (.sender 1 none) ++ [.sender 1 (some 6)] ++
    List.replicate 6 (.sender 1 none)

/-- An endpoint that is connected, lost and connected again is consistent. -/
theorem run_consistent_reconnects :
    (reconnects.foldl step (init 2 fun _ => 0)).isOpen 7 = true ∧
      (reconnects.foldl step (init 2 fun _ => 0)).nnSock 7 = 6 ∧
      (reconnects.foldl step (init 2 fun _ => 0)).Consistent :=
  ⟨by decide +kernel, by decide +kernel,
    run_consistent 2 (fun _ => 0) reconnects (by decide +kernel) (by decide +kernel)⟩

/-- A thread connects an endpoint; after it has given the gate back, the session is lost and marked
as such; and then the thread marks the endpoint as open, and maps the descriptor that it has now. -/
def lostWhileOpening : List LinksEvent :=
  [.begin_ 0 7 true] ++ List.replicate 2 (.sender 0 none) ++ [.sender 0 (some 5)] ++
    List.replicate 4 (.sender 0 none) ++ [.disc 5] ++ List.replicate 6 .receiver ++
    List.replicate 3 (.sender 0 none)

/-- The endpoint is then marked as open without a descriptor, and -1 is mapped to it. -/
theorem open_without_descriptor :
    (lostWhileOpening.foldl step (init 1 fun _ => 0)).Quiet ∧
      (lostWhileOpening.foldl step (init 1 fun _ => 0)).isOpen 7 = true ∧
      (lostWhileOpening.foldl step (init 1 fun _ => 0)).nnSock 7 = -1 ∧
      (lostWhileOpening.foldl step (init 1 fun _ => 0)).fd2ep (-1) = some 7 ∧
      ¬ (lostWhileOpening.foldl step (init 1 fun _ => 0)).Consistent := by
  -- The run is evaluated; the state it ends in opens an endpoint with a negative descriptor.
  refine ⟨by decide +kernel, by decide +kernel, by decide +kernel, by decide +kernel, ?_⟩
  intro consistent
  have nonneg := (consistent.isOpen 7 (by decide +kernel)).1
  exact absurd nonneg (by decide +kernel)

end Links

end Rmr
