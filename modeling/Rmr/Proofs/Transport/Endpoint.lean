import Mathlib.Data.List.Basic
import Rmr.Transport.Endpoint

/-! What holds of endpoints wherever senders and the receive thread are. -/

namespace Rmr

/-- The endpoint whose gate a sender has. -/
@[grind =] def LinkPc.gated : LinkPc → Option Nat
  | .check ep _ | .connect ep _ | .assign ep _ _ | .setOpen ep _ | .add ep _ | .unlock ep _
  | .giveUp ep => some ep
  | .idle | .lock _ _ | .openAgain _ _ | .readSock _ _ | .addAgain _ => none

/-- The endpoint that a sender has yet to look at, to mark as open or to map. -/
@[grind =] def LinkPc.about : LinkPc → Option Nat
  | .lock ep _ | .check ep _ | .connect ep _ | .assign ep _ _ | .setOpen ep _ | .add ep _
  | .unlock ep _ | .giveUp ep | .openAgain ep _ | .readSock ep true | .addAgain ep => some ep
  | .idle | .readSock _ false => none

/-- The new descriptor that a sender has yet to map. -/
@[grind =] def LinkPc.inHand (nnSock : Nat → Int) : LinkPc → Option Int
  | .assign _ _ fd => some fd
  | .setOpen ep _ | .add ep _ => some (nnSock ep)
  | _ => none

/-- The endpoint that a sender has found shut. -/
@[grind =] def LinkPc.shut : LinkPc → Option Nat
  | .connect ep _ | .assign ep _ _ | .setOpen ep _ | .giveUp ep => some ep
  | _ => none

/-- The endpoint that a sender has found linked, or linked itself. -/
@[grind =] def LinkPc.linked : LinkPc → Option Nat
  | .unlock ep _ | .openAgain ep _ | .readSock ep true | .addAgain ep => some ep
  | _ => none

/-- A sender that has found an endpoint shut has its gate. -/
theorem LinkPc.gated_of_shut {pc : LinkPc} {ep : Nat} (shut : pc.shut = some ep) :
    pc.gated = some ep := by
  cases pc <;> simp_all [LinkPc.shut, LinkPc.gated]

/-- A sender that has the gate of an endpoint is still about to do something with it. -/
theorem LinkPc.about_of_gated {pc : LinkPc} {ep : Nat} (gated : pc.gated = some ep) :
    pc.about = some ep := by
  cases pc <;> simp_all [LinkPc.gated, LinkPc.about]

/-- A sender that has found an endpoint linked is still about to do something with it. -/
theorem LinkPc.about_of_linked {pc : LinkPc} {ep : Nat} (linked : pc.linked = some ep) :
    pc.about = some ep := by
  cases pc with
  | readSock other adds => cases adds <;> simp_all [LinkPc.linked, LinkPc.about]
  | _ => simp_all [LinkPc.linked, LinkPc.about]

/-- The descriptor in a sender's hand is read from no other endpoint than the one whose gate it has.
-/
theorem LinkPc.inHand_congr {pc : LinkPc} {nnSock other : Nat → Int}
    (same : ∀ ep ∈ pc.gated, other ep = nnSock ep) : pc.inHand other = pc.inHand nnSock := by
  cases pc <;> simp_all [LinkPc.inHand, LinkPc.gated]

/-- The descriptor that the receive thread is busy with. -/
@[grind =] def DiscPc.closing : DiscPc → Option Int
  | .idle => none
  | .del fd _ | .lock fd _ | .setShut fd _ | .revoke fd _ | .unlock fd _ | .term fd => some fd

/-- The receive thread is in `mt_disc_cb`. -/
def DiscPc.isCallback : DiscPc → Bool
  | .idle | .term _ => false
  | .del _ _ | .lock _ _ | .setShut _ _ | .revoke _ _ | .unlock _ _ => true

/-- The endpoint whose gate the receive thread has. -/
@[grind =] def DiscPc.gated : DiscPc → Option Nat
  | .setShut _ ep | .revoke _ ep | .unlock _ ep => some ep
  | .idle | .del _ _ | .lock _ _ | .term _ => none

/-- The endpoint that the receive thread has yet to mark as shut. -/
@[grind =] def DiscPc.stillOpen : DiscPc → Option Nat
  | .del _ ep | .lock _ ep | .setShut _ ep => some ep
  | .idle | .revoke _ _ | .unlock _ _ | .term _ => none

/-- The endpoint that is open but not mapped any more. -/
@[grind =] def DiscPc.between : DiscPc → Option Nat
  | .lock _ ep | .setShut _ ep => some ep
  | .idle | .del _ _ | .revoke _ _ | .unlock _ _ | .term _ => none

namespace Links

variable {links next : Links} {thread ep : Nat} {pc nextPc : LinkPc}

/-- When the other side of a session is gone, no sender has its descriptor in hand, and none is
still about to look at, mark as open or map the endpoint that it is mapped to. -/
def Calm (links : Links) (event : LinksEvent) : Prop :=
  match event with
  | .disc fd => links.disc = .idle → links.live fd = true →
    ∀ pc ∈ links.senders, pc.inHand links.nnSock ≠ some fd ∧
      ∀ ep ∈ links.fd2ep fd, pc.about ≠ some ep
  | _ => True

instance decidableCalm (links : Links) : (event : LinksEvent) → Decidable (links.Calm event)
  | .disc fd => inferInstanceAs (Decidable (links.disc = .idle → links.live fd = true →
      ∀ pc ∈ links.senders, pc.inHand links.nnSock ≠ some fd ∧
        ∀ ep ∈ links.fd2ep fd, pc.about ≠ some ep))
  | .begin_ _ _ _ | .sender _ _ | .accept _ | .receiver => isTrue trivial

/-- No sender connects, and `mt_disc_cb` is not being called. -/
def Quiet (links : Links) : Prop := (∀ pc ∈ links.senders, pc = .idle) ∧
    links.disc.isCallback = false

instance decidableQuiet (links : Links) : Decidable links.Quiet :=
  inferInstanceAs (Decidable ((∀ pc ∈ links.senders, pc = .idle) ∧ links.disc.isCallback = false))

/-- Every endpoint that is marked as open has a descriptor that is mapped to it, and every
descriptor is mapped to the endpoint that has it. -/
structure Consistent (links : Links) : Prop where
  isOpen : ∀ ep, links.isOpen ep = true →
    0 ≤ links.nnSock ep ∧ links.fd2ep (links.nnSock ep) = some ep
  fd2ep : ∀ fd ep, links.fd2ep fd = some ep → links.nnSock ep = fd

/-- An endpoint is open, and mapped. -/
structure Up (links : Links) (ep : Nat) : Prop where
  isOpen : links.isOpen ep = true
  maps : links.fd2ep (links.nnSock ep) = some ep

/-- An endpoint is not open, and not mapped. -/
structure Down (links : Links) (ep : Nat) : Prop where
  isShut : links.isOpen ep = false
  unmapped : ∀ fd, links.fd2ep fd ≠ some ep

/-- A descriptor is new: in use, but neither mapped nor being closed. -/
structure Fresh (links : Links) (fd : Int) : Prop where
  nonneg : 0 ≤ fd
  live : links.live fd = true
  unmapped : links.fd2ep fd = none
  kept : links.disc.closing ≠ some fd

/-- What holds where a sender is. -/
structure Here (links : Links) (thread : Nat) (pc : LinkPc) : Prop where
  held : ∀ ep ∈ pc.gated, links.gate ep = some (.sender thread)
  shut : ∀ ep ∈ pc.shut, links.Down ep
  linked : ∀ ep ∈ pc.linked, links.Up ep
  adding : ∀ ep adds, pc = .add ep adds → links.isOpen ep = true ∧ ∀ fd, links.fd2ep fd ≠ some ep
  hand : ∀ fd ∈ pc.inHand links.nnSock, links.Fresh fd
  alone : ∀ ep ∈ pc.about, links.disc.stillOpen ≠ some ep

/-- What holds where the receive thread is. -/
@[grind =] def There (links : Links) : Prop :=
  match links.disc with
  | .idle => True
  | .del fd ep => links.live fd = true ∧ links.Up ep ∧ links.nnSock ep = fd
  | .lock fd ep => links.live fd = true ∧ links.fd2ep fd = none ∧ links.isOpen ep = true ∧
    links.nnSock ep = fd
  | .setShut fd ep => links.live fd = true ∧ links.fd2ep fd = none ∧ links.isOpen ep = true ∧
    links.nnSock ep = fd ∧ links.gate ep = some .receiver
  | .revoke fd ep => links.live fd = true ∧ links.fd2ep fd = none ∧ links.nnSock ep = fd ∧
    links.gate ep = some .receiver
  | .unlock fd ep => links.live fd = true ∧ links.fd2ep fd = none ∧ links.nnSock ep = -1 ∧
    links.gate ep = some .receiver
  | .term fd => links.live fd = true ∧ links.fd2ep fd = none

/-- What holds between any two steps of any threads. -/
structure Sound (links : Links) : Prop where
  mapped : ∀ {fd ep}, links.fd2ep fd = some ep →
    links.nnSock ep = fd ∧ 0 ≤ fd ∧ links.live fd = true
  here : ∀ {thread : Nat} {pc}, links.senders[thread]? = some pc → links.Here thread pc
  /-- No two senders have the same new descriptor. -/
  apart : ∀ {thread other : Nat} {pc otherPc : LinkPc} {fd}, links.senders[thread]? = some pc →
    links.senders[other]? = some otherPc → pc.inHand links.nnSock = some fd →
    otherPc.inHand links.nnSock = some fd → thread = other
  there : links.There
  /-- An endpoint that is neither open and mapped nor the opposite is in somebody's hands. -/
  covered : ∀ ep, links.Up ep ∨ links.Down ep ∨
    (∃ (thread : Nat) (adds : Bool), links.senders[thread]? = some (.add ep adds)) ∨
    links.disc.between = some ep

/-- Two states differ only in what there is about one endpoint. -/
structure Only (links next : Links) (ep : Nat) : Prop where
  isOpen : ∀ other ≠ ep, next.isOpen other = links.isOpen other
  nnSock : ∀ other ≠ ep, next.nnSock other = links.nnSock other
  gate : ∀ other ≠ ep, next.gate other = links.gate other
  maps : ∀ other ≠ ep, ∀ fd, next.fd2ep fd = some other ↔ links.fd2ep fd = some other

/-- What is open and mapped elsewhere stays so. -/
theorem Only.up_iff (only : Only links next ep) {other : Nat} (differs : other ≠ ep) :
    next.Up other ↔ links.Up other := by
  -- What being up is about is the endpoint's own mark, descriptor and map entries.
  constructor
  · rintro ⟨isOpen, maps⟩
    rw [only.isOpen other differs] at isOpen
    rw [only.nnSock other differs, only.maps other differs] at maps
    exact ⟨isOpen, maps⟩
  · rintro ⟨isOpen, maps⟩
    refine ⟨(only.isOpen other differs).trans isOpen, ?_⟩
    rw [only.nnSock other differs, only.maps other differs]
    exact maps

/-- What is shut and not mapped elsewhere stays so. -/
theorem Only.down_iff (only : Only links next ep) {other : Nat} (differs : other ≠ ep) :
    next.Down other ↔ links.Down other := by
  -- What being down is about is the endpoint's own mark and map entries.
  constructor
  · rintro ⟨isShut, unmapped⟩
    rw [only.isOpen other differs] at isShut
    exact ⟨isShut, fun fd maps => unmapped fd ((only.maps other differs fd).mpr maps)⟩
  · rintro ⟨isShut, unmapped⟩
    exact ⟨(only.isOpen other differs).trans isShut, fun fd maps =>
      unmapped fd ((only.maps other differs fd).mp maps)⟩

/-- Two states do not differ in what there is about any endpoint. -/
structure Same (links next : Links) : Prop where
  isOpen : next.isOpen = links.isOpen
  nnSock : next.nnSock = links.nnSock
  gate : next.gate = links.gate
  fd2ep : next.fd2ep = links.fd2ep

/-- What is open and mapped stays so. -/
theorem Same.up_iff (same : Same links next) : next.Up ep ↔ links.Up ep := by
  -- Marks, descriptors and map are the same.
  constructor
  · rintro ⟨isOpen, maps⟩
    rw [same.isOpen] at isOpen
    rw [same.nnSock, same.fd2ep] at maps
    exact ⟨isOpen, maps⟩
  · rintro ⟨isOpen, maps⟩
    rw [← same.isOpen] at isOpen
    rw [← same.nnSock, ← same.fd2ep] at maps
    exact ⟨isOpen, maps⟩

/-- What is shut and not mapped stays so. -/
theorem Same.down_iff (same : Same links next) : next.Down ep ↔ links.Down ep := by
  -- Marks and map are the same.
  constructor
  · rintro ⟨isShut, unmapped⟩
    rw [same.isOpen] at isShut
    rw [same.fd2ep] at unmapped
    exact ⟨isShut, unmapped⟩
  · rintro ⟨isShut, unmapped⟩
    rw [← same.isOpen] at isShut
    rw [← same.fd2ep] at unmapped
    exact ⟨isShut, unmapped⟩

/-- Where a sender is, the same holds of every endpoint if none is changed. -/
theorem Here.same (here : links.Here thread pc) (same : Same links next)
    (fresh : ∀ fd ∈ pc.inHand links.nnSock, next.Fresh fd)
    (alone : ∀ other ∈ pc.about, next.disc.stillOpen ≠ some other) : next.Here thread pc where
  -- Each field asks for marks, descriptors, gates or the map, which are the same.
  held ep gated := by
    rw [same.gate]
    exact here.held ep gated
  shut ep shut := same.down_iff.mpr (here.shut ep shut)
  linked ep linked := same.up_iff.mpr (here.linked ep linked)
  adding ep adds adding := by
    rw [same.isOpen, same.fd2ep]
    exact here.adding ep adds adding
  hand fd inHand := by
    rw [same.nnSock] at inHand
    exact fresh fd inHand
  alone := alone

/-- Where a sender is not at the endpoint that somebody else changes, the same still holds. -/
theorem Here.frame (here : links.Here thread pc) (only : Only links next ep)
    (away : pc.gated ≠ some ep) (stays : pc.linked = some ep → next.Up ep)
    (fresh : ∀ fd ∈ pc.inHand links.nnSock, next.Fresh fd)
    (alone : ∀ other ∈ pc.about, next.disc.stillOpen ≠ some other) : next.Here thread pc where
  -- Each field is about the endpoint that the sender is at, which is another one where it matters.
  held other gated := by
    have differs : other ≠ ep := by rintro rfl; exact away gated
    exact (only.gate other differs).trans (here.held other gated)
  shut other shut := by
    have differs : other ≠ ep := by rintro rfl; exact away (LinkPc.gated_of_shut shut)
    exact (only.down_iff differs).mpr (here.shut other shut)
  linked other linked := by
    by_cases same : other = ep
    · cases same
      exact stays linked
    · exact (only.up_iff same).mpr (here.linked other linked)
  adding other adds adding := by
    have differs : other ≠ ep := by
      rintro rfl
      cases adding
      exact away rfl
    obtain ⟨isOpen, unmapped⟩ := here.adding other adds adding
    exact ⟨(only.isOpen other differs).trans isOpen, fun fd maps =>
      unmapped fd ((only.maps other differs fd).mp maps)⟩
  hand fd inHand := by
    refine fresh fd ?_
    rwa [LinkPc.inHand_congr fun other gated => only.nnSock other ?_] at inHand
    rintro rfl
    exact away gated
  alone := alone

/-- Where the receive thread is not at the endpoint that a sender changes, the same still holds. -/
theorem There.frame (there : links.There) (disc : next.disc = links.disc)
    (only : Only links next ep) (live : ∀ fd, links.live fd = true → next.live fd = true)
    (unmapped : ∀ fd, links.disc.closing = some fd → links.fd2ep fd = none → next.fd2ep fd = none)
    (away : links.disc.stillOpen ≠ some ep ∧ links.gate ep ≠ some .receiver) : next.There := by
  -- One case for each place of the receive thread, whose endpoint is another one.
  obtain ⟨still, gate⟩ := away
  unfold There at there ⊢
  rw [disc]
  cases is : links.disc with rw [is] at there still unmapped
  | idle => trivial
  | del fd other =>
    have differs : other ≠ ep := by rintro rfl; exact still rfl
    obtain ⟨isLive, up, sock⟩ := there
    exact ⟨live fd isLive, (only.up_iff differs).mpr up, (only.nnSock other differs).trans sock⟩
  | lock fd other =>
    have differs : other ≠ ep := by rintro rfl; exact still rfl
    obtain ⟨isLive, none, isOpen, sock⟩ := there
    exact ⟨live fd isLive, unmapped fd rfl none, (only.isOpen other differs).trans isOpen,
      (only.nnSock other differs).trans sock⟩
  | setShut fd other =>
    obtain ⟨isLive, none, isOpen, sock, held⟩ := there
    have differs : other ≠ ep := by rintro rfl; exact gate held
    exact ⟨live fd isLive, unmapped fd rfl none, (only.isOpen other differs).trans isOpen,
      (only.nnSock other differs).trans sock, (only.gate other differs).trans held⟩
  | revoke fd other =>
    obtain ⟨isLive, none, sock, held⟩ := there
    have differs : other ≠ ep := by rintro rfl; exact gate held
    exact ⟨live fd isLive, unmapped fd rfl none, (only.nnSock other differs).trans sock,
      (only.gate other differs).trans held⟩
  | unlock fd other =>
    obtain ⟨isLive, none, sock, held⟩ := there
    have differs : other ≠ ep := by rintro rfl; exact gate held
    exact ⟨live fd isLive, unmapped fd rfl none, (only.nnSock other differs).trans sock,
      (only.gate other differs).trans held⟩
  | term fd =>
    obtain ⟨isLive, none⟩ := there
    exact ⟨live fd isLive, unmapped fd rfl none⟩

/-- The descriptor that the receive thread is busy with is in use. -/
theorem There.live (there : links.There) {fd : Int} (closing : links.disc.closing = some fd) :
    links.live fd = true := by
  unfold There at there
  cases is : links.disc <;> simp_all [DiscPc.closing]

/-- Where the receive thread is, the same holds if no endpoint is changed. -/
theorem There.same (there : links.There) (same : Same links next) (disc : next.disc = links.disc)
    (live : ∀ fd, links.live fd = true → next.live fd = true) : next.There := by
  -- One case for each place of the receive thread, in which what it relies on is the same.
  unfold There at there ⊢
  rw [disc, same.isOpen, same.nnSock, same.gate, same.fd2ep]
  cases is : links.disc with rw [is] at there
  | idle => trivial
  | del fd ep => exact ⟨live fd there.1, same.up_iff.mpr there.2.1, there.2.2⟩
  | lock fd ep => exact ⟨live fd there.1, there.2⟩
  | setShut fd ep => exact ⟨live fd there.1, there.2⟩
  | revoke fd ep => exact ⟨live fd there.1, there.2⟩
  | unlock fd ep => exact ⟨live fd there.1, there.2⟩
  | term fd => exact ⟨live fd there.1, there.2⟩

/-- What the receive thread has yet to mark as shut is open. -/
theorem There.isOpen (there : links.There) (still : links.disc.stillOpen = some ep) :
    links.isOpen ep = true := by
  -- The callback marks the endpoint in its third step; before that it is open.
  unfold There at there
  cases is : links.disc with rw [is] at there still
  | del fd other =>
    cases still
    exact there.2.1.isOpen
  | lock fd other =>
    cases still
    exact there.2.2.1
  | setShut fd other =>
    cases still
    exact there.2.2.1
  | idle | revoke fd other | unlock fd other | term fd => cases still

end Links

end Rmr
