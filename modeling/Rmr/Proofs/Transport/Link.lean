import Rmr.Lib.Run
import Rmr.Transport.Link
import Rmr.Proofs.Transport.Refers
import Rmr.Proofs.Transport.Session

/-! Bytes for an endpoint go to a session with it, as long as nobody but the receiver closes one,
and no descriptor is given out again that a thread still has in hand. -/

namespace Rmr

/-- The block that `SIterm` is in the midst of. -/
def Closing.terming : Closing → List Nat
  | .closed blk => [blk]
  | .idle | .callback _ => []

namespace Net

variable {net next : Net} {thread ep : Nat} {hand : Hand} {sock : Int}

/-- All bytes for an endpoint went to a session that was established to its name, and every
descriptor was closed for the session that it belonged to. -/
structure Routed (net : Net) : Prop where
  written : ∀ bytes ∈ net.written, ∀ name ∈ bytes.name, net.peer bytes.session = some name
  closed : ∀ fd ∈ net.closed, fd.session = some fd.own

/-- No thread has a descriptor in hand. -/
def Unheld (net : Net) (fd : Nat) : Prop := ∀ hand ∈ net.hands, hand.sock ≠ some (fd : Int)

instance decidableUnheld (net : Net) (fd : Nat) : Decidable (net.Unheld fd) :=
  inferInstanceAs (Decidable (∀ hand ∈ net.hands, hand.sock ≠ some (fd : Int)))

/-- No send closes a session: `select` reports no exception for the descriptor of one. No session is
lost while a thread is still connecting or mapping its endpoint. And no descriptor is given out that
a thread still has in hand. -/
def Fine (net : Net) : NetEvent → Prop
  | .sendt thread .exception _ _ =>
    ∀ sock ∈ (net.hands[thread]?.bind Hand.sock), net.target sock = none
  | .disc blk => ∀ fd ∈ net.si.fdOf blk, net.links.Calm (.disc fd)
  | .link _ (some fd) | .accept fd => net.Unheld fd
  | _ => True

/-- If a number is the descriptor of a session, the session was established to the name of an
endpoint. -/
def Aims (net : Net) (ep : Nat) (sock : Int) : Prop :=
  ∀ fd session : Nat, sock = fd → net.si.os fd = some session →
    ∃ name, net.eps[ep]? = some name ∧ net.peer session = some name

/-- What holds of what a thread has in hand. -/
def Fits (net : Net) : Hand → Prop
  | .empty => True
  | .reads ep => net.links.Minded ep
  | .holds ep sock => ∀ here ∈ ep, net.Aims here sock
  | .writes ep sock blk => (∀ here ∈ ep, net.Aims here sock) ∧ blk < net.si.nextBlk ∧
    ∀ fd ∈ net.si.fdOf blk, sock = (fd : Int)
  | .terms _ => False

/-- The receive thread is where `SIwait` is. -/
def Agrees (net : Net) : Prop :=
  match net.closing with
  | .callback blk => ∃ fd : Nat, net.links.disc.closing = some (fd : Int) ∧
    net.si.fdOf blk = some fd
  | .idle | .closed _ => net.links.disc = .idle

/-- What holds between any two steps of any threads. -/
structure Inv (net : Net) : Prop where
  links : net.links.Sound
  si : net.si.Sound net.closing.terming
  live : ∀ {fd : Nat}, net.links.live fd = true → net.si.os fd ≠ none
  inUse : ∀ {blk tpptr fd}, net.si.blks blk = some tpptr → tpptr.fd = some fd →
    tpptr.listener = false → blk ∉ net.closing.terming → net.links.live fd = true
  known : ∀ {pc : LinkPc} {ep}, pc ∈ net.links.senders → pc.about = some ep → ep < net.eps.length
  refers : ∀ {ep sock}, net.links.Refers ep sock → net.Aims ep sock
  minded : ∀ {ep}, .readSock ep false ∈ net.links.senders → net.links.Minded ep
  hands : ∀ hand ∈ net.hands, net.Fits hand
  agrees : net.Agrees
  unnamed : ∀ {session}, net.si.nextSession ≤ session → net.peer session = none
  routed : net.Routed

/-- What a number aims at stays while names and peers are kept, and the number gets no other
session. -/
theorem Aims.mono (aims : net.Aims ep sock)
    (os : ∀ fd session : Nat, sock = fd → next.si.os fd = some session →
      net.si.os fd = some session)
    (eps : ∀ name, net.eps[ep]? = some name → next.eps[ep]? = some name)
    (peer : ∀ session name, net.peer session = some name → next.peer session = some name) :
    next.Aims ep sock := by
  -- A session that has the number now had it before.
  intro fd session is owns
  obtain ⟨name, known, named⟩ := aims fd session is (os fd session is owns)
  exact ⟨name, eps name known, peer session name named⟩

/-- An endpoint that is minded has a number that aims at it. -/
theorem Inv.aims (inv : net.Inv) (minded : net.links.Minded ep) :
    net.Aims ep (net.links.nnSock ep) := by
  -- A negative number is that of no session; any other one is referred to.
  rcases minded with negative | refers
  · intro fd session is
    omega
  · exact inv.refers refers

/-- Nothing refers to a descriptor that is not open. -/
theorem Inv.refers_ne (inv : net.Inv) {fd : Nat} (free : net.si.os fd = none)
    (refers : net.links.Refers ep sock) : sock ≠ fd := by
  rintro rfl
  exact inv.live (inv.links.refers_live refers) free

/-- What a thread has in hand fits after a step that keeps endpoints minded, what numbers aim at,
and the descriptors of blocks, or takes them away. -/
theorem Fits.mono (fits : net.Fits hand)
    (minded : ∀ {ep}, net.links.Minded ep → next.links.Minded ep)
    (aims : ∀ {ep sock}, hand.sock = some sock → net.Aims ep sock → next.Aims ep sock)
    (nextBlk : net.si.nextBlk ≤ next.si.nextBlk)
    (fdOf : ∀ {blk fd}, blk < net.si.nextBlk → next.si.fdOf blk = some fd →
      net.si.fdOf blk = some fd) : next.Fits hand := by
  -- One case for each thing that a thread may have in hand.
  cases hand with
  | empty => trivial
  | reads ep => exact minded fits
  | holds ep sock => exact fun here is => aims rfl (fits here is)
  | writes ep sock blk =>
    obtain ⟨aimed, placed, found⟩ := fits
    exact ⟨fun here is => aims rfl (aimed here is), Nat.lt_of_lt_of_le placed nextBlk,
      fun fd has => found fd (fdOf placed has)⟩
  | terms blk => exact fits

/-- Nothing is connected, and no thread has anything in hand. -/
theorem init_inv (fd threads : Nat) (nnSock : Nat → Int) : (init fd threads nnSock).Inv where
  links := Links.sound_init threads nnSock
  si := Si.init_sound fd
  live is := by cases is
  inUse := by
    intro blk tpptr fd' there _ talks _
    -- The only block is the listener's.
    have only : Function.update (fun _ => none) 0
        (some { fd := some fd, listener := true, deleted := false, session := 0 }) blk =
          some tpptr := there
    rw [Function.update_apply] at only
    split at only
    · cases only
      cases talks
    · cases only
  known among about := by
    cases (List.mem_replicate.mp among).2
    cases about
  refers refers := by
    rcases refers with maps | ⟨at_, gated, -⟩ | tells
    · cases maps
    · cases (List.mem_replicate.mp (List.mem_of_getElem? at_)).2
      cases gated
    · cases tells
  minded among := by cases (List.mem_replicate.mp among).2
  hands := by
    intro hand among
    cases (List.mem_replicate.mp among).2
    trivial
  agrees := rfl
  unnamed _ := rfl
  routed := ⟨fun _ among => (List.not_mem_nil among).elim, fun _ among =>
    (List.not_mem_nil among).elim⟩

/-- A thread takes something else in hand. -/
theorem Inv.hold (inv : net.Inv) (thread : Nat) (fits : net.Fits hand) :
    (net.hold thread hand).Inv := by
  -- The hand that is new fits, and all others fit as before.
  refine { inv with hands := ?_, routed := ⟨inv.routed.written, inv.routed.closed⟩ }
  intro other among
  rcases List.mem_or_eq_of_mem_set among with old | rfl
  · exact inv.hands other old
  · exact fits

/-- An endpoint more refers to nothing. -/
theorem Inv.ensure (inv : net.Inv) (name : CStr) : (net.ensure name).Inv := by
  -- Endpoints keep their numbers, as the new one is put behind them.
  unfold Net.ensure
  split
  · exact inv
  · have eps : ∀ {ep : Nat} (found : CStr), net.eps[ep]? = some found →
        (net.eps ++ [name])[ep]? = some found := by
      intro ep found is
      rw [List.getElem?_append_left (List.getElem?_eq_some_iff.mp is).1]
      exact is
    refine { inv with known := ?_, refers := ?_, hands := ?_, routed := ⟨inv.routed.written,
      inv.routed.closed⟩ }
    · intro pc ep among about
      have known := inv.known among about
      rw [List.length_append]
      omega
    · intro ep sock refers
      exact (inv.refers refers).mono (fun _ _ _ owns => owns) eps fun _ _ named => named
    · intro hand among
      exact (inv.hands hand among).mono id
        (fun _ aims => aims.mono (fun _ _ _ owns => owns) eps fun _ _ named => named)
        (Nat.le_refl _) fun _ has => has

/-- Links that change while nothing new refers to a descriptor, and everything that is minded stays
so. -/
theorem Inv.relink (inv : net.Inv) {links : Links} (sound : links.Sound)
    (live : links.live = net.links.live) (disc : links.disc = net.links.disc)
    (known : ∀ {pc : LinkPc} {ep}, pc ∈ links.senders → pc.about = some ep → ep < net.eps.length)
    (refers : ∀ {ep sock}, links.Refers ep sock → net.links.Refers ep sock)
    (minded : ∀ {ep}, net.links.Minded ep → links.Minded ep)
    (reading : ∀ {ep}, .readSock ep false ∈ links.senders → net.links.Minded ep) :
    Net.Inv { net with links := links } where
  -- Sessions and the receive thread are the same; what the links are asked for is given.
  links := sound
  si := inv.si
  live is := by
    dsimp only at is
    rw [live] at is
    exact inv.live is
  inUse there has talks calm := by
    dsimp only
    rw [live]
    exact inv.inUse there has talks calm
  known := known
  refers is := inv.refers (refers is)
  minded among := minded (reading among)
  hands hand among := (inv.hands hand among).mono minded (fun _ aims => aims) (Nat.le_refl _)
    fun _ has => has
  agrees := by
    have agrees := inv.agrees
    unfold Agrees at agrees ⊢
    dsimp only
    rw [disc]
    exact agrees
  unnamed := inv.unnamed
  routed := ⟨inv.routed.written, inv.routed.closed⟩

/-- A thread that looks takes up an endpoint that is open, or one to link. -/
theorem Inv.look (inv : net.Inv) (thread ep : Nat) (adds : Bool) :
    (net.look thread ep adds).Inv := by
  -- The branches of the look: an endpoint that is open, one to be linked, a name without a port.
  unfold Net.look
  split
  · exact inv
  · rename_i name known
    split
    · rename_i free
      split
      · rename_i isOpen
        exact inv.hold thread (inv.links.minded_of_open isOpen)
      · rename_i shut
        have shut : net.links.isOpen ep = false := by simpa using shut
        split
        · have stepped : net.links.step (.begin_ thread ep adds) =
              net.links.goTo thread (.lock ep adds) := by
            simp only [Links.step]
            rw [if_pos ⟨free.1, shut⟩]
          rw [stepped]
          refine inv.relink (inv.links.begin_ free.1 shut) rfl rfl ?_ ?_ ?_ ?_
          · intro pc other among about
            rcases List.mem_or_eq_of_mem_set among with old | rfl
            · exact inv.known old about
            · cases about
              exact (List.getElem?_eq_some_iff.mp known).1
          · exact fun refers => Links.refers_of_goTo refers free.1 rfl rfl rfl rfl (.inl rfl)
          · exact fun minded => minded.imp id fun refers =>
              refers.goTo free.1 rfl rfl rfl rfl (.inl rfl)
          · intro other among
            rcases List.mem_or_eq_of_mem_set among with old | same
            · exact inv.minded old
            · cases same
        · exact inv
    · exact inv


/-- A thread goes on in `uta_link2`, without a new connection. -/
theorem Inv.sender (inv : net.Inv) {pc : LinkPc} (at_ : net.links.senders[thread]? = some pc) :
    Net.Inv { net with links := net.links.step (.sender thread none) } := by
  -- A step in `uta_link2` refers to no descriptor anew, and so keeps what others have in hand.
  have stepped : net.links.step (.sender thread none) = net.links.sender thread none pc := by
    simp only [Links.step, at_]
  rw [stepped]
  obtain ⟨live, disc⟩ := net.links.sender_frame thread pc
  refine inv.relink (inv.links.sender at_ none) live disc ?_ ?_ ?_ ?_
  · intro after ep among about
    rcases Links.about_sender among about with old | before
    · exact inv.known old about
    · exact inv.known (List.mem_of_getElem? at_) before
  · intro ep sock refers
    refine (inv.links.refers_sender at_ refers).resolve_right ?_
    rintro ⟨_, _, ⟨⟩⟩
  · exact inv.links.minded_sender at_ none
  · intro ep among
    rcases Links.readSock_sender among with old | rfl
    · exact inv.minded old
    · exact ((inv.links.here at_).linked ep rfl).minded

/-- A descriptor that is not open is not in use by any session. -/
theorem Inv.isFree (inv : net.Inv) {fd : Nat} (free : net.si.os fd = none) :
    net.links.isFree fd = true := by
  cases live : net.links.live fd with
  | true => exact absurd free (inv.live live)
  | false => simp [Links.isFree, live]

/-- The blocks that were there keep their descriptors when a session is opened. -/
theorem fdOf_open {blk fd fd' : Nat} (placed : blk < net.si.nextBlk)
    (has : (net.si.open_ fd).fdOf blk = some fd') : net.si.fdOf blk = some fd' := by
  unfold Si.fdOf at has ⊢
  rw [Si.open_blks_of_ne (Nat.ne_of_lt placed)] at has
  exact has

/-- What a thread has in hand still fits when a session is opened on a descriptor that none has. -/
theorem Inv.hands_open (inv : net.Inv) {fd : Nat} (unheld : net.Unheld fd) (next : Net)
    (minded : ∀ {ep}, net.links.Minded ep → next.links.Minded ep)
    (si : next.si = net.si.open_ fd) (hands : next.hands = net.hands) (eps : next.eps = net.eps)
    (peer : ∀ session name, net.peer session = some name → next.peer session = some name) :
    ∀ hand ∈ next.hands, next.Fits hand := by
  -- The new session is on a descriptor that nobody has in hand, and the other sessions stay.
  intro hand among
  rw [hands] at among
  refine (inv.hands hand among).mono minded ?_ ?_ ?_
  · intro ep sock holds aims
    refine aims.mono ?_ (fun name known => by rw [eps]; exact known) peer
    intro other session is owns
    rw [si, Si.open_os, Function.update_of_ne ?_] at owns
    · exact owns
    · rintro rfl
      exact unheld hand among (holds.trans (congrArg some is))
  · rw [si, Si.open_nextBlk]
    exact Nat.le_succ _
  · intro blk fd' placed has
    rw [si] at has
    exact fdOf_open placed has

/-- What refers to a descriptor aims as before when a session is opened on another one. -/
theorem Inv.aims_open (inv : net.Inv) {fd : Nat} (free : net.si.os fd = none)
    (refers : net.links.Refers ep sock) (next : Net) (si : next.si = net.si.open_ fd)
    (eps : next.eps = net.eps)
    (peer : ∀ session name, net.peer session = some name → next.peer session = some name) :
    next.Aims ep sock := by
  -- The descriptor that was free is not the one referred to.
  refine (inv.refers refers).mono ?_ (fun name known => by rw [eps]; exact known) peer
  intro other session is owns
  rw [si, Si.open_os, Function.update_of_ne ?_] at owns
  · exact owns
  · rintro rfl
    exact inv.refers_ne free refers is

/-- The receive thread is where it was when a session is opened. -/
theorem Inv.agrees_open (inv : net.Inv) {fd : Nat} (next : Net) (si : next.si = net.si.open_ fd)
    (closing : next.closing = net.closing) (disc : next.links.disc = net.links.disc) :
    next.Agrees := by
  -- Blocks keep their descriptors, the one that the receive thread is closing among them.
  have agrees := inv.agrees
  unfold Agrees at agrees ⊢
  rw [closing, disc, si]
  cases is : net.closing with rw [is] at agrees
  | callback blk =>
    obtain ⟨fd', busy, has⟩ := agrees
    obtain ⟨tpptr, there, has⟩ := Si.fdOf_eq_some.mp has
    exact ⟨fd', busy, Si.fdOf_eq_some.mpr ⟨tpptr, Si.open_old inv.si there, has⟩⟩
  | idle => exact agrees
  | closed blk => exact agrees

/-- The descriptors of blocks are in use when a session is opened. -/
theorem Inv.inUse_open (inv : net.Inv) {fd : Nat} {live : Int → Bool}
    (lives : live = Function.update net.links.live fd true) {blk : Nat} {tpptr : TpBlk} {fd' : Nat}
    (there : (net.si.open_ fd).blks blk = some tpptr) (has : tpptr.fd = some fd')
    (talks : tpptr.listener = false) (calm : blk ∉ net.closing.terming) : live fd' = true := by
  -- The block is the new one, whose descriptor is live now, or one from before.
  rw [lives, Function.update_apply]
  split
  · rfl
  · rename_i other
    rcases Si.open_blks there with ⟨_, rfl⟩ | ⟨_, before⟩
    · cases has
      exact absurd rfl other
    · exact inv.inUse before has talks calm

/-- What is in use is open when a session is opened. -/
theorem Inv.live_open (inv : net.Inv) {fd : Nat} {live : Int → Bool}
    (lives : live = Function.update net.links.live fd true) {fd' : Nat} (is : live fd' = true) :
    (net.si.open_ fd).os fd' ≠ none := by
  -- The descriptor is the one just opened, or was live, and so open, before.
  rw [Si.open_os, Function.update_apply]
  split
  · exact Option.some_ne_none _
  · rename_i other
    rw [lives, Function.update_of_ne (by omega)] at is
    exact inv.live is

/-- A name that a session has is kept when the next one gets one. -/
theorem Inv.named (inv : net.Inv) {name : Option CStr} (session : Nat) (known : CStr)
    (named : net.peer session = some known) :
    Function.update net.peer net.si.nextSession name session = some known := by
  -- The new session is the one that had no name before.
  rw [Function.update_of_ne ?_]
  · exact named
  · rintro rfl
    cases (inv.unnamed (Nat.le_refl _)).symm.trans named

/-- `SIconnect` gets a descriptor for an endpoint. -/
theorem Inv.connect (inv : net.Inv) {adds : Bool} {fd : Nat} (unheld : net.Unheld fd)
    (at_ : net.links.senders[thread]? = some (.connect ep adds)) (free : net.si.os fd = none) :
    Net.Inv { net with
      links := net.links.step (.sender thread (some fd))
      si := net.si.open_ fd
      peer := Function.update net.peer net.si.nextSession net.eps[ep]? } := by
  have isFree := inv.isFree free
  have stepped : net.links.step (.sender thread (some fd)) =
      net.links.sender thread (some fd) (.connect ep adds) := by
    simp only [Links.step, at_]
  have connected : net.links.sender thread (some fd) (.connect ep adds) =
      { net.links with live := Function.update net.links.live fd true }.goTo thread
        (.assign ep adds fd) := by
    simp only [Links.sender, Links.connect]
    rw [if_pos isFree]
  have minded : ∀ {other}, net.links.Minded other →
      (net.links.sender thread (some fd) (.connect ep adds)).Minded other :=
    inv.links.minded_sender at_ (some fd)
  rw [stepped]
  constructor
  · exact inv.links.sender at_ (some fd)
  · exact inv.si.open_ free
  · exact fun is => inv.live_open (congrArg Links.live connected) is
  · exact fun there has talks calm =>
      inv.inUse_open (congrArg Links.live connected) there has talks calm
  · intro pc other among about
    rcases Links.about_sender among about with old | before
    · exact inv.known old about
    · exact inv.known (List.mem_of_getElem? at_) before
  · intro other sock refers
    change (net.links.sender thread (some fd) (.connect ep adds)).Refers other sock at refers
    rcases inv.links.refers_sender at_ refers with before | ⟨_, ⟨⟩, ⟨⟩⟩
    · exact inv.aims_open free before _ rfl rfl inv.named
    · -- The new session has the name of the endpoint.
      have known := inv.known (List.mem_of_getElem? at_) rfl
      intro fd' session is owns
      cases Int.ofNat_inj.mp is
      dsimp only at owns ⊢
      rw [Si.open_os, Function.update_self] at owns
      cases owns
      rw [Function.update_self, List.getElem?_eq_getElem known]
      exact ⟨_, rfl, rfl⟩
  · intro other among
    rcases Links.readSock_sender among with old | is
    · exact minded (inv.minded old)
    · cases is
  · exact inv.hands_open unheld _ minded rfl rfl rfl inv.named
  · have disc : (net.links.sender thread (some fd) (.connect ep adds)).disc = net.links.disc := by
      rw [connected]
      rfl
    exact inv.agrees_open _ rfl rfl disc
  · intro session late
    have late : net.si.nextSession + 1 ≤ session := Si.open_nextSession ▸ late
    dsimp only
    rw [Function.update_of_ne (by omega)]
    exact inv.unnamed (by omega)
  · refine ⟨fun bytes among name is => ?_, inv.routed.closed⟩
    exact inv.named _ _ (inv.routed.written bytes among name is)

/-- A thread that links an endpoint has its descriptor in the end, whichever free one it was given.
-/
theorem Inv.link (inv : net.Inv) (thread : Nat) (fd : Option Nat)
    (unheld : ∀ new ∈ fd, net.Unheld new) : (net.link thread fd).Inv := by
  -- A connection is only made on a free descriptor; without one the sender goes on in `uta_link2`.
  unfold Net.link
  split
  · exact inv
  · rename_i ep adds at_
    split
    · exact inv.sender at_
    · rename_i new
      split
      · exact inv
      · rename_i free
        exact inv.connect (unheld new rfl) at_ (by simpa using free)
  · rename_i ep adds at_
    have minded : net.links.Minded ep := by
      cases adds with
      | true => exact ((inv.links.here at_).linked ep rfl).minded
      | false => exact inv.minded (List.mem_of_getElem? at_)
    refine (inv.sender at_).hold thread ?_
    rintro _ ⟨⟩
    exact inv.aims minded
  · rename_i pc _ _ at_
    exact inv.sender at_

/-- A descriptor that is copied aims at the endpoint, or at nothing by now. -/
theorem Inv.read (inv : net.Inv) (thread : Nat) : (net.read thread).Inv := by
  -- What is minded is referred to, and what is referred to aims at its endpoint.
  unfold Net.read
  split
  · rename_i ep has
    refine inv.hold thread ?_
    rintro _ ⟨⟩
    exact inv.aims (inv.hands _ (List.mem_of_getElem? has))
  · exact inv

/-- A thread that is through has nothing in hand. -/
theorem Inv.leave (inv : net.Inv) (thread : Nat) : (net.leave thread).Inv := by
  -- An empty hand fits whatever the links and sessions are.
  unfold Net.leave
  split
  · split
    · exact inv.hold thread trivial
    · exact inv
  · exact inv

/-- A thread that has a descriptor in hand calls `SIsendt`. -/
theorem Inv.call (inv : net.Inv) {ep : Option Nat} {poll : Poll}
    (has : .holds ep sock ∈ net.hands) (fine : poll = .exception → net.target sock = none) :
    (net.call thread ep sock poll).1.Inv := by
  -- The block is looked up here, and the write to it is a step of its own.
  unfold Net.call
  split
  · exact inv.hold thread trivial
  · rename_i blk fd found
    cases poll with
    | busy => exact inv
    | exception => cases found.symm.trans (fine rfl)
    | writable =>
      refine inv.hold thread ⟨inv.hands _ has, ?_⟩
      unfold target at found
      split at found
      · cases found
      · rename_i nonneg
        obtain ⟨rfl, tpptr, there, isFd, _⟩ := inv.si.target_eq found
        refine ⟨inv.si.placed there, fun fd' has' => ?_⟩
        cases (Si.fdOf_eq_some.mpr ⟨tpptr, there, isFd⟩).symm.trans has'
        omega

/-- A thread sends to the block that it found. -/
theorem Inv.send (inv : net.Inv) {ep : Option Nat} {blk : Nat} {ret : SendRet} {more : Bool}
    (has : .writes ep sock blk ∈ net.hands) : (net.send thread ep blk ret more).1.Inv := by
  unfold Net.send
  split
  · exact inv.hold thread trivial
  · rename_i session open_
    obtain ⟨fd, is, owns⟩ := Option.bind_eq_some_iff.mp open_
    obtain ⟨aims, -, found⟩ := inv.hands _ has
    cases ret with
    | failed errno => exact inv.hold thread trivial
    | taken count =>
      have sent : Net.Inv { net with
          written := net.written ++ [⟨ep.bind fun ep => net.eps[ep]?, session⟩] } := by
        refine { inv with routed := ⟨?_, inv.routed.closed⟩ }
        intro bytes among name for_
        rcases List.mem_append.mp among with before | new
        · exact inv.routed.written bytes before name for_
        · -- The block has the number that the thread has in hand, or none.
          cases List.mem_singleton.mp new
          obtain ⟨here, isHere, known⟩ := Option.bind_eq_some_iff.mp for_
          obtain ⟨name', known', named⟩ := aims here isHere fd session (found fd is) owns
          cases known.symm.trans known'
          exact named
      dsimp only
      split
      · exact sent
      · exact sent.hold thread trivial

/-- `SIsendt` writes to the session that the descriptor in hand is of. -/
theorem Inv.sendt (inv : net.Inv) {poll : Poll} {ret : SendRet} {more : Bool}
    (fine : net.Fine (.sendt thread poll ret more)) : (net.sendt thread poll ret more).1.Inv := by
  -- A hand with a descriptor makes the call; one that is at a block writes to it.
  unfold Net.sendt
  split
  · rename_i ep sock has
    split
    · refine inv.call (List.mem_of_getElem? has) ?_
      rintro rfl
      refine fine sock ?_
      rw [has]
      rfl
    · exact inv
  · rename_i ep sock blk has
    exact inv.send (List.mem_of_getElem? has)
  · rename_i blk has
    exact (inv.hands _ (List.mem_of_getElem? has)).elim
  · exact inv

/-- A session that is accepted gets a descriptor that nobody has in hand. -/
theorem Inv.newsession (inv : net.Inv) {fd : Nat} (unheld : net.Unheld fd) :
    (net.newsession fd).Inv := by
  -- The descriptor was free, so that it is no other session's, and no endpoint's.
  unfold Net.newsession
  split
  · exact inv
  · rename_i free
    have free : net.si.os fd = none := by
      by_contra other
      exact free (.inr other)
    have stepped : net.links.step (.accept fd) =
        { net.links with live := Function.update net.links.live fd true } := by
      simp only [Links.step]
      rw [if_pos (inv.isFree free)]
    have same : ∀ session name, net.peer session = some name → net.peer session = some name :=
      fun _ _ named => named
    rw [stepped]
    constructor
    · exact inv.links.accept fd
    · exact inv.si.open_ free
    · exact fun is => inv.live_open rfl is
    · exact fun there has talks calm => inv.inUse_open rfl there has talks calm
    · exact inv.known
    · exact fun refers => inv.aims_open free (refers.same rfl rfl rfl rfl) _ rfl rfl same
    · exact fun among => (inv.minded among).same rfl rfl rfl rfl
    · exact inv.hands_open unheld _ (fun minded => minded.same rfl rfl rfl rfl) rfl rfl rfl same
    · exact inv.agrees_open _ rfl rfl rfl
    · intro session late
      have late : net.si.nextSession + 1 ≤ session := Si.open_nextSession ▸ late
      exact inv.unnamed (by omega)
    · exact ⟨inv.routed.written, inv.routed.closed⟩

/-- A session that is lost is one whose endpoint nobody is about to link. -/
theorem Inv.disc (inv : net.Inv) {blk : Nat} (fine : net.Fine (.disc blk)) :
    (net.disc blk).Inv := by
  unfold Net.disc
  split
  · exact inv
  · rename_i tpptr there
    split
    · exact inv
    · rename_i ready
      split
      · exact inv
      · rename_i fd has
        simp only [not_or, not_not, Bool.not_eq_true] at ready
        obtain ⟨idle, -, talks⟩ := ready
        have agrees := inv.agrees
        have live := inv.inUse there has talks (by rw [idle]; exact List.not_mem_nil)
        have fdOf := Si.fdOf_eq_some.mpr ⟨tpptr, there, has⟩
        unfold Agrees at agrees
        rw [idle] at agrees
        -- The receive thread has nobody to tell yet.
        have telling : (net.links.lost fd).telling = net.links.disc.telling := by
          rw [Links.lost_telling, agrees]
          rfl
        have minded : ∀ {ep}, net.links.Minded ep →
            Links.Minded { net.links with disc := net.links.lost fd } ep :=
          fun minded => minded.same rfl rfl rfl telling
        constructor
        · exact inv.links.gone live agrees (fine fd fdOf)
        · have si := inv.si
          rw [idle] at si
          exact si
        · exact inv.live
        · exact fun there has talks _ => inv.inUse there has talks (by
            rw [idle]
            exact List.not_mem_nil)
        · exact inv.known
        · exact fun refers => inv.refers (refers.same rfl rfl rfl telling.symm)
        · exact fun among => minded (inv.minded among)
        · exact fun hand among => (inv.hands hand among).mono minded (fun _ aims => aims)
            (Nat.le_refl _) fun _ has => has
        · refine ⟨fd, ?_, fdOf⟩
          dsimp only
          unfold Links.lost
          split
          · rfl
          · rfl
        · exact inv.unnamed
        · exact ⟨inv.routed.written, inv.routed.closed⟩

/-- `mt_disc_cb` goes on. -/
theorem Inv.receiver (inv : net.Inv) (more : ∀ fd, net.links.disc ≠ .term fd) :
    Net.Inv { net with links := net.links.receiver } := by
  -- The callback is in its midst: sessions and blocks are the same, and links are as they say.
  have senders := net.links.receiver_senders
  have live := Links.receiver_live more
  constructor
  · exact inv.links.receiver
  · exact inv.si
  · intro fd is
    dsimp only at is
    rw [live] at is
    exact inv.live is
  · intro blk tpptr fd there has talks calm
    dsimp only
    rw [live]
    exact inv.inUse there has talks calm
  · intro pc ep among
    dsimp only at among
    rw [senders] at among
    exact inv.known among
  · exact fun refers => inv.refers (inv.links.refers_receiver refers)
  · intro ep among
    dsimp only at among
    rw [senders] at among
    exact inv.links.minded_receiver (inv.minded among)
  · exact fun hand among => (inv.hands hand among).mono inv.links.minded_receiver
      (fun _ aims => aims) (Nat.le_refl _) fun _ has => has
  · have agrees := inv.agrees
    unfold Agrees at agrees ⊢
    cases is : net.closing with rw [is] at agrees
    | callback blk =>
      obtain ⟨fd, busy, has⟩ := agrees
      exact ⟨fd, Links.receiver_closing busy more, has⟩
    | idle =>
      unfold Links.receiver
      rw [agrees]
      exact agrees
    | closed blk =>
      unfold Links.receiver
      rw [agrees]
      exact agrees
  · exact inv.unnamed
  · exact ⟨inv.routed.written, inv.routed.closed⟩

/-- `SIterm` closes the descriptor of a session whose endpoint was told. -/
theorem Inv.shut (inv : net.Inv) {blk fd : Nat} (closing : net.closing = .callback blk)
    (told : net.links.disc = .term fd) (has : net.si.fdOf blk = some fd) :
    Net.Inv { { net with links := { net.links with disc := .idle } }.close blk fd with
      closing := .closed blk } := by
  have calm : blk ∉ net.closing.terming := by
    rw [closing]
    exact List.not_mem_nil
  obtain ⟨tpptr, there, isFd⟩ := Si.fdOf_eq_some.mp has
  have telling : DiscPc.idle.telling = net.links.disc.telling := by
    rw [told]
    rfl
  have si : (net.si.shut fd).Sound [blk] := by
    have shut := inv.si.shut there isFd calm
    rw [closing] at shut
    exact shut
  -- What aims at an endpoint does so with one descriptor less.
  have aims : ∀ {ep sock}, net.Aims ep sock → Net.Aims
      { { net with links := { net.links with disc := .idle } }.close blk fd with
        closing := .closed blk } ep sock := by
    intro ep sock aims
    refine aims.mono ?_ (fun _ known => known) fun _ _ named => named
    intro other session _ owns
    change Function.update net.si.os fd none other = _ at owns
    rw [Function.update_apply] at owns
    split at owns
    · cases owns
    · exact owns
  have minded : ∀ {ep}, net.links.Minded ep → Links.Minded { net.links with
      live := Function.update net.links.live fd false
      disc := .idle } ep :=
    fun minded => minded.same rfl rfl rfl telling
  constructor
  · exact inv.links.term told
  · exact si
  · intro other is
    change Function.update net.links.live (fd : Int) false other = true at is
    change Function.update net.si.os fd none other ≠ none
    by_cases same : other = fd
    · rw [same, Function.update_self] at is
      cases is
    · rw [Function.update_of_ne (by omega)] at is
      rw [Function.update_of_ne same]
      exact inv.live is
  · intro other tpptr' fd' there' has' talks calm'
    have differs : other ≠ blk := fun same => calm' (List.mem_singleton.mpr same)
    have calmed : other ∉ net.closing.terming := by
      rw [closing]
      exact List.not_mem_nil
    have apart := inv.si.fd_ne differs there isFd calm there' has' calmed
    exact (Function.update_of_ne (by omega) _ _).trans (inv.inUse there' has' talks calmed)
  · exact inv.known
  · exact fun refers => aims (inv.refers (refers.same rfl rfl rfl telling.symm))
  · exact fun among => minded (inv.minded among)
  · exact fun hand among => (inv.hands hand among).mono minded (fun _ => aims) (Nat.le_refl _)
      fun _ has => has
  · rfl
  · exact inv.unnamed
  · refine ⟨inv.routed.written, fun closed among => ?_⟩
    rcases List.mem_append.mp among with before | new
    · exact inv.routed.closed closed before
    · -- What is closed is the block's own.
      dsimp only at new
      rw [there] at new
      cases List.mem_singleton.mp new
      exact inv.si.owned there isFd calm

/-- `SIterm` is through with a block. -/
theorem Inv.mark (inv : net.Inv) {blk : Nat} (closing : net.closing = .closed blk) :
    Net.Inv { net with si := net.si.mark blk, closing := .idle } := by
  -- The block gives up its descriptor; what aimed at the session of that aims at nothing.
  have agrees := inv.agrees
  unfold Agrees at agrees
  rw [closing] at agrees
  have si : (net.si.mark blk).Sound [] := by
    have marked := inv.si.mark blk
    rw [closing] at marked
    simpa [Closing.terming] using marked
  have os := net.si.mark_os blk
  have aims : ∀ {ep sock}, net.Aims ep sock →
      Net.Aims { net with si := net.si.mark blk, closing := .idle } ep sock := by
    intro ep sock aims
    refine aims.mono ?_ (fun _ known => known) fun _ _ named => named
    intro other session _ owns
    dsimp only at owns
    rw [os] at owns
    exact owns
  constructor
  · exact inv.links
  · exact si
  · intro fd is
    dsimp only
    rw [os]
    exact inv.live is
  · intro other tpptr fd there has talks _
    obtain ⟨differs, before⟩ := Si.mark_fd there has
    refine inv.inUse before has talks ?_
    rw [closing]
    exact fun among => differs (List.mem_singleton.mp among)
  · exact inv.known
  · exact fun refers => aims (inv.refers refers)
  · exact inv.minded
  · refine fun hand among => (inv.hands hand among).mono id (fun _ => aims) ?_ ?_
    · exact Nat.le_of_eq (Si.mark_nextBlk net.si blk).symm
    · intro other fd _ has
      obtain ⟨tpptr, there, has⟩ := Si.fdOf_eq_some.mp has
      exact Si.fdOf_eq_some.mpr ⟨tpptr, (Si.mark_fd there has).2, has⟩
  · exact agrees
  · intro session late
    dsimp only at late
    rw [Si.mark_nextSession] at late
    exact inv.unnamed late
  · exact ⟨inv.routed.written, inv.routed.closed⟩

/-- `SIwait` closes the descriptor of the block that it is at. -/
theorem Inv.wait (inv : net.Inv) : net.wait.Inv := by
  -- The places of `SIwait`: idle, in the callback, at its close, and behind it.
  unfold Net.wait
  split
  · exact inv
  · rename_i blk closing
    have agrees := inv.agrees
    unfold Agrees at agrees
    rw [closing] at agrees
    obtain ⟨fd, busy, has⟩ := agrees
    split
    · rename_i other told
      rw [told] at busy
      cases busy
      dsimp only
      rw [has]
      exact inv.shut closing told has
    · rename_i more
      exact inv.receiver more
  · rename_i blk closing
    exact inv.mark closing

/-- A block that is removed has no descriptor any more. -/
theorem Inv.remove (inv : net.Inv) (blk : Nat) (idle : net.closing = .idle) :
    Net.Inv { net with si := net.si.remove blk } := by
  -- A block without a descriptor is in no hand that still writes to a session.
  rcases inv.si.remove_cases blk with same | ⟨tpptr, there, gone, _, removed⟩
  · rw [same]
    exact inv
  · have old : ∀ {other tpptr'}, (net.si.remove blk).blks other = some tpptr' →
        net.si.blks other = some tpptr' := by
      intro other tpptr' is
      rw [removed] at is
      dsimp only at is
      rw [Function.update_apply] at is
      split at is
      · cases is
      · exact is
    have aims : ∀ {ep sock}, net.Aims ep sock →
        Net.Aims { net with si := net.si.remove blk } ep sock := by
      intro ep sock aims
      refine aims.mono ?_ (fun _ known => known) fun _ _ named => named
      intro other session _ owns
      dsimp only at owns
      rw [removed] at owns
      exact owns
    constructor
    · exact inv.links
    · exact inv.si.remove blk
    · intro fd is
      dsimp only
      rw [removed]
      exact inv.live is
    · exact fun there => inv.inUse (old there)
    · exact inv.known
    · exact fun refers => aims (inv.refers refers)
    · exact inv.minded
    · refine fun hand among => (inv.hands hand among).mono id (fun _ => aims) ?_ ?_
      · rw [removed]
      · intro other fd _ has
        obtain ⟨tpptr', there', has⟩ := Si.fdOf_eq_some.mp has
        exact Si.fdOf_eq_some.mpr ⟨tpptr', old there', has⟩
    · have agrees := inv.agrees
      unfold Agrees at agrees ⊢
      dsimp only
      rw [idle] at agrees ⊢
      exact agrees
    · intro session late
      dsimp only at late
      rw [removed] at late
      exact inv.unnamed late
    · exact ⟨inv.routed.written, inv.routed.closed⟩

/-- Each event keeps the invariant, if nothing goes wrong with a descriptor there. -/
theorem Inv.step (inv : net.Inv) {event : NetEvent} (fine : net.Fine event) :
    (net.step event).Inv := by
  -- One case for each event, each with its lemma.
  cases event with
  | ensure name => exact inv.ensure name
  | look thread ep adds => exact inv.look thread ep adds
  | link thread fd =>
    refine inv.link thread fd ?_
    rintro new rfl
    exact fine
  | read thread => exact inv.read thread
  | take thread sock =>
    simp only [Net.step]
    split
    · exact inv.hold thread (by rintro _ ⟨⟩)
    · exact inv
  | sendt thread poll ret more => exact inv.sendt fine
  | leave thread => exact inv.leave thread
  | accept fd => exact inv.newsession fine
  | disc blk => exact inv.disc fine
  | wait => exact inv.wait
  | remove blk =>
    simp only [Net.step]
    split
    · rename_i idle
      exact inv.remove blk idle
    · exact inv

instance decidableFine (net : Net) : (event : NetEvent) → Decidable (net.Fine event)
  | .sendt thread .exception _ _ =>
    inferInstanceAs (Decidable
      (∀ sock ∈ (net.hands[thread]?.bind Hand.sock), net.target sock = none))
  | .disc blk =>
    inferInstanceAs (Decidable (∀ fd ∈ net.si.fdOf blk, net.links.Calm (.disc fd)))
  | .link _ (some fd) => inferInstanceAs (Decidable (net.Unheld fd))
  | .accept fd => inferInstanceAs (Decidable (net.Unheld fd))
  | .sendt _ .busy _ _ | .sendt _ .writable _ _ | .link _ none | .ensure _ | .look _ _ _ | .read _
  | .take _ _ | .leave _ | .wait | .remove _ => isTrue trivial

/-- A thread connects an endpoint and has its descriptor in hand. -/
def connects (thread ep fd : Nat) : List NetEvent :=
  [.look thread ep true, .link thread none, .link thread none, .link thread (some fd)] ++
    List.replicate 7 (.link thread none)

/-- A thread sends on the descriptor that it has in hand. -/
def sends (thread : Nat) : List NetEvent :=
    List.replicate 2 (.sendt thread .writable (.taken 1) false)

/-- The receive thread closes the session of a block, and tells its endpoint. -/
def loses (blk : Nat) : List NetEvent := .disc blk :: List.replicate 7 .wait

/-- The name and the session's peer of what was written. -/
def deliveries (net : Net) : List (Option CStr × Option CStr) :=
  net.written.map fun bytes => (bytes.name, net.peer bytes.session)

/-- What is written for a name and delivered to another one is not routed. -/
theorem Routed.delivers (routed : net.Routed) {name : CStr} {peer : Option CStr}
    (among : (some name, peer) ∈ net.deliveries) : peer = some name := by
  -- A delivery is something written, with the name that it was meant for.
  obtain ⟨bytes, written, is⟩ := List.mem_map.mp among
  obtain ⟨for_, rfl⟩ := Prod.mk.inj is
  exact routed.written bytes written name for_

/-- Two endpoints. -/
def two : List NetEvent := [.ensure ['a', ':', '1'], .ensure ['b', ':', '1']]

/-- An endpoint whose session the receiver closes, and another one that gets its descriptor while
the first one is connected again. -/
def reused : List NetEvent :=
  two ++ connects 0 0 5 ++ sends 0 ++ loses 1 ++ connects 1 1 5 ++ connects 0 0 6 ++ sends 0 ++
    sends 1 ++ [.accept 7]

/-- A send finds an exception on the session of one endpoint, whose descriptor another endpoint then
gets; the first endpoint still has it. -/
def excepted : List NetEvent :=
  two ++ connects 0 0 5 ++ List.replicate 2 (.sendt 0 .exception (.taken 1) false) ++
    connects 1 1 5 ++ [.look 0 0 true, .read 0] ++ sends 0

/-- A thread has the descriptor of one endpoint in hand and finds its session blocked; before it
tries again the session is closed, its endpoint is told, and another endpoint gets the descriptor.
-/
def stale : List NetEvent :=
  two ++ connects 0 0 5 ++ [.sendt 0 .busy (.taken 1) false] ++ loses 1 ++ connects 1 1 5 ++ sends 0

/-- A session is lost before the thread that connected it has put its descriptor into the endpoint.
-/
def early : List NetEvent :=
  two ++ (connects 0 0 5).take 4 ++ loses 1 ++ List.replicate 7 (.link 0 none) ++ [.leave 0] ++
    connects 1 1 5 ++ [.look 0 0 true, .read 0] ++ sends 0

end Net

end Rmr
