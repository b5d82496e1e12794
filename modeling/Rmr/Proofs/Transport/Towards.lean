import Rmr.Proofs.Transport.Link

/-! What a thread that sends is up to, and what becomes of sessions while it is. -/

namespace Rmr

/-- What a thread sends to: an endpoint, or whoever a descriptor that it was given is of. -/
inductive Dest where
  | endpoint (ep : Nat)
  | descriptor (sock : Int)

/-- The endpoint that a sender is at. -/
def LinkPc.dest : LinkPc → Option Dest
  | .idle => none
  | .lock ep _ | .check ep _ | .connect ep _ | .assign ep _ _ | .setOpen ep _ | .add ep _
  | .unlock ep _ | .giveUp ep | .openAgain ep _ | .readSock ep _ | .addAgain ep =>
    some (.endpoint ep)

/-- What a thread sends to that has something in hand. -/
def Hand.dest : Hand → Option Dest
  | .reads ep | .holds (some ep) _ | .writes (some ep) _ _ => some (.endpoint ep)
  | .holds none sock | .writes none sock _ => some (.descriptor sock)
  | .empty | .terms _ => none

/-- Past `select` a thread sends where it did before. -/
theorem Hand.dest_writes (ep : Option Nat) (sock : Int) (blk : Nat) :
    (Hand.writes ep sock blk).dest = (Hand.holds ep sock).dest := by
  cases ep with
  | none => rfl
  | some ep => rfl

/-- A descriptor that a thread was given it has in hand. -/
theorem Hand.sock_of_dest {hand : Hand} {sock : Int} (dest : hand.dest = some (.descriptor sock)) :
    hand.sock = some sock := by
  -- One case for each thing that a thread may have in hand.
  cases hand with
  | holds ep other =>
    cases ep with
    | none =>
      cases dest
      rfl
    | some ep => cases dest
  | writes ep other blk =>
    cases ep with
    | none =>
      cases dest
      rfl
    | some ep => cases dest
  | empty | reads ep | terms blk => cases dest

/-- A sender's step leads to the same endpoint, or to none. -/
theorem Links.dest_sender {links : Links} {thread other : Nat} {pc after : LinkPc} {fd : Option Int}
    (is : (links.sender thread fd pc).senders[other]? = some after) :
    links.senders[other]? = some after ∨
      other = thread ∧ (after.dest = none ∨ after.dest = pc.dest) := by
  -- One case for each place of the sender: it goes on with its endpoint, or is through.
  have moved : ∀ {nextPc : LinkPc}, (links.senders.set thread nextPc)[other]? = some after →
      (nextPc.dest = none ∨ nextPc.dest = pc.dest) →
      links.senders[other]? = some after ∨
        other = thread ∧ (after.dest = none ∨ after.dest = pc.dest) := by
    intro nextPc is leads
    rcases Links.goTo_senders is with ⟨same, rfl⟩ | ⟨-, before⟩
    · exact .inr ⟨same, leads⟩
    · exact .inl before
  cases pc with
  | idle => exact .inl is
  | lock here adds =>
    simp only [Links.sender] at is
    split at is
    · exact moved is (.inr rfl)
    · exact .inl is
  | check here adds =>
    refine moved is (.inr ?_)
    split
    · rfl
    · rfl
  | connect here adds =>
    cases fd with
    | none => exact moved is (.inr rfl)
    | some new =>
      simp only [Links.sender, connect] at is
      split at is
      · exact moved is (.inr rfl)
      · exact .inl is
  | readSock here adds =>
    refine moved is ?_
    split
    · exact .inr rfl
    · exact .inl rfl
  | giveUp here => exact moved is (.inl rfl)
  | addAgain here => exact moved is (.inl rfl)
  | assign here adds new => exact moved is (.inr rfl)
  | setOpen here adds => exact moved is (.inr rfl)
  | add here adds => exact moved is (.inr rfl)
  | unlock here adds => exact moved is (.inr rfl)
  | openAgain here adds => exact moved is (.inr rfl)

namespace Net

variable {net next : Net} {thread other : Nat} {sock : Int} {hand : Hand} {dest : Dest}

/-- A thread sends somewhere, or is about to. -/
def Towards (net : Net) (thread : Nat) (dest : Dest) : Prop :=
  (∃ pc, net.links.senders[thread]? = some pc ∧ pc.dest = some dest) ∨
    ∃ hand, net.hands[thread]? = some hand ∧ hand.dest = some dest

/-- What a thread has in hand when one takes something in hand. -/
theorem hold_hands {had : Hand} (is : (net.hands.set thread hand)[other]? = some had) :
    (other = thread ∧ had = hand) ∨ net.hands[other]? = some had := by
  rw [List.getElem?_set] at is
  grind

/-- What becomes of sessions: all but some descriptors still belong to the sessions that they did,
no other is given out than one that nobody has in hand, and names are kept. -/
structure Grows (net next : Net) (closed : Nat → Prop) : Prop where
  os : ∀ {fd session}, net.si.os fd = some session → ¬ closed fd → next.si.os fd = some session
  back : ∀ {fd session}, next.si.os fd = some session →
    net.si.os fd = some session ∨ net.Unheld fd
  named : ∀ {session name}, net.peer session = some name → next.peer session = some name
  known : ∀ {ep : Nat} {name}, net.eps[ep]? = some name → next.eps[ep]? = some name

/-- Nothing becomes of them where they are the same. -/
theorem Grows.of_same {closed : Nat → Prop} (os : next.si.os = net.si.os)
    (peer : next.peer = net.peer) (eps : next.eps = net.eps) : net.Grows next closed where
  -- Sessions, names and endpoints are the same.
  os is _ := by
    rw [os]
    exact is
  back is := by
    rw [os] at is
    exact .inl is
  named is := by
    rw [peer]
    exact is
  known is := by
    rw [eps]
    exact is

/-- A session is opened on a descriptor that nobody has in hand. -/
theorem Grows.of_open {closed : Nat → Prop} {fd : Nat} (free : net.si.os fd = none)
    (unheld : net.Unheld fd) (si : next.si = net.si.open_ fd)
    (named : ∀ session name, net.peer session = some name → next.peer session = some name)
    (eps : next.eps = net.eps) : net.Grows next closed where
  -- The descriptor was free, so that every session is where it was.
  os {other session} is _ := by
    have apart : other ≠ fd := by
      rintro rfl
      cases free.symm.trans is
    rw [si, Si.open_os, Function.update_of_ne apart]
    exact is
  back {other session} is := by
    rw [si, Si.open_os, Function.update_apply] at is
    split at is
    · rename_i same
      exact .inr (same ▸ unheld)
    · exact .inl is
  named is := named _ _ is
  known is := by
    rw [eps]
    exact is

/-- The descriptor that an event closes. -/
def Closes (net : Net) (fd : Nat) : NetEvent → Prop
  | .wait => net.links.disc = .term (fd : Int)
  | _ => False

/-- An endpoint more closes no session. -/
theorem ensure_grows {closed : Nat → Prop} (net : Net) (name : CStr) :
    net.Grows (net.ensure name) closed := by
  unfold Net.ensure
  split
  · exact .of_same rfl rfl rfl
  · refine ⟨fun is _ => is, .inl, id, fun known => ?_⟩
    exact (List.getElem?_append_left (List.getElem?_eq_some_iff.mp known).1).trans known

/-- Looking at an endpoint closes none. -/
theorem look_grows {closed : Nat → Prop} (net : Net) (thread ep : Nat) (adds : Bool) :
    net.Grows (net.look thread ep adds) closed := by
  -- Every branch of the look changes places and hands only.
  unfold Net.look
  split
  · exact .of_same rfl rfl rfl
  · split
    · split
      · exact .of_same rfl rfl rfl
      · split
        · exact .of_same rfl rfl rfl
        · exact .of_same rfl rfl rfl
    · exact .of_same rfl rfl rfl

/-- Linking one may open a session, and closes none. -/
theorem Inv.link_grows {closed : Nat → Prop} (inv : net.Inv) (thread : Nat) (fd : Option Nat)
    (unheld : ∀ new ∈ fd, net.Unheld new) : net.Grows (net.link thread fd) closed := by
  -- Only a connection opens a session, and on a descriptor that nobody has in hand.
  unfold Net.link
  split
  · exact .of_same rfl rfl rfl
  · split
    · exact .of_same rfl rfl rfl
    · rename_i new
      split
      · exact .of_same rfl rfl rfl
      · rename_i free
        exact .of_open (by simpa using free) (unheld new rfl) rfl inv.named rfl
  · exact .of_same rfl rfl rfl
  · exact .of_same rfl rfl rfl

/-- Neither does sending, if `select` finds no exception. -/
theorem Inv.sendt_grows {closed : Nat → Prop} (inv : net.Inv) {poll : Poll} {ret : SendRet}
    {more : Bool} (fine : net.Fine (.sendt thread poll ret more)) :
    net.Grows (net.sendt thread poll ret more).1 closed := by
  -- What is written changes no session; `SIsendt` closes one only after an exception.
  unfold Net.sendt
  split
  · rename_i ep sock has
    split
    · unfold Net.call
      split
      · exact .of_same rfl rfl rfl
      · rename_i found
        cases poll with
        | busy => exact .of_same rfl rfl rfl
        | writable => exact .of_same rfl rfl rfl
        | exception =>
          have none_ : net.target sock = none := fine sock (by rw [has]; rfl)
          cases found.symm.trans none_
    · exact .of_same rfl rfl rfl
  · unfold Net.send
    split
    · exact .of_same rfl rfl rfl
    · cases ret with
      | failed errno => exact .of_same rfl rfl rfl
      | taken count =>
        dsimp only
        split
        · exact .of_same rfl rfl rfl
        · exact .of_same rfl rfl rfl
  · rename_i has
    exact (inv.hands _ (List.mem_of_getElem? has)).elim
  · exact .of_same rfl rfl rfl

/-- `SIwait` closes the session that it is about to close. -/
theorem Inv.wait_grows (inv : net.Inv) : net.Grows net.wait fun fd => net.Closes fd .wait := by
  -- The one branch that closes a descriptor is the one behind the callback.
  unfold Net.wait
  split
  · exact .of_same rfl rfl rfl
  · rename_i blk closing
    have agrees := inv.agrees
    unfold Agrees at agrees
    rw [closing] at agrees
    obtain ⟨fd, busy, has⟩ := agrees
    split
    · rename_i other told
      rw [told] at busy
      cases busy
      dsimp only
      rw [has]
      refine ⟨?_, ?_, id, id⟩
      · intro other session is spared
        have apart : other ≠ fd := by
          rintro rfl
          exact spared told
        exact (Function.update_of_ne apart _ _).trans is
      · intro other session is
        change Function.update net.si.os fd none other = _ at is
        rw [Function.update_apply] at is
        split at is
        · cases is
        · exact .inl is
    · exact .of_same rfl rfl rfl
  · exact .of_same (Si.mark_os _ _) rfl rfl

/-- What becomes of sessions in an event. -/
theorem Inv.step_grows (inv : net.Inv) {event : NetEvent} (fine : net.Fine event) :
    net.Grows (net.step event) fun fd => net.Closes fd event := by
  -- One case for each event; two of them open a session, and one closes one.
  cases event with
  | ensure name => exact net.ensure_grows name
  | look thread ep adds => exact net.look_grows thread ep adds
  | link thread fd =>
    refine inv.link_grows thread fd ?_
    rintro new rfl
    exact fine
  | read thread =>
    simp only [Net.step, Net.read]
    split
    · exact .of_same rfl rfl rfl
    · exact .of_same rfl rfl rfl
  | take thread sock =>
    simp only [Net.step]
    split
    · exact .of_same rfl rfl rfl
    · exact .of_same rfl rfl rfl
  | sendt thread poll ret more => exact inv.sendt_grows fine
  | leave thread =>
    simp only [Net.step, Net.leave]
    split
    · split
      · exact .of_same rfl rfl rfl
      · exact .of_same rfl rfl rfl
    · exact .of_same rfl rfl rfl
  | accept fd =>
    simp only [Net.step, Net.newsession]
    split
    · exact .of_same rfl rfl rfl
    · rename_i free
      have free : net.si.os fd = none := by
        by_contra other
        exact free (.inr other)
      exact .of_open free fine rfl (fun _ _ named => named) rfl
  | disc blk =>
    simp only [Net.step, Net.disc]
    split
    · exact .of_same rfl rfl rfl
    · split
      · exact .of_same rfl rfl rfl
      · split
        · exact .of_same rfl rfl rfl
        · exact .of_same rfl rfl rfl
  | wait => exact inv.wait_grows
  | remove blk =>
    simp only [Net.step]
    split
    · refine .of_same ?_ rfl rfl
      obtain same | ⟨tpptr, -, -, -, removed⟩ := inv.si.remove_cases blk
      · dsimp only
        rw [same]
      · dsimp only
        rw [removed]
    · exact .of_same rfl rfl rfl

/-- What a thread is up to after it, or another one, took something in hand. -/
theorem Towards.of_hold (towards : (net.hold other hand).Towards thread dest) :
    net.Towards thread dest ∨ thread = other ∧ hand.dest = some dest := by
  -- A thread is up to what it was, unless it is the one that took something.
  rcases towards with sends | ⟨had, has, is⟩
  · exact .inl (.inl sends)
  · rcases hold_hands has with ⟨same, rfl⟩ | before
    · exact .inr ⟨same, is⟩
    · exact .inl (.inr ⟨had, before, is⟩)

/-- Where senders and hands are the same, threads are up to the same. -/
theorem Towards.same (towards : next.Towards thread dest)
    (senders : next.links.senders = net.links.senders) (hands : next.hands = net.hands) :
    net.Towards thread dest := by
  unfold Towards at towards ⊢
  rw [senders, hands] at towards
  exact towards

/-- A thread's step in `uta_link2` leads no thread to another endpoint. -/
theorem towards_sender {fd : Option Int} {pc : LinkPc}
    (at_ : net.links.senders[other]? = some pc)
    (towards : Net.Towards { net with links := net.links.step (.sender other fd) } thread dest) :
    net.Towards thread dest := by
  -- The thread is the one that moved, which goes on with its endpoint, or another one.
  rcases towards with ⟨after, is, leads⟩ | holds
  · have stepped : net.links.step (.sender other fd) = net.links.sender other fd pc := by
      simp only [Links.step, at_]
    dsimp only at is
    rw [stepped] at is
    rcases Links.dest_sender is with before | ⟨rfl, gone | same⟩
    · exact .inl ⟨after, before, leads⟩
    · cases gone.symm.trans leads
    · exact .inl ⟨pc, at_, same ▸ leads⟩
  · exact .inr holds

/-- A thread that looks sends to the endpoint that it looks at, and the others to where they did. -/
theorem towards_look {here : Nat} {adds : Bool}
    (towards : (net.look other here adds).Towards thread dest) :
    net.Towards thread dest ∨
      thread = other ∧ dest = .endpoint here ∧ here < net.eps.length := by
  -- A thread that is free takes up the endpoint that it looks at; any other look does nothing.
  unfold Net.look at towards
  split at towards
  · exact .inl towards
  · rename_i known
    have known := (List.getElem?_eq_some_iff.mp known).1
    split at towards
    · rename_i free
      split at towards
      · exact towards.of_hold.imp id fun both =>
          ⟨both.1, (Option.some.inj both.2).symm, known⟩
      · rename_i shut
        have shut : net.links.isOpen here = false := by simpa using shut
        split at towards
        · have stepped : net.links.step (.begin_ other here adds) =
              net.links.goTo other (.lock here adds) := by
            simp only [Links.step]
            rw [if_pos ⟨free.1, shut⟩]
          rw [stepped] at towards
          rcases towards with ⟨after, is, leads⟩ | holds
          · rcases Links.goTo_senders is with ⟨same, rfl⟩ | ⟨-, before⟩
            · exact .inr ⟨same, (Option.some.inj leads).symm, known⟩
            · exact .inl (.inl ⟨after, before, leads⟩)
          · exact .inl (.inr holds)
        · exact .inl towards
    · exact .inl towards

/-- Whoever links goes on to where it was on its way. -/
theorem towards_link {fd : Option Nat} (towards : (net.link other fd).Towards thread dest) :
    net.Towards thread dest := by
  -- A thread on its way keeps its endpoint, whether it is through or not.
  unfold Net.link at towards
  split at towards
  · exact towards
  · rename_i at_
    split at towards
    · exact towards_sender at_ towards
    · split at towards
      · exact towards
      · rename_i new _
        have linked : Net.Towards
            { net with links := net.links.step (.sender other (some (new : Int))) } thread dest :=
          towards.same rfl rfl
        exact towards_sender at_ linked
  · rename_i here adds at_
    rcases towards.of_hold with before | ⟨rfl, is⟩
    · exact towards_sender at_ before
    · exact .inl ⟨_, at_, is⟩
  · rename_i at_
    exact towards_sender at_ towards

/-- Whoever sends does so to where it did before. -/
theorem towards_sendt {poll : Poll} {ret : SendRet} {more : Bool}
    (towards : (net.sendt other poll ret more).1.Towards thread dest) :
      net.Towards thread dest := by
  -- A thread goes on with what it has in hand.
  have on : ∀ {had : Hand} (hand : Hand) {before : Net}, net.hands[other]? = some had →
      before.links.senders = net.links.senders → before.hands = net.hands →
      (hand.dest = none ∨ hand.dest = had.dest) → (before.hold other hand).Towards thread dest →
      net.Towards thread dest := by
    intro had hand before has senders hands keeps towards
    rcases towards.of_hold with old | ⟨rfl, is⟩
    · exact old.same senders hands
    · rcases keeps with gone | same
      · cases gone.symm.trans is
      · exact .inr ⟨had, has, same ▸ is⟩
  unfold Net.sendt at towards
  split at towards
  · rename_i has
    split at towards
    · unfold Net.call at towards
      split at towards
      · exact on _ has rfl rfl (.inl rfl) towards
      · cases poll with
        | busy => exact towards
        | writable => exact on _ has rfl rfl (.inr (Hand.dest_writes _ _ _)) towards
        | exception => exact on _ has rfl rfl (.inl rfl) towards
    · exact towards
  · rename_i has
    unfold Net.send at towards
    split at towards
    · exact on _ has rfl rfl (.inl rfl) towards
    · cases ret with
      | failed errno => exact on _ has rfl rfl (.inl rfl) towards
      | taken count =>
        dsimp only at towards
        split at towards
        · exact towards.same rfl rfl
        · exact on _ has rfl rfl (.inl rfl) towards
  · rename_i has
    exact on _ has rfl rfl (.inl rfl) towards
  · exact towards

/-- An endpoint more is nobody's destination. -/
theorem towards_ensure {name : CStr} (towards : (net.ensure name).Towards thread dest) :
    net.Towards thread dest := by
  unfold Net.ensure at towards
  split at towards
  · exact towards
  · exact towards.same rfl rfl

/-- No event leads a thread elsewhere but a look at an endpoint, and the descriptor of a message. -/
theorem towards_step {event : NetEvent} (towards : (net.step event).Towards thread dest) :
    net.Towards thread dest ∨ (∃ ep adds, event = .look thread ep adds ∧ dest = .endpoint ep) ∨
      ∃ sock, event = .take thread sock ∧ dest = .descriptor sock := by
  -- One case for each event; only two of them put something new into a hand.
  cases event with
  | ensure name => exact .inl (towards_ensure towards)
  | look other here adds =>
    refine (towards_look towards).imp id ?_
    rintro ⟨rfl, rfl, -⟩
    exact .inl ⟨here, adds, rfl, rfl⟩
  | link other fd => exact .inl (towards_link towards)
  | read other =>
    simp only [Net.step, Net.read] at towards
    split at towards
    · rename_i has
      rcases towards.of_hold with before | ⟨rfl, is⟩
      · exact .inl before
      · exact .inl (.inr ⟨_, has, is⟩)
    · exact .inl towards
  | take other sock =>
    simp only [Net.step] at towards
    split at towards
    · refine towards.of_hold.imp id ?_
      rintro ⟨rfl, is⟩
      exact .inr ⟨sock, rfl, (Option.some.inj is).symm⟩
    · exact .inl towards
  | sendt other poll ret more => exact .inl (towards_sendt towards)
  | leave other =>
    simp only [Net.step, Net.leave] at towards
    split at towards
    · split at towards
      · exact .inl (towards.of_hold.resolve_right (by rintro ⟨_, ⟨⟩⟩))
      · exact .inl towards
    · exact .inl towards
  | accept fd =>
    simp only [Net.step, Net.newsession] at towards
    split at towards
    · exact .inl towards
    · refine .inl (towards.same ?_ rfl)
      simp only [Links.step]
      split
      · rfl
      · rfl
  | disc blk =>
    simp only [Net.step, Net.disc] at towards
    split at towards
    · exact .inl towards
    · split at towards
      · exact .inl towards
      · split at towards
        · exact .inl towards
        · exact .inl (towards.same rfl rfl)
  | wait =>
    simp only [Net.step, Net.wait] at towards
    split at towards
    · exact .inl towards
    · split at towards
      · split at towards
        · exact .inl (towards.same rfl rfl)
        · exact .inl (towards.same rfl rfl)
      · exact .inl (towards.same net.links.receiver_senders rfl)
    · exact .inl (towards.same rfl rfl)
  | remove blk =>
    simp only [Net.step] at towards
    split at towards
    · exact .inl (towards.same rfl rfl)
    · exact .inl towards

/-- A thread that is free sends nowhere. -/
theorem Free.nowhere (free : net.Free thread) : ¬ net.Towards thread dest := by
  -- A free thread neither sends nor has something in hand.
  rintro (⟨pc, is, leads⟩ | ⟨hand, has, leads⟩)
  · cases free.1.symm.trans is
    cases leads
  · cases free.2.symm.trans has
    cases leads

/-- What a thread has in hand for an endpoint aims at it. -/
theorem Inv.aims_of_dest (inv : net.Inv) (among : hand ∈ net.hands) {ep : Nat}
    (dest : hand.dest = some (.endpoint ep)) (has : hand.sock = some sock) : net.Aims ep sock := by
  -- What a hand fits to is that its descriptor aims at its endpoint.
  have fits := inv.hands hand among
  cases hand with
  | holds here other =>
    cases here with
    | none => cases dest
    | some here =>
      cases dest
      cases has
      exact fits _ rfl
  | writes here other blk =>
    cases here with
    | none => cases dest
    | some here =>
      cases dest
      cases has
      exact fits.1 _ rfl
  | empty | reads here | terms blk => cases has

/-- What `SIsendt` writes goes to the session that the descriptor in the thread's hand belongs to.
-/
theorem Inv.sendt_written (inv : net.Inv) (thread : Nat) (poll : Poll) (ret : SendRet)
    (more : Bool) :
    (net.sendt thread poll ret more).1.written = net.written ∨
      ∃ (hand : Hand) (fd session : Nat), net.hands[thread]? = some hand ∧
      hand.sock = some (fd : Int) ∧
        hand.dest ≠ none ∧ net.si.os fd = some session ∧ ∃ name,
        (net.sendt thread poll ret more).1.written = net.written ++ [⟨name, session⟩] := by
  -- Only the write itself adds bytes, and it finds the session by the descriptor in hand.
  unfold Net.sendt
  split
  · refine .inl ?_
    split
    · unfold Net.call
      split
      · rfl
      · cases poll with
        | busy => rfl
        | exception => rfl
        | writable => rfl
    · rfl
  · rename_i ep sock blk has
    unfold Net.send
    split
    · exact .inl rfl
    · rename_i session open_
      cases ret with
      | failed errno => exact .inl rfl
      | taken count =>
        refine .inr ?_
        obtain ⟨fd, is, owns⟩ := Option.bind_eq_some_iff.mp open_
        have found := (inv.hands _ (List.mem_of_getElem? has)).2.2 fd is
        refine ⟨_, fd, session, has, congrArg some found, ?_, owns, ep.bind (net.eps[·]?), ?_⟩
        · rw [Hand.dest_writes]
          cases ep with
          | none => exact Option.some_ne_none _
          | some ep => exact Option.some_ne_none _
        · dsimp only
          split
          · rfl
          · rfl
  · exact .inl rfl
  · exact .inl rfl

end Net

end Rmr
