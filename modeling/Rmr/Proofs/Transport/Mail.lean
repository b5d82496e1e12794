import Rmr.Proofs.Receive.Disconnect
import Rmr.Proofs.Receive.Inbox
import Rmr.Proofs.Transport.Post
import Rmr.Transport.Mail

/-! What was accepted from a sender is received: each message by one thread, once, and in order. -/

namespace Rmr

/-- What is in a list that goes together with another one goes with something there. -/
theorem forall₂_goes {α β : Type*} {R : α → β → Prop} {as : List α} {bs : List β}
    (together : List.Forall₂ R as bs) : ∀ a ∈ as, ∃ b ∈ bs, R a b := by
  -- Induction on the two lists.
  induction together with
  | nil => exact fun a among => absurd among List.not_mem_nil
  | cons here _ ih =>
    intro a among
    rcases List.mem_cons.mp among with rfl | later
    · exact ⟨_, List.mem_cons_self, here⟩
    · obtain ⟨b, inside, goes⟩ := ih a later
      exact ⟨b, List.mem_cons_of_mem _ inside, goes⟩

/-- A data callback makes more calls after those that were made. -/
theorem Rcv.mtDataCb_calls {rcvConf : RcvConf} {left : Leftover} {rcv next : Rcv} {fd : Int}
    {chunk : List UInt8} (ran : rcv.mtDataCb rcvConf left fd chunk = .ok next) :
    next.calls = rcv.calls ++ rcv.handed next := by
  -- The induction is on the fuel of the loop, each pass of which makes calls after the others.
  have loops : ∀ (fuel : Nat) (rcv : Rcv), rcv.loop rcvConf left fuel = .ok next →
      rcv.calls <+: next.calls := by
    intro fuel
    induction fuel with
    | zero =>
      intro rcv looped
      unfold Rcv.loop at looped
      split at looped
      · cases looped
        exact List.prefix_refl _
      · cases looped
    | succ fuel ih =>
      intro rcv looped
      unfold Rcv.loop at looped
      split at looped
      · cases looped
        exact List.prefix_refl _
      · obtain ⟨mid, passed, rest⟩ := bind_eq_ok.mp looped
        obtain ⟨_, ⟨made, calls, _⟩, _⟩ := pass_frame passed
        refine List.IsPrefix.trans ?_ (ih mid rest)
        rw [calls]
        exact List.prefix_append _ _
  have enters : (rcv.dataCb rcvConf left fd chunk).calls = rcv.calls := by
    unfold Rcv.dataCb
    split
    · rfl
    · split
      · rfl
      · exact rcv.setRiver_calls rcvConf fd _
  have grown := loops chunk.length _ ran
  rw [enters] at grown
  unfold Rcv.handed
  rw [List.prefix_iff_eq_append.mp grown]

/-- What was written on a connection stays written. -/
theorem Wire.step_bytes (wire : Wire) (event : WireEvent) :
    wire.bytes <+: (wire.step event).bytes := by
  -- Only a pass of a call that goes on adds bytes, at the end.
  cases event with
  | call ubuf poll =>
    unfold Wire.step Wire.call
    dsimp only
    split
    · exact List.prefix_refl _
    · cases poll <;> exact List.prefix_refl _
  | pass idx ret =>
    unfold Wire.step Wire.pass
    dsimp only
    split
    · exact List.prefix_refl _
    · split
      · exact List.prefix_refl _
      · exact List.prefix_append _ _
  | term => exact List.prefix_refl _

/-- The messages of a connection were sent on it. -/
theorem Post.step_letters {conf : SendConf} {post : Post conf} {event : PostEvent conf}
    {letter : Letter conf} (among : letter ∈ (post.step event).letters) :
    letter ∈ post.letters ∨ ∃ poll, event = .send letter poll := by
  -- Only a send on a session that is ready adds a message.
  unfold Post.step at among
  dsimp only at among
  cases event with
  | send sent poll =>
    cases poll with
    | busy | exception => exact .inl among
    | writable =>
      dsimp only at among
      split at among
      · rcases List.mem_append.mp among with was | here
        · exact .inl was
        · exact .inr ⟨.writable, by rw [List.mem_singleton.mp here]⟩
      · exact .inl among
  | pass idx ret => exact .inl among
  | term => exact .inl among

/-- What a delivery is put down as. -/
inductive Delivery.PutDown : Delivery → Outcome → Prop where
  | dropped : PutDown .dropped .dropped
  | queued (mbuf : Mbuf) : PutDown (.normal mbuf) (.queued mbuf)
  | full (mbuf : Mbuf) : PutDown (.normal mbuf) .full
  | chute (callId : UInt8) (mbuf : Mbuf) : PutDown (.chute callId mbuf) (.chute callId mbuf)

/-- A call of `buf2mbuf`, and what is in the log for it. -/
def Call.Logged (rcvConf : RcvConf) (call : Call) (entry : Int × Outcome) : Prop :=
  entry.1 = call.fd ∧ ∃ delivery,
    buf2mbuf rcvConf call.rawMsg call.msgSize call.fd = .ok delivery ∧ delivery.PutDown entry.2

/-- What is in the log for the call that was made with a message. -/
theorem Call.Logged.tells {conf : SendConf} {rcvConf : RcvConf} {call : Call}
    {entry : Int × Outcome}
    {letter : Letter conf} (logged : call.Logged rcvConf entry)
    (delivers : call.Delivers rcvConf letter) : entry.2.Tells rcvConf letter := by
  obtain ⟨_, delivery, handed, put⟩ := logged
  obtain ⟨delivery', mbuf, handed', gives, equal⟩ := delivers
  obtain rfl := Except.ok.inj (handed.symm.trans handed')
  generalize entry.2 = outcome at put ⊢
  -- A message was delivered, so that the call was not dropped.
  cases put with
  | dropped => cases gives
  | full => trivial
  | queued | chute =>
    obtain rfl := Option.some.inj gives
    exact equal

namespace Mail

variable {conf : SendConf} {rcvConf : RcvConf} {left : Leftover} {mail next : Mail conf}

/-- What holds at all times. -/
structure Inv (rcvConf : RcvConf) (left : Leftover) (mail : Mail conf) : Prop where
  posts : ∀ fd, (mail.posts fd).Inv
  small : ∀ fd, ∀ letter ∈ (mail.posts fd).letters,
    ((letter.frame.length + maxRbuf : Nat) : Int) ≤ intMax
  written : ∀ fd, received mail.chunks fd <+: (mail.posts fd).wire.bytes
  parts : ∀ chunk ∈ mail.chunks, 0 ≤ chunk.1 ∧ chunk.2 ≠ [] ∧ chunk.2.length ≤ maxRbuf
  ran : Rcv.receive rcvConf left mail.chunks = .ok mail.rcv
  logged : ∃ made, mail.rcv.calls = made ++ mail.pending ∧
    List.Forall₂ (Call.Logged rcvConf) made mail.log
  kept : mail.inbox.kept = mail.log.filterMap fun entry => entry.2.queued?
  inbox : mail.inbox.Inv

/-- What was received on each connection are messages that were accepted on it. -/
theorem Inv.received (inv : mail.Inv rcvConf left) (same : rcvConf.order = conf.order) (fd : Int) :
    ∃ letters, letters <+: (mail.posts fd).accepted ∧
      (Rmr.received mail.chunks fd = (mail.posts fd).wire.bytes →
        letters = (mail.posts fd).accepted) ∧
      List.Forall₂ (Call.Delivers rcvConf) (mail.rcv.callsOf fd) letters := by
  -- What was received so far is what the receive thread made of the chunks.
  obtain ⟨rcv, ran, arrives⟩ := Post.receives same inv.posts left inv.written inv.parts inv.small
  obtain rfl := Except.ok.inj (ran.symm.trans inv.ran)
  exact arrives fd

/-- Something happens at the other end of a connection. -/
theorem Inv.sender (inv : mail.Inv rcvConf left) {fd : Int} {event : PostEvent conf}
    (careful : mail.Careful (.sender fd event)) :
    Inv rcvConf left { mail with
      posts := Function.update mail.posts fd ((mail.posts fd).step event) } := by
  -- Only this connection changes, and what was received of it was written before.
  refine ⟨fun other => ?_, fun other letter among => ?_, fun other => ?_, inv.parts, inv.ran,
    inv.logged, inv.kept, inv.inbox⟩
  · by_cases own : other = fd
    · subst own
      dsimp only
      rw [Function.update_self]
      exact (inv.posts other).step careful.1
    · dsimp only
      rw [Function.update_of_ne own]
      exact inv.posts other
  · by_cases own : other = fd
    · subst own
      dsimp only at among
      rw [Function.update_self] at among
      rcases Post.step_letters among with was | ⟨poll, rfl⟩
      · exact inv.small other letter was
      · exact careful.2
    · dsimp only at among
      rw [Function.update_of_ne own] at among
      exact inv.small other letter among
  · by_cases own : other = fd
    · subst own
      dsimp only
      rw [Function.update_self]
      exact (inv.written other).trans (Wire.step_bytes _ _)
    · dsimp only
      rw [Function.update_of_ne own]
      exact inv.written other

/-- Bytes of one connection follow on what was received of it. -/
theorem Inv.written_next (inv : mail.Inv rcvConf left) (fd : Int) (count : Nat) (other : Int) :
    Rmr.received (mail.chunks ++ [(fd, mail.next fd count)]) other <+:
      (mail.posts other).wire.bytes := by
  -- On the connection itself the chunk goes on where the last one ended.
  by_cases own : fd = other
  · subst own
    have more : Rmr.received (mail.chunks ++ [(fd, mail.next fd count)]) fd =
        Rmr.received mail.chunks fd ++ mail.next fd count := by
      simp [Rmr.received]
    obtain ⟨rest, all⟩ := inv.written fd
    rw [more]
    unfold Mail.next
    rw [← all, List.drop_left]
    exact (List.prefix_append_right_inj _).mpr (List.take_prefix _ _)
  · have none_ : Rmr.received (mail.chunks ++ [(fd, mail.next fd count)]) other =
        Rmr.received mail.chunks other := by
      simp [Rmr.received, own]
    rw [none_]
    exact inv.written other

/-- `RECV` returns bytes, and the data callback goes through all of them. -/
theorem Inv.recv (inv : mail.Inv rcvConf left) (same : rcvConf.order = conf.order) {fd : Int}
    {count : Nat} (settled : mail.pending = []) (served : 0 ≤ fd)
    (some_ : mail.next fd count ≠ []) :
    ∃ rcv, mail.rcv.mtDataCb rcvConf left fd (mail.next fd count) = .ok rcv ∧
      Inv rcvConf left { mail with
        chunks := mail.chunks ++ [(fd, mail.next fd count)]
        rcv := rcv
        pending := mail.rcv.handed rcv } := by
  have written := inv.written_next fd count
  have parts : ∀ chunk ∈ mail.chunks ++ [(fd, mail.next fd count)],
      0 ≤ chunk.1 ∧ chunk.2 ≠ [] ∧ chunk.2.length ≤ maxRbuf := by
    intro chunk among
    rcases List.mem_append.mp among with was | here
    · exact inv.parts chunk was
    · rw [List.mem_singleton.mp here]
      refine ⟨served, some_, ?_⟩
      unfold Mail.next
      rw [List.length_take]
      omega
  -- That the callback succeeds is a case of receiving everything so far anew.
  obtain ⟨rcv, ran, -⟩ := Post.receives same inv.posts left written parts inv.small
  obtain ⟨mid, before, called⟩ := Rcv.receive_append_ok.mp ran
  obtain rfl : mail.rcv = mid := Except.ok.inj (inv.ran.symm.trans before)
  refine ⟨rcv, called, inv.posts, inv.small, written, parts, ran, ?_, inv.kept, inv.inbox⟩
  obtain ⟨made, calls, logged⟩ := inv.logged
  rw [settled, List.append_nil] at calls
  exact ⟨made, by rw [Rcv.mtDataCb_calls called, calls], logged⟩

/-- `buf2mbuf` makes something of each message, and what it comes to is put down. -/
theorem Inv.deliver (inv : mail.Inv rcvConf left) (same : rcvConf.order = conf.order) {call : Call}
    {pending : List Call} (next : mail.pending = call :: pending)
    (free : mail.inbox.queue.posting = false) :
    ∃ delivery, buf2mbuf rcvConf call.rawMsg call.msgSize call.fd = .ok delivery ∧
      Inv rcvConf left ({ mail with pending := pending }.settle call delivery) := by
  obtain ⟨made, calls, logged⟩ := inv.logged
  rw [next] at calls
  -- The call is one of its connection, and so it was made with a message that was accepted.
  obtain ⟨letters, _, _, arrived⟩ := inv.received same call.fd
  have among : call ∈ mail.rcv.callsOf call.fd := by
    rw [Rcv.callsOf, calls]
    simp
  obtain ⟨letter, _, delivery, mbuf, handed, gives, _⟩ := forall₂_goes arrived call among
  have further : ∀ outcome, delivery.PutDown outcome →
      ∃ made', mail.rcv.calls = made' ++ pending ∧
        List.Forall₂ (Call.Logged rcvConf) made' (mail.log ++ [(call.fd, outcome)]) := by
    intro outcome put
    refine ⟨made ++ [call], by rw [calls]; simp, List.rel_append logged ?_⟩
    exact .cons ⟨rfl, delivery, handed, put⟩ .nil
  refine ⟨delivery, handed, ?_⟩
  cases delivery with
  | dropped => cases gives
  | chute callId mbuf =>
    refine ⟨inv.posts, inv.small, inv.written, inv.parts, inv.ran, further _ (.chute callId mbuf),
      ?_, inv.inbox⟩
    simp [settle, inv.kept, Outcome.queued?]
  | normal mbuf =>
    refine ⟨inv.posts, inv.small, inv.written, inv.parts, inv.ran, further _ ?_, ?_,
      inv.inbox.step _⟩
    · dsimp only
      split
      · exact .queued mbuf
      · exact .full mbuf
    · -- The ring and the log agree on whether there was room.
      by_cases room : mail.inbox.queue.mring.length < mringRoom
      · simp [settle, Inbox.step, NormalQueue.puts, inv.kept, free, room, Outcome.queued?]
      · simp [settle, Inbox.step, NormalQueue.puts, inv.kept, room, Outcome.queued?]

/-- What happens at the ring beside a message that is queued. -/
theorem Inv.around (inv : mail.Inv rcvConf left) {event : QueueEvent}
    (nothing : mail.inbox.queue.puts event = []) :
    Inv rcvConf left { mail with inbox := mail.inbox.step event } := by
  refine ⟨inv.posts, inv.small, inv.written, inv.parts, inv.ran, inv.logged, ?_, inv.inbox.step _⟩
  have kept := inv.kept
  simp [Inbox.step, nothing, kept]

/-- Each event goes on, and keeps what holds. -/
theorem Inv.step (inv : mail.Inv rcvConf left) (same : rcvConf.order = conf.order)
    {event : MailEvent conf} (careful : mail.Careful event) :
    ∃ next, mail.step rcvConf left event = .ok next ∧ next.Inv rcvConf left := by
  -- By the event; only what is received can change a message that is under way.
  cases event with
  | sender fd event => exact ⟨_, rfl, inv.sender careful⟩
  | recv fd count =>
    unfold Mail.step
    dsimp only
    split
    · rename_i ready
      obtain ⟨rcv, called, onward⟩ := inv.recv same ready.1 ready.2.2.1 ready.2.2.2
      exact ⟨_, bind_eq_ok.mpr ⟨rcv, called, rfl⟩, onward⟩
    · exact ⟨mail, rfl, inv⟩
  | deliver =>
    unfold Mail.step
    dsimp only
    split
    · exact ⟨mail, rfl, inv⟩
    · rename_i call pending next
      split
      · exact ⟨mail, rfl, inv⟩
      · rename_i free
        obtain ⟨delivery, handed, onward⟩ := inv.deliver same next (by simpa using free)
        exact ⟨_, bind_eq_ok.mpr ⟨delivery, handed, rfl⟩, onward⟩
  | post => exact ⟨_, rfl, inv.around rfl⟩
  | mtRcv thread mbuf maxWait => exact ⟨_, rfl, inv.around rfl⟩
  | receiver thread ret => exact ⟨_, rfl, inv.around rfl⟩

/-- Nothing was sent yet. -/
theorem init_inv (rcvConf : RcvConf) (left : Leftover) (threads : Nat) :
    (init conf threads).Inv rcvConf left where
  -- Every part of the invariant is about events, and there were none.
  posts := fun _ => Post.init_inv conf
  small := fun _ _ among => absurd among List.not_mem_nil
  written := fun _ => List.nil_prefix
  parts := fun _ among => absurd among List.not_mem_nil
  ran := rfl
  logged := ⟨[], rfl, .nil⟩
  kept := rfl
  inbox := Inbox.init_inv threads

end Mail

end Rmr
