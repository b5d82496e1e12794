import Rmr.Proofs.Transport.Completes
import Rmr.Transport.Post

/-! Messages that were sent on connections arrive: each once, in their order, and none other. -/

namespace Rmr

section
variable {α : Type*}

/-- More elements complete more frames. -/
theorem completed_prefix (frames : List (List α)) {count more : Nat} (le : count ≤ more) :
    completed frames count <+: completed frames more := by
  -- Induction on the frames; a frame that is not whole ends both lists.
  induction frames generalizing count more with
  | nil => exact List.prefix_refl _
  | cons frame frames ih =>
    unfold completed
    by_cases whole : frame.length ≤ count
    · rw [if_pos whole, if_pos (by omega)]
      exact (List.prefix_cons_inj frame).mpr (ih (by omega))
    · rw [if_neg whole]
      exact List.nil_prefix

/-- The elements of a frame that is not yet completed are fewer than those of the frame. -/
theorem unfinished_lt (frames : List (List α)) {count : Nat} (le : count ≤ frames.flatten.length) :
    unfinished frames count = 0 ∨ ∃ frame ∈ frames, unfinished frames count < frame.length := by
  -- Induction on the frames; what is left over belongs to the first that is not whole.
  induction frames generalizing count with
  | nil => exact .inl (by simpa [unfinished] using le)
  | cons frame frames ih =>
    unfold unfinished
    by_cases whole : frame.length ≤ count
    · rw [if_pos whole]
      rw [List.flatten_cons, List.length_append] at le
      have rest : count - frame.length ≤ frames.flatten.length := by omega
      rcases ih rest with none_ | ⟨one, among, lt⟩
      · exact .inl none_
      · exact .inr ⟨one, List.mem_cons_of_mem _ among, lt⟩
    · rw [if_neg whole]
      exact .inr ⟨frame, List.mem_cons_self, by omega⟩

end

namespace Letter

variable {conf : SendConf}

/-- The frame of a message can be received. -/
theorem framed (letter : Letter conf) : Framed conf.order letter.frame := by
  -- What is sent is the composed message, which is laid out to be received.
  obtain ⟨draft, trLen, composed, laid, sendable, _⟩ := letter.composes.composed
  have sent := letter.sent
  rw [composed, ok_bind, sendMsg_ok laid sendable] at sent
  rw [← Except.ok.inj sent]
  exact sendMsg_framed laid sendable

/-- Whoever is handed the frame of a message gets a message that says the same. -/
theorem delivers (letter : Letter conf) {rcvConf : RcvConf} (same : rcvConf.order = conf.order)
    {call : Call} (carries : call.Carries letter.frame) : call.Delivers rcvConf letter := by
  -- The frame is the one that the message was composed into, byte by byte.
  obtain ⟨draft, trLen, composed, laid, sendable, content⟩ := letter.composes.composed
  have sent := letter.sent
  rw [composed, ok_bind, sendMsg_ok laid sendable] at sent
  rw [← Except.ok.inj sent] at carries
  obtain ⟨delivery, mbuf, handed, gives, equal⟩ := carries_delivers same laid sendable carries
  exact ⟨delivery, mbuf, handed, gives, equal.trans content⟩

/-- It is not empty. -/
theorem pos (letter : Letter conf) : 0 < letter.frame.length := by
  have low := letter.framed.low
  simp only [tpSzfieldLen] at low
  omega

end Letter

/-- A call returned success when all of its buffer was sent, and otherwise not all of it was. -/
def Sending.Fair (call : Sending) : Prop :=
  call.status = some .ok ∧ call.sidx = call.ubuf.length ∨
    call.status ≠ some .ok ∧ call.sidx < call.ubuf.length

/-- One more pass returns success only when it sent the last byte. -/
theorem Sending.Fair.pass {call : Sending} (fair : call.Fair) (looping : call.status = none)
    (ret : SendRet) : (call.pass ret).Fair := by
  have short : call.sidx < call.ubuf.length := by
    rcases fair with ⟨ok, _⟩ | ⟨_, short⟩
    · rw [looping] at ok
      cases ok
    · exact short
  cases ret with
  | taken count =>
    -- So much was taken, and whether something is left decides.
    have takes : (call.takes (.taken count)).length = min count (call.ubuf.length - call.sidx) := by
      simp [takes, rest]
    unfold Sending.pass
    dsimp only
    rw [takes]
    split
    · rename_i left
      simp only [rest, List.length_drop] at left
      refine .inr ⟨?_, by dsimp only; omega⟩
      rw [looping]
      intro is
      cases is
    · rename_i nothing
      simp only [rest, List.length_drop] at nothing
      exact .inl ⟨rfl, by dsimp only; omega⟩
  | failed errno =>
    -- An interrupted call goes on, and any other error ends it: nothing more was sent either way.
    unfold Sending.pass
    dsimp only
    split
    · refine .inr ⟨?_, short⟩
      intro is
      cases is
    · refine .inr ⟨?_, short⟩
      rw [looping]
      intro is
      cases is

namespace Post

variable {conf : SendConf} {post : Post conf}

/-- What holds of a connection whose calls were undisturbed. -/
structure Inv (post : Post conf) : Prop where
  wire : post.wire.Inv
  letters : post.letters.map Letter.frame = post.wire.calls.map Sending.ubuf
  fair : ∀ call ∈ post.wire.calls, call.Fair

/-- Each event that is undisturbed keeps it. -/
theorem Inv.step (inv : post.Inv) {event : PostEvent conf}
    (undisturbed : post.wire.Undisturbed event.wire) : (post.step event).Inv := by
  refine ⟨inv.wire.step undisturbed, ?_, ?_⟩
  · cases event with
    | send letter poll =>
      cases poll with
      | busy | exception =>
        unfold Post.step PostEvent.wire Wire.step Wire.call
        dsimp only
        split <;> exact inv.letters
      | writable =>
        unfold Post.step PostEvent.wire Wire.step Wire.call
        dsimp only
        cases up : post.wire.up with
        | false => exact inv.letters
        | true => simp [inv.letters, Sending.enter]
    | pass idx ret =>
      unfold Post.step PostEvent.wire Wire.step Wire.pass
      dsimp only
      split
      · exact inv.letters
      · rename_i call at_
        split
        · exact inv.letters
        · -- The buffer of a call stays what it is.
          dsimp only
          obtain ⟨low, rfl⟩ := List.getElem?_eq_some_iff.mp at_
          have same : ∀ ret, (post.wire.calls.set idx (post.wire.calls[idx].pass ret)).map
              Sending.ubuf = (post.wire.calls.set idx post.wire.calls[idx]).map Sending.ubuf := by
            intro ret
            rw [List.map_set, List.map_set, Sending.pass_ubuf]
          rw [same, List.set_getElem_self, inv.letters]
    | term => exact inv.letters
  · cases event with
    | send letter poll =>
      unfold Post.step PostEvent.wire Wire.step Wire.call
      dsimp only
      split
      · exact inv.fair
      · cases poll with
        | busy | exception => exact inv.fair
        | writable =>
          intro call among
          rcases List.mem_append.mp among with earlier | here
          · exact inv.fair call earlier
          · -- A call that is new has sent nothing, and there is something to send.
            rw [List.mem_singleton.mp here]
            have pos := letter.pos
            refine .inr ⟨?_, pos⟩
            unfold Sending.enter
            dsimp only
            rw [if_pos pos]
            intro is
            cases is
    | pass idx ret =>
      unfold Post.step PostEvent.wire Wire.step Wire.pass
      dsimp only
      split
      · exact inv.fair
      · rename_i call at_
        split
        · exact inv.fair
        · rename_i looping
          intro other among
          rcases List.mem_or_eq_of_mem_set among with earlier | rfl
          · exact inv.fair other earlier
          · exact (inv.fair call (List.mem_of_getElem? at_)).pass (not_not.mp looping) _
    | term => exact inv.fair

/-- The frames of calls none of which sent a part only are those of the calls that returned success.
-/
theorem frames_whole {calls : List Sending} (fair : ∀ call ∈ calls, call.Fair)
    (some_ : ∀ call ∈ calls, 0 < call.ubuf.length) (whole : ∀ call ∈ calls, ¬ call.Torn) :
    calls.filter (fun call => 0 < call.sidx) =
      calls.filter (fun call => call.status = some .ok) := by
  -- A call that returned success sent everything, and any other one nothing.
  refine List.filter_congr fun call among => ?_
  have pos := some_ call among
  have notTorn := whole call among
  unfold Sending.Torn at notTorn
  rcases fair call among with ⟨ok, all⟩ | ⟨not, short⟩
  · have sent : 0 < call.sidx := by omega
    simp [ok, sent]
  · have none_ : call.sidx = 0 := by omega
    simp [not, none_]

/-- What is on a connection are the frames of the calls that returned success, and at most a part of
one more. -/
theorem Inv.split (inv : post.Inv) : ∃ rest part,
    post.wire.frames =
      (post.wire.calls.filter fun call => call.status = some .ok).map Sending.ubuf ++ rest ∧
    post.wire.bytes = ((post.wire.calls.filter fun call => call.status = some .ok).map
      Sending.ubuf).flatten ++ part ∧
    Begun rest part := by
  have nonempty : ∀ call ∈ post.wire.calls, 0 < call.ubuf.length := by
    intro call among
    have inLetters : call.ubuf ∈ post.letters.map Letter.frame := by
      rw [inv.letters]
      exact List.mem_map_of_mem among
    obtain ⟨letter, _, is⟩ := List.mem_map.mp inLetters
    rw [← is]
    exact letter.pos
  -- Only the last call can have sent a part.
  rcases List.eq_nil_or_concat post.wire.calls with none_ | ⟨before, call, calls⟩
  · refine ⟨[], [], ?_, ?_, begun_nil (by simp)⟩
    · simp [Wire.frames, none_]
    · simp [inv.wire.bytes, none_]
  · rw [List.concat_eq_append] at calls
    have whole : ∀ call ∈ before, ¬ call.Torn := by
      intro other among
      exact (inv.wire.before other (by rw [calls, List.dropLast_concat]; exact among)).2
    have earlier := frames_whole
      (fun other among => inv.fair other (by rw [calls]; simp [among]))
      (fun other among => nonempty other (by rw [calls]; simp [among])) whole
    have bytes : post.wire.bytes =
        ((before.filter fun call => call.status = some .ok).map Sending.ubuf).flatten ++
          call.sent := by
      rw [inv.wire.bytes, calls, List.map_append, List.flatten_append, Wire.flatten_sent whole,
        earlier]
      simp
    have last := inv.fair call (by rw [calls]; simp)
    unfold Wire.frames
    rw [bytes, calls, List.filter_append, List.filter_append, earlier, List.map_append,
      List.map_append]
    rcases last with ⟨ok, all⟩ | ⟨not, short⟩
    · -- The last call has returned success, too.
      have pos := nonempty call (by rw [calls]; simp)
      have sent : 0 < call.sidx := by omega
      refine ⟨[], [], ?_, ?_, begun_nil (by simp)⟩
      · simp [ok, sent]
      · simp [ok, Sending.sent, all]
    · refine ⟨([call].filter fun call => 0 < call.sidx).map Sending.ubuf, call.sent, ?_, ?_, ?_⟩
      · simp [not]
      · simp [not]
      · by_cases some_ : 0 < call.sidx
        · -- A part of its frame is there.
          refine ⟨?_, fun frame rest is => ?_⟩
          · simpa [some_, Sending.sent] using List.take_prefix _ _
          · simp only [some_, decide_true, List.filter_cons_of_pos, List.filter_nil, List.map_cons,
              List.map_nil, List.cons.injEq] at is
            rw [← is.1, Sending.sent, List.length_take]
            omega
        · have none_ : call.sidx = 0 := by omega
          refine ⟨?_, fun frame rest is => ?_⟩
          · simp [Sending.sent, none_]
          · simp [none_] at is

/-- The messages of the calls that returned success have the frames of those calls. -/
theorem Inv.accepted (inv : post.Inv) : post.accepted.map Letter.frame =
    (post.wire.calls.filter fun call => call.status = some .ok).map Sending.ubuf := by
  -- Messages and calls were added in pairs, and the induction is on both lists.
  have zipped : ∀ (letters : List (Letter conf)) (calls : List Sending),
      letters.map Letter.frame = calls.map Sending.ubuf →
      (((letters.zip calls).filter fun pair => pair.2.status = some .ok).map Prod.fst).map
          Letter.frame =
        (calls.filter fun call => call.status = some .ok).map Sending.ubuf := by
    intro letters
    induction letters with
    | nil =>
      intro calls same
      cases calls with
      | nil => rfl
      | cons call calls => cases same
    | cons letter letters ih =>
      intro calls same
      cases calls with
      | nil => cases same
      | cons call calls =>
        rw [List.map_cons, List.map_cons, List.cons.injEq] at same
        have rest := ih calls same.2
        by_cases ok : call.status = some .ok
        · simp [ok, rest, same.1]
        · simp [ok, rest]
  exact zipped _ _ inv.letters

/-- What was received of a connection completes the frames of messages that were accepted, from the
first one on: all of them, once all of it was received. -/
theorem Inv.completed (inv : post.Inv) {bytes : List UInt8} (came : bytes <+: post.wire.bytes) :
    ∃ letters, letters <+: post.accepted ∧ (bytes = post.wire.bytes → letters = post.accepted) ∧
      completed post.wire.frames bytes.length = letters.map Letter.frame := by
  -- The bytes that came complete the first of the frames that were written.
  obtain ⟨rest, part, frames, all, begun⟩ := inv.split
  rw [← inv.accepted] at frames all
  have whole : Rmr.completed post.wire.frames post.wire.bytes.length =
      post.accepted.map Letter.frame := by
    rw [frames, all, completed_begun begun]
  have first : Rmr.completed post.wire.frames bytes.length <+: post.accepted.map Letter.frame := by
    rw [← whole]
    exact completed_prefix _ came.length_le
  refine ⟨post.accepted.take (Rmr.completed post.wire.frames bytes.length).length,
    List.take_prefix _ _, fun same => ?_, ?_⟩
  · rw [same, whole, List.length_map, List.take_length]
  · rw [List.map_take]
    exact List.prefix_iff_eq_take.mp first

/-- Connections whose calls were undisturbed, of which parts were received that follow on each
other: what the receiver makes of each are the messages that were accepted on it, from the first one
on. -/
theorem receives {rcvConf : RcvConf} (same : rcvConf.order = conf.order)
    {posts : Int → Post conf} (inv : ∀ fd, (posts fd).Inv)
    (left : Leftover) {chunks : List (Int × List UInt8)}
    (written : ∀ fd, received chunks fd <+: (posts fd).wire.bytes)
    (parts : ∀ chunk ∈ chunks, 0 ≤ chunk.1 ∧ chunk.2 ≠ [] ∧ chunk.2.length ≤ maxRbuf)
    (small : ∀ fd, ∀ letter ∈ (posts fd).letters,
      ((letter.frame.length + maxRbuf : Nat) : Int) ≤ intMax) :
    ∃ rcv, Rcv.receive rcvConf left chunks = .ok rcv ∧
      ∀ fd, ∃ letters, letters <+: (posts fd).accepted ∧
        (received chunks fd = (posts fd).wire.bytes → letters = (posts fd).accepted) ∧
        List.Forall₂ (Call.Delivers rcvConf) (rcv.callsOf fd) letters := by
  -- Every frame on a connection is that of a message.
  have lettered : ∀ fd, ∀ frame ∈ (posts fd).wire.frames,
      ∃ letter ∈ (posts fd).letters, letter.frame = frame := by
    intro fd frame among
    have inCalls : frame ∈ (posts fd).wire.calls.map Sending.ubuf :=
      List.map_subset _ (List.filter_subset_self _) among
    rw [← (inv fd).letters] at inCalls
    exact List.mem_map.mp inCalls
  have room : (maxRbuf : Int) ≤ intMax := by decide
  have cut : Cut rcvConf.order (fun fd => (posts fd).wire.frames) chunks := by
    refine ⟨fun fd frame among => ?_, fun fd => ?_, fun chunk among => (parts chunk among).1,
      fun chunk among => (parts chunk among).2.1, fun chunk among => ?_⟩
    · obtain ⟨letter, _, rfl⟩ := lettered fd frame among
      rw [same]
      exact letter.framed
    · exact (written fd).trans (inv fd).wire.aligned.stream
    · have few := (parts chunk among).2.2
      omega
  have counts : Counts (fun fd => (posts fd).wire.frames) chunks := by
    intro before fd chunk after split
    have few : chunk.length ≤ maxRbuf := (parts (fd, chunk) (by rw [split]; simp)).2.2
    have within : (received before fd).length ≤ (posts fd).wire.frames.flatten.length := by
      have all := (cut.streams fd).length_le
      have joined : received chunks fd = received before fd ++ (chunk ++ received after fd) := by
        rw [split]
        simp [received]
      rw [joined, List.length_append] at all
      omega
    -- What is there of a frame is less than the frame, and that leaves room for a chunk.
    rcases unfinished_lt _ within with none_ | ⟨frame, among, lt⟩
    · rw [none_]
      push_cast
      omega
    · obtain ⟨letter, inLetters, rfl⟩ := lettered fd frame among
      have limit := small fd letter inLetters
      push_cast at limit ⊢
      omega
  obtain ⟨rcv, ran, follows⟩ := Rcv.receive_follows left cut counts
  refine ⟨rcv, ran, fun fd => ?_⟩
  obtain ⟨letters, accepted, whole, completed⟩ := (inv fd).completed (written fd)
  refine ⟨letters, accepted, whole, ?_⟩
  have carried := follows.completed fd
  rw [completed, List.forall₂_map_right_iff] at carried
  exact carried.imp fun call letter carries => letter.delivers same carries

/-- Nothing was sent, undisturbed. -/
theorem init_inv (conf : SendConf) : (init conf).Inv :=
  ⟨⟨rfl, by simp [Post.init, Wire.init]⟩, rfl, fun call among => absurd among List.not_mem_nil⟩

end Post

end Rmr
