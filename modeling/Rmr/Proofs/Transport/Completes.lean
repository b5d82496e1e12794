import Rmr.Proofs.Transport.Aligned

/-! A send on one connection goes through to its end, unless a `SEND` is interrupted on the way. -/

namespace Rmr

/-- The bytes that a `SEND` accepts. -/
def SendRet.count : SendRet → Nat
  | .taken count => count
  | .failed _ => 0

/-- A `SEND` accepts something. -/
def SendRet.Accepts : SendRet → Prop
  | .taken _ => True
  | .failed _ => False

/-- A `SEND` accepts some bytes, where a number beyond what is left stands for all of it, or fails
with `EINTR` or `EAGAIN`. -/
def SendRet.Passing : SendRet → Prop
  | .taken count => 1 ≤ count
  | .failed errno => errno = .eintr ∨ errno = .eagain

/-- Each `SEND` accepts something or should be tried again, and that is not postponed for ever. -/
structure PassesOn (rets : Nat → SendRet) : Prop where
  passing : ∀ send, (rets send).Passing
  accepts : ∀ send, ∃ later, send ≤ later ∧ (rets later).Accepts

/-- All bytes that the first calls of `SEND` accept. -/
def acceptedBy (rets : Nat → SendRet) : Nat → Nat
  | 0 => 0
  | sends + 1 => acceptedBy rets sends + (rets sends).count

namespace Sending

variable {call : Sending} {ubuf : List UInt8} {rets : Nat → SendRet}

/-- The call after so many passes; once it has returned there is none any more. -/
def after (ubuf : List UInt8) (rets : Nat → SendRet) : Nat → Sending
  | 0 => enter ubuf
  | sends + 1 =>
    if (after ubuf rets sends).status ≠ none then after ubuf rets sends
    else (after ubuf rets sends).pass (rets sends)

/-- Where a call stands: it is in its loop, it has sent all of the buffer, or it has given up
because there was nothing to send or because a `SEND` failed before all was sent. -/
inductive Stands (ubuf : List UInt8) (rets : Nat → SendRet) (sends : Nat)
    (call : Sending) : Prop where
  | looping (status : call.status = none) (sidx : call.sidx = acceptedBy rets sends)
    (accepts : ∀ send < sends, (rets send).Accepts) (left_ : acceptedBy rets sends < ubuf.length)
  | done (status : call.status = some .ok) (sent : call.sent = ubuf) (some_ : ubuf ≠ [])
    (all : ∃ last, (∀ send < last, (rets send).Accepts) ∧ ubuf.length ≤ acceptedBy rets last)
  | nothing (status : call.status = some .error) (none_ : ubuf = [])
  | failed (status : call.status = some .error) (failure : ∃ send < sends, ¬ (rets send).Accepts ∧
      acceptedBy rets send < ubuf.length)

/-- A pass does not change the buffer. -/
theorem pass_ubuf (call : Sending) (ret : SendRet) : (call.pass ret).ubuf = call.ubuf := by
  -- By how the send returned.
  unfold pass
  cases ret with
  | taken count =>
    dsimp only
    split
    · rfl
    · rfl
  | failed errno =>
    dsimp only
    split
    · rfl
    · rfl

/-- A call works on its buffer all the time. -/
theorem after_ubuf (ubuf : List UInt8) (rets : Nat → SendRet) (sends : Nat) :
    (after ubuf rets sends).ubuf = ubuf := by
  -- Induction on the passes.
  induction sends with
  | zero => rfl
  | succ sends ih =>
    rw [after]
    split
    · exact ih
    · rw [pass_ubuf, ih]

/-- A failure of any kind ends the call in error: no error is both `EINTR` and `EAGAIN`. -/
theorem pass_failed (call : Sending) (errno : Errno) :
    (call.pass (.failed errno)).status = some .error := by
  have differs : errno ≠ .eintr ∨ errno ≠ .eagain := by cases errno <;> simp
  simp [pass, differs]

/-- Each pass leaves the call in one of these places. -/
theorem after_stands (ubuf : List UInt8) (rets : Nat → SendRet) (sends : Nat) :
    Stands ubuf rets sends (after ubuf rets sends) := by
  induction sends with
  | zero =>
    by_cases empty : ubuf = []
    · exact .nothing (by simp [after, enter, empty]) empty
    · have some_ : 0 < ubuf.length := List.length_pos_iff.mpr empty
      refine .looping ?_ rfl (fun send below => absurd below (Nat.not_lt_zero send)) some_
      simp [after, enter, some_]
  | succ sends ih =>
    rw [after]
    cases ih with
    | done status sent some_ all =>
      rw [if_pos (by rw [status]; simp)]
      exact .done status sent some_ all
    | nothing status none_ =>
      rw [if_pos (by rw [status]; simp)]
      exact .nothing status none_
    | failed status failure =>
      rw [if_pos (by rw [status]; simp)]
      obtain ⟨send, below, failure⟩ := failure
      exact .failed status ⟨send, Nat.lt_succ_of_lt below, failure⟩
    | looping status sidx accepts left_ =>
      rw [if_neg (by rw [status]; simp)]
      have buf := after_ubuf ubuf rets sends
      cases ret : rets sends with
      | failed errno =>
        refine .failed (pass_failed _ errno) ⟨sends, Nat.lt_succ_self sends, ?_, left_⟩
        rw [ret]
        exact id
      | taken count =>
        -- What is accepted is cut at what is left.
        have rest : (after ubuf rets sends).rest = ubuf.drop (acceptedBy rets sends) := by
          rw [Sending.rest, buf, sidx]
        have takes : ((after ubuf rets sends).takes (.taken count)).length =
            min count (ubuf.length - acceptedBy rets sends) := by
          rw [Sending.takes, rest, List.length_take, List.length_drop]
        have total : acceptedBy rets (sends + 1) = acceptedBy rets sends + count := by
          rw [acceptedBy, ret]
          rfl
        have accepted : ∀ send < sends + 1, (rets send).Accepts := by
          intro send below
          by_cases here : send = sends
          · rw [here, ret]
            trivial
          · exact accepts send (by omega)
        unfold pass
        dsimp only
        rw [takes, Sending.rest, buf, sidx]
        by_cases more : acceptedBy rets sends + count < ubuf.length
        · have short : min count (ubuf.length - acceptedBy rets sends) = count := by omega
          rw [short, if_pos (by simp only [List.length_drop]; omega)]
          exact .looping status (by rw [total]) accepted (by omega)
        · have cut : acceptedBy rets sends + min count (ubuf.length - acceptedBy rets sends) =
              ubuf.length := by omega
          rw [cut, if_neg (by simp only [List.length_drop]; omega)]
          refine .done rfl ?_ (by rintro rfl; simp at left_) ⟨sends + 1, accepted, by omega⟩
          rw [Sending.sent]
          exact List.take_length

end Sending

namespace Wire

variable {wire : Wire} {ubuf : List UInt8} {rets : Nat → SendRet}

/-- The buffer is written, once and in order, and the call returns `SI_OK`. -/
def Completes (wire : Wire) (ubuf : List UInt8) (rets : Nat → SendRet) : Prop :=
  ∃ sends, (wire.sendt ubuf rets sends).bytes = wire.bytes ++ ubuf ∧
    ∃ call, (wire.sendt ubuf rets sends).calls[wire.calls.length]? = some call ∧
      call.status = some .ok

/-- The connection after some passes of the call: its bytes are followed by what the call has sent.
-/
theorem sendt_eq (up : wire.up = true) (ubuf : List UInt8) (rets : Nat → SendRet) (sends : Nat) :
    wire.sendt ubuf rets sends = { wire with
      bytes := wire.bytes ++ (Sending.after ubuf rets sends).sent
      calls := wire.calls ++ [Sending.after ubuf rets sends] } := by
  -- Induction on the passes; each of them adds to the last call on the connection.
  induction sends with
  | zero =>
    rw [sendt, call, if_neg (by simp [up])]
    simp [Sending.after, Sending.enter, Sending.sent]
  | succ sends ih =>
    rw [sendt, ih, pass]
    have at_ : (wire.calls ++ [Sending.after ubuf rets sends])[wire.calls.length]? =
        some (Sending.after ubuf rets sends) := by simp
    simp only [at_, Sending.after]
    split
    · rfl
    · simp [up, Sending.sent_pass, List.append_assoc]

/-- A call of `SIsendt` on a descriptor that can be written to writes all of its buffer and returns
`SI_OK` if and only if there is something to write, and no `SEND` fails before all was accepted. -/
theorem sendt_completes_iff (up : wire.up = true) (ubuf : List UInt8) (rets : Nat → SendRet) :
    wire.Completes ubuf rets ↔
      ubuf ≠ [] ∧ ∃ sends, (∀ send < sends, (rets send).Accepts) ∧
        ubuf.length ≤ acceptedBy rets sends := by
  constructor
  · intro completes
    obtain ⟨sends, -, call, callIs, status⟩ := completes
    rw [sendt_eq up] at callIs
    have is : Sending.after ubuf rets sends = call := by simpa using callIs
    subst is
    cases Sending.after_stands ubuf rets sends with
    | looping other => simp [other] at status
    | done _ _ some_ all => exact ⟨some_, all⟩
    | nothing other => simp [other] at status
    | failed other => simp [other] at status
  · rintro ⟨some_, sends, accepts, all⟩
    -- After these passes the call can only be one that has sent everything.
    have done : (Sending.after ubuf rets sends).status = some .ok ∧
        (Sending.after ubuf rets sends).sent = ubuf := by
      cases Sending.after_stands ubuf rets sends with
      | looping _ _ _ left_ => omega
      | done status sent => exact ⟨status, sent⟩
      | nothing _ none_ => exact absurd none_ some_
      | failed _ failure =>
        obtain ⟨send, below, refused, -⟩ := failure
        exact absurd (accepts send below) refused
    refine ⟨sends, ?_, Sending.after ubuf rets sends, ?_, done.1⟩
    · rw [sendt_eq up]
      dsimp only
      rw [done.2]
    · rw [sendt_eq up]
      simp

/-- Three bytes that are accepted in two parts are written. -/
theorem sendt_completes_parts : init.Completes [1, 2, 3] (fun _ => .taken 2) :=
  (sendt_completes_iff rfl [1, 2, 3] fun _ => .taken 2).mpr
    ⟨by simp, 2, fun _ _ => trivial, by decide⟩

/-- `SEND` is interrupted once, and then accepts one byte each time. -/
def interruptedOnce (send : Nat) : SendRet := if send = 0 then .failed .eintr else .taken 1

/-- The call gives up at the interruption, although it could go on. -/
theorem interrupted_incomplete :
    ¬ ∀ (ubuf : List UInt8) (rets : Nat → SendRet), PassesOn rets → init.Completes ubuf rets := by
  intro completes
  have passes : PassesOn interruptedOnce := by
    constructor
    · intro send
      by_cases first : send = 0
      · simp [interruptedOnce, first, SendRet.Passing]
      · simp [interruptedOnce, first, SendRet.Passing]
    · intro send
      refine ⟨send + 1, Nat.le_succ send, ?_⟩
      simp [interruptedOnce, SendRet.Accepts]
  obtain ⟨-, sends, accepts, all⟩ :=
    (sendt_completes_iff rfl [1] interruptedOnce).mp (completes [1] interruptedOnce passes)
  -- Nothing is accepted without a first `SEND`, and that one fails.
  cases sends with
  | zero => simp [acceptedBy] at all
  | succ sends => exact accepts 0 (Nat.succ_pos sends)

end Wire

end Rmr
