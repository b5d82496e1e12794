import Rmr.Lib.Run
import Rmr.Transport.Sendt

/-! What is written on a connection: frames in the order of the calls, and at most the last one of
them in part. -/

namespace Rmr

namespace Sending

variable {call : Sending}

/-- Some of the buffer was sent, and not all of it. -/
def Torn (call : Sending) : Prop := 0 < call.sidx ∧ call.sidx < call.ubuf.length

instance (call : Sending) : Decidable call.Torn := inferInstanceAs (Decidable (_ ∧ _))

/-- What a pass takes goes behind what was sent before. -/
theorem sent_pass (call : Sending) (ret : SendRet) :
    (call.pass ret).sent = call.sent ++ call.takes ret := by
  cases ret with
  | taken count =>
    have more : call.ubuf.take (call.sidx + (call.rest.take count).length) =
        call.sent ++ call.rest.take count := by
      rw [List.take_add]
      congr 1
      -- Cutting a second time at the length of what was cut off changes nothing.
      rw [List.length_take, ← rest, ← List.take_take, List.take_length]
    unfold pass
    dsimp only
    split
    · exact more
    · exact more
  | failed errno =>
    rw [takes, List.append_nil]
    unfold pass
    dsimp only
    split
    · rfl
    · rfl

/-- A buffer of which something was sent, but not a part only, was sent as a whole. -/
theorem sent_of_not_torn (whole : ¬ call.Torn) :
    call.sent = if 0 < call.sidx then call.ubuf else [] := by
  -- Not torn, what was sent is nothing or everything.
  unfold Torn at whole
  unfold sent
  split
  · exact List.take_of_length_le (by omega)
  · rename_i nothing
    rw [Nat.eq_zero_of_not_pos nothing, List.take_zero]

end Sending

namespace Wire

variable {wire : Wire}

/-- The frames of which something was sent. -/
def frames (wire : Wire) : List (List UInt8) :=
  (wire.calls.filter (fun call => 0 < call.sidx)).map Sending.ubuf

/-- The bytes on the connection are those of its calls, in their order, and behind a frame that was
sent in part there is nothing. -/
structure Aligned (wire : Wire) : Prop where
  bytes : wire.bytes = (wire.calls.map Sending.sent).flatten
  last : wire.calls.Pairwise fun earlier later => earlier.Torn → later.sidx = 0
  /-- What the other side gets is a stream of frames that it can take apart. -/
  stream : wire.bytes <+: wire.frames.flatten

/-- A call gets past its `select` only when no other one is in its loop, and when no `SEND` has
failed behind a part of its frame. -/
def Undisturbed (wire : Wire) (event : WireEvent) : Prop :=
  match event with
  | .call _ .writable => wire.up = true → ∀ call ∈ wire.calls, call.status ≠ none ∧ ¬ call.Torn
  | _ => True

/-- What holds of a connection whose calls were undisturbed. -/
structure Inv (wire : Wire) : Prop where
  bytes : wire.bytes = (wire.calls.map Sending.sent).flatten
  before : ∀ call ∈ wire.calls.dropLast, call.status ≠ none ∧ ¬ call.Torn

/-- A call that is in its loop is the last one. -/
theorem Inv.last_of_looping (inv : wire.Inv) {idx : Nat} {call : Sending}
    (at_ : wire.calls[idx]? = some call) (looping : call.status = none) :
    wire.calls = wire.calls.dropLast ++ [call] ∧ idx = wire.calls.dropLast.length := by
  obtain ⟨low, is⟩ := List.getElem?_eq_some_iff.mp at_
  have length : wire.calls.dropLast.length = wire.calls.length - 1 := List.length_dropLast
  by_cases earlier : idx < wire.calls.dropLast.length
  · -- The ones before it have returned.
    have among : call ∈ wire.calls.dropLast := by
      rw [← is, ← List.getElem_dropLast earlier]
      exact List.getElem_mem earlier
    exact absurd looping (inv.before call among).1
  · have here : idx = wire.calls.dropLast.length := by omega
    refine ⟨?_, here⟩
    have some_ : wire.calls ≠ [] := List.ne_nil_of_length_pos (by omega)
    have final : wire.calls.getLast some_ = call := by
      rw [List.getLast_eq_getElem, ← is]
      congr 1
      omega
    rw [← final, List.dropLast_append_getLast]

/-- A pass keeps the invariant. -/
theorem Inv.pass (inv : wire.Inv) (idx : Nat) (ret : SendRet) : (wire.pass idx ret).Inv := by
  unfold Wire.pass
  split
  · exact inv
  · rename_i call at_
    split
    · exact inv
    · rename_i looping
      have looping : call.status = none := by simpa using looping
      obtain ⟨calls, here⟩ := inv.last_of_looping at_ looping
      dsimp only
      generalize (if wire.up = true then ret else SendRet.failed .other) = ret
      have set : wire.calls.set idx (call.pass ret) = wire.calls.dropLast ++ [call.pass ret] := by
        conv_lhs => rw [calls, here]
        simp
      constructor
      · -- The bytes that are taken are those of the last call.
        dsimp only
        rw [set, inv.bytes, List.map_append, List.flatten_append]
        conv_lhs => rw [calls]
        simp [Sending.sent_pass]
      · rw [set, List.dropLast_concat]
        exact inv.before

/-- A call that is undisturbed keeps the invariant. -/
theorem Inv.call (inv : wire.Inv) (ubuf : List UInt8) (poll : Poll)
    (undisturbed : wire.Undisturbed (.call ubuf poll)) : (wire.call ubuf poll).Inv := by
  unfold Wire.call
  split
  · exact inv
  · rename_i up
    have up : wire.up = true := by simpa using up
    cases poll with
    | busy => exact inv
    | exception => exact ⟨inv.bytes, inv.before⟩
    | writable =>
      constructor
      · simp [inv.bytes, Sending.enter, Sending.sent]
      · -- All calls before this one have returned, and left nothing in part.
        rw [List.dropLast_concat]
        exact undisturbed up

/-- Each event that is undisturbed keeps the invariant. -/
theorem Inv.step (inv : wire.Inv) {event : WireEvent} (undisturbed : wire.Undisturbed event) :
    (wire.step event).Inv := by
  -- By the kind of event.
  cases event with
  | call ubuf poll => exact inv.call ubuf poll undisturbed
  | pass idx ret => exact inv.pass idx ret
  | term => exact ⟨inv.bytes, inv.before⟩

/-- The bytes of calls none of which sent a part only are their frames. -/
theorem flatten_sent {calls : List Sending} (whole : ∀ call ∈ calls, ¬ call.Torn) :
    (calls.map Sending.sent).flatten =
      ((calls.filter (fun call => 0 < call.sidx)).map Sending.ubuf).flatten := by
  -- Induction on the calls.
  induction calls with
  | nil => rfl
  | cons call calls ih =>
    have rest := ih fun other among => whole other (by simp [among])
    have first := Sending.sent_of_not_torn (whole call (by simp))
    rw [List.map_cons, List.flatten_cons, first, rest]
    by_cases some_ : 0 < call.sidx
    · simp [some_]
    · simp [some_]

/-- The invariant gives what is claimed of the bytes. -/
theorem Inv.aligned (inv : wire.Inv) : wire.Aligned := by
  rcases List.eq_nil_or_concat wire.calls with none | ⟨before, call, calls⟩
  · refine ⟨inv.bytes, by simp [none], ?_⟩
    rw [inv.bytes, none]
    exact List.nil_prefix
  · rw [List.concat_eq_append] at calls
    have whole : ∀ call ∈ before, ¬ call.Torn := by
      intro other among
      exact (inv.before other (by rw [calls, List.dropLast_concat]; exact among)).2
    refine ⟨inv.bytes, ?_, ?_⟩
    · rw [calls, List.pairwise_append]
      refine ⟨?_, List.pairwise_singleton _ _, ?_⟩
      · exact List.pairwise_of_forall_mem_list fun earlier among _ _ torn =>
          absurd torn (whole earlier among)
      · exact fun earlier among _ _ torn => absurd torn (whole earlier among)
    · -- The last frame was sent in part, as a whole or not at all.
      rw [inv.bytes, frames, calls, List.map_append, List.flatten_append,
        flatten_sent whole, List.filter_append, List.map_append, List.flatten_append]
      rw [List.prefix_append_right_inj]
      by_cases some_ : 0 < call.sidx
      · simpa [some_, Sending.sent] using List.take_prefix _ _
      · simp [Sending.sent, Nat.eq_zero_of_not_pos some_]

/-- In every run of calls on a connection, with whatever `select` and `SEND` return, as long as the
calls are undisturbed the bytes are frames in the order of the calls, with nothing behind one that
was sent in part, and the other side can take them apart. -/
theorem run_aligned (events : List WireEvent)
    (undisturbed : Throughout step Undisturbed init events) : (run events).Aligned := by
  -- By the invariant, which every undisturbed event keeps.
  have start : init.Inv := ⟨rfl, by simp [init]⟩
  have inv : (run events).Inv := undisturbed.keeps (fun inv meets => inv.step meets) start
  exact inv.aligned

instance (wire : Wire) (event : WireEvent) : Decidable (wire.Undisturbed event) :=
  match event with
  | .call _ .writable => inferInstanceAs (Decidable (_ → _))
  | .call _ .busy => isTrue trivial
  | .call _ .exception => isTrue trivial
  | .pass _ _ => isTrue trivial
  | .term => isTrue trivial

/-- A frame that is taken in two parts, one that none is taken of, and one of which a part is taken
before the other side is gone. -/
def undisturbedCalls : List WireEvent :=
  [.call [1, 2, 3] .writable, .pass 0 (.taken 2), .pass 0 (.taken 1), .call [4, 5] .writable,
    .pass 1 (.failed .eagain), .call [6, 7] .busy, .call [8, 9] .writable,
      .pass 2 (.taken 1), .term,
    .pass 2 (.taken 1), .call [4, 5] .writable]

/-- The first frame is on the connection, and behind it the part of the last one. -/
theorem run_aligned_parts :
    (run undisturbedCalls).bytes = [1, 2, 3, 8] ∧ (run undisturbedCalls).Aligned :=
  ⟨by decide, run_aligned undisturbedCalls (by decide)⟩

/-- A call whose second `SEND` is interrupted, and another call. -/
def interruptedCalls : List WireEvent :=
  [.call [1, 2, 3] .writable, .pass 0 (.taken 1), .pass 0 (.failed .eintr), .call [4, 5] .writable,
    .pass 1 (.taken 2)]

/-- The second frame is written behind a part of the first one. -/
theorem frame_behind_part : ¬ (run interruptedCalls).Aligned := by
  -- The first frame is torn, and the second call was made all the same.
  intro aligned
  have torn : (run interruptedCalls).calls[0].Torn := by decide
  have later := List.pairwise_iff_getElem.mp aligned.last 0 1 (by decide) (by decide) (by decide)
    torn
  exact absurd later (by decide)

end Wire

end Rmr
