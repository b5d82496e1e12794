import Mathlib.Data.List.Basic

/-! Streams that are concatenations of frames, and what a part of such a stream completes. -/

namespace Rmr

section
variable {α : Type*}

/-- The frames that lie wholly within the first so many elements of their concatenation. -/
def completed : List (List α) → Nat → List (List α)
  | [], _ => []
  | frame :: frames, count =>
    if frame.length ≤ count then frame :: completed frames (count - frame.length) else []

/-- How many of the first elements belong to the frame that is not yet completed. -/
def unfinished : List (List α) → Nat → Nat
  | [], count => count
  | frame :: frames, count =>
    if frame.length ≤ count then unfinished frames (count - frame.length) else count

/-- The frame that is not yet completed has no more elements than there are. -/
theorem unfinished_le (frames : List (List α)) (count : Nat) : unfinished frames count ≤ count := by
  -- By induction on the frames: each one that is complete takes its length off the count.
  induction frames generalizing count with
  | nil => exact Nat.le_refl count
  | cons frame frames ih =>
    rw [unfinished]
    split
    · exact Nat.le_trans (ih _) (Nat.sub_le _ _)
    · exact Nat.le_refl count

/-- Elements that begin the first of some frames, and do not complete it. -/
structure Begun (frames : List (List α)) (bytes : List α) : Prop where
  starts : bytes <+: frames.flatten
  within : ∀ frame rest, frames = frame :: rest → bytes.length < frame.length

/-- Frames that are whole stay in front of whatever the elements behind them complete. -/
theorem completed_append (done rest : List (List α)) (count : Nat) :
    completed (done ++ rest) (done.flatten.length + count) = done ++ completed rest count := by
  induction done with
  | nil => simp
  | cons frame done ih =>
    -- The first frame is whole, and it leaves the others their elements.
    have whole : frame.length ≤ (frame :: done).flatten.length + count := by
      simp only [List.flatten_cons, List.length_append]
      omega
    have left : (frame :: done).flatten.length + count - frame.length =
        done.flatten.length + count := by
      simp only [List.flatten_cons, List.length_append]
      omega
    rw [List.cons_append, completed, if_pos whole, left, ih, List.cons_append]

/-- Whole frames have no part in the one that is not yet completed. -/
theorem unfinished_append (done rest : List (List α)) (count : Nat) :
    unfinished (done ++ rest) (done.flatten.length + count) = unfinished rest count := by
  -- By induction on the completed frames, each of which is taken off the count in turn.
  induction done with
  | nil => simp
  | cons frame done ih =>
    have whole : frame.length ≤ (frame :: done).flatten.length + count := by
      simp only [List.flatten_cons, List.length_append]
      omega
    have left : (frame :: done).flatten.length + count - frame.length =
        done.flatten.length + count := by
      simp only [List.flatten_cons, List.length_append]
      omega
    rw [List.cons_append, unfinished, if_pos whole, left, ih]

/-- What only begins the first frame completes none. -/
theorem Begun.completed {frames : List (List α)} {bytes : List α} (begun : Begun frames bytes) :
    completed frames bytes.length = [] := by
  -- The bytes are shorter than the first frame, so that the count stops there.
  cases frames with
  | nil => rfl
  | cons frame rest =>
    have short := begun.within frame rest rfl
    rw [Rmr.completed, if_neg (by omega)]

/-- What only begins the first frame is all of it unfinished. -/
theorem Begun.unfinished {frames : List (List α)} {bytes : List α} (begun : Begun frames bytes) :
    unfinished frames bytes.length = bytes.length := by
  -- The bytes are shorter than the first frame, so that all of them are left over.
  cases frames with
  | nil => rfl
  | cons frame rest =>
    have short := begun.within frame rest rfl
    rw [Rmr.unfinished, if_neg (by omega)]

/-- Frames followed by the begin of the next one are what their elements complete. -/
theorem completed_begun {done rest : List (List α)} {bytes : List α} (begun : Begun rest bytes) :
    completed (done ++ rest) (done.flatten ++ bytes).length = done := by
  rw [List.length_append, completed_append, begun.completed, List.append_nil]

/-- The elements behind whole frames are those that are unfinished. -/
theorem unfinished_begun {done rest : List (List α)} {bytes : List α} (begun : Begun rest bytes) :
    unfinished (done ++ rest) (done.flatten ++ bytes).length = bytes.length := by
  rw [List.length_append, unfinished_append, begun.unfinished]

/-- Nothing at all begins frames that are not empty. -/
theorem begun_nil {frames : List (List α)} (nonempty : ∀ frame ∈ frames, 0 < frame.length) :
    Begun frames [] := by
  refine ⟨List.nil_prefix, ?_⟩
  intro frame rest split
  exact nonempty frame (by simp [split])

/-- Elements of a stream of frames behind those that complete the first one. -/
theorem prefix_of_whole {frame bytes : List α} {rest : List (List α)}
    (starts : bytes <+: (frame :: rest).flatten) (whole : frame.length ≤ bytes.length) :
    bytes.take frame.length = frame ∧ bytes.drop frame.length <+: rest.flatten := by
  obtain ⟨behind, stream⟩ := starts
  rw [List.flatten_cons] at stream
  -- Both sides of the stream are cut behind the first frame.
  have first := congrArg (List.take frame.length) stream
  have second := congrArg (List.drop frame.length) stream
  rw [List.take_append_of_le_length whole, List.take_left] at first
  rw [List.drop_append_of_le_length whole, List.drop_left] at second
  exact ⟨first, behind, second⟩

end

end Rmr
