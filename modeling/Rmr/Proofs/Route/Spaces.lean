import Rmr.Proofs.Route.Texts
import Rmr.Proofs.Text.Split
import Rmr.Route.Reading

/-! Laws of comments and blanks: what clipping makes of them, and that a record keeps its kind. -/

namespace Rmr

/-- Trimming takes white space only. -/
theorem mem_trimEnd {c : Char} (dark : isspace c = false) (buf : CStr) : c ∈ trimEnd buf ↔
    c ∈ buf := by
  cases buf with
  | nil => rfl
  | cons first rest =>
    -- What is dropped from the end is white space, and so it is not the character.
    have dropped : c ∈ rest.rdropWhile isspace ↔ c ∈ rest := by
      have turned : c ∈ rest ↔ c ∈ rest.reverse := List.mem_reverse.symm
      rw [List.rdropWhile, List.mem_reverse, turned]
      constructor
      · exact fun among => List.dropWhile_subset _ among
      · intro among
        rw [← List.takeWhile_append_dropWhile (p := isspace) (l := rest.reverse),
          List.mem_append] at among
        refine among.resolve_left fun taken => ?_
        have space := List.mem_takeWhile_imp taken
        simp [dark] at space
    show c ∈ first :: rest.rdropWhile isspace ↔ _
    rw [List.mem_cons, List.mem_cons, dropped]

/-- Trimming keeps the first character. -/
theorem head?_trimEnd (buf : CStr) : (trimEnd buf).head? = buf.head? := by
  cases buf with
  | nil => rfl
  | cons first rest => rfl

/-- What is trimmed is what is left, and white space. -/
theorem trimEnd_splits (buf : CStr) : ∃ space, buf = trimEnd buf ++ space ∧ blank space = true := by
  -- What is left out behind the first character is the longest tail of white space.
  cases buf with
  | nil => exact ⟨[], rfl, rfl⟩
  | cons first rest =>
    refine ⟨rest.rtakeWhile isspace, ?_, ?_⟩
    · show _ = first :: (rest.rdropWhile isspace ++ rest.rtakeWhile isspace)
      rw [List.rdropWhile, List.rtakeWhile, ← List.reverse_append, List.takeWhile_append_dropWhile,
        List.reverse_reverse]
    · rw [blank, List.all_eq_true]
      intro c among
      rw [List.rtakeWhile, List.mem_reverse] at among
      exact List.mem_takeWhile_imp among

/-- What stands in front of a character that a text has is the same with more text behind it. -/
theorem takeWhile_append_of_mem {c : Char} {text : CStr} (among : c ∈ text) (more : CStr) :
    (text ++ more).takeWhile (· ≠ c) = text.takeWhile (· ≠ c) := by
  -- The character is in the text already, so that the scan does not get behind it.
  obtain ⟨piece, rest, rfl, absent⟩ := List.eq_append_cons_of_mem among
  have clean : ∀ other ∈ piece, decide (other ≠ c) = true := fun other inside =>
    decide_eq_true fun same => absent (same ▸ inside)
  rw [List.append_assoc, List.takeWhile_append_of_pos clean, List.takeWhile_append_of_pos clean]
  simp

/-- All of a text stands in front of a character that it does not have. -/
theorem takeWhile_of_not_mem {c : Char} {text : CStr} (absent : c ∉ text) :
    text.takeWhile (· ≠ c) = text :=
  List.takeWhile_eq_self_iff.mpr fun _ inside =>
    decide_eq_true fun same => absent (same ▸ inside)

/-- A text is longer than what stands in front of a character that it has. -/
theorem length_takeWhile_ne {c : Char} {text : CStr} (among : c ∈ text) :
    (text.takeWhile (· ≠ c)).length ≠ text.length := by
  -- If nothing was left out the character would be none of those that the scan stops at.
  intro same
  have all := (List.takeWhile_prefix (· ≠ c)).eq_of_length same
  have clean := List.takeWhile_eq_self_iff.mp all c among
  simp at clean

/-- White space in front is clipped. -/
theorem clip_blank_append {space : CStr} (is : blank space = true) (text : CStr) :
    clip (space ++ text) = clip text := by
  unfold clip
  rw [List.dropWhile_append_of_pos (List.all_eq_true.mp is)]

/-- Clipping of what starts with something else and has no comment sign. -/
theorem clip_of_not_mem {text : CStr} (absent : '#' ∉ text.dropWhile isspace) :
    clip text = trimEnd (text.dropWhile isspace) := by
  simp only [clip, takeWhile_of_not_mem absent, if_true]

/-- Clipping of what has a comment sign: nothing is done with it when it comes first, and what
follows is cut off when it comes after white space. -/
theorem clip_of_mem {text : CStr} (among : '#' ∈ text.dropWhile isspace) :
    clip text =
      if (text.dropWhile isspace).takeWhile (· ≠ '#') = [] then text.dropWhile isspace
      else if (((text.dropWhile isspace).takeWhile (· ≠ '#')).getLast?.map isspace).getD false then
        trimEnd ((text.dropWhile isspace).takeWhile (· ≠ '#'))
      else trimEnd (text.dropWhile isspace) := by
  simp only [clip, length_takeWhile_ne among, if_false]

/-- Clipping takes white space and comments, and so the first character that is left is the first
one that is no white space. -/
theorem head?_clip (text : CStr) : (clip text).head? = (text.dropWhile isspace).head? := by
  -- White space goes first, and a comment sign in front leaves nothing but itself.
  by_cases among : '#' ∈ text.dropWhile isspace
  · rw [clip_of_mem among]
    split
    · rfl
    · rename_i some_
      have first : ((text.dropWhile isspace).takeWhile (· ≠ '#')).head? =
          (text.dropWhile isspace).head? := by
        cases start : text.dropWhile isspace with
        | nil => rfl
        | cons first rest =>
          rw [start] at some_
          by_cases sign : first = '#'
          · simp [sign] at some_
          · simp [sign]
      split
      · rw [head?_trimEnd, first]
      · rw [head?_trimEnd]
  · rw [clip_of_not_mem among, head?_trimEnd]

/-- White space behind a text is clipped, unless the text starts with a comment sign. -/
theorem clip_append_blank (text : CStr) {space : CStr} (is : blank space = true) :
    clip (text ++ space) = clip text ∨
      (clip (text ++ space)).head? = some '#' ∧ (clip text).head? = some '#' := by
  have pale : '#' ∉ space := by
    intro among
    have white := List.all_eq_true.mp is '#' among
    simp [isspace] at white
  cases start : text.dropWhile isspace with
  | nil =>
    -- All is white space.
    have none_ : blank text = true := List.all_eq_true.mpr (List.dropWhile_eq_nil_iff.mp start)
    left
    rw [clip_blank_append none_, ← List.append_nil space, clip_blank_append is,
      ← List.append_nil text, clip_blank_append none_]
  | cons first rest =>
    have start' : (text ++ space).dropWhile isspace = text.dropWhile isspace ++ space := by
      rw [List.dropWhile_append, if_neg (by simp [start])]
    have some_ : text.dropWhile isspace ≠ [] := by
      simp [start]
    by_cases among : '#' ∈ text.dropWhile isspace
    · by_cases sign : (text.dropWhile isspace).takeWhile (· ≠ '#') = []
      · -- It starts with the sign.
        right
        have leads : first = '#' := by
          rw [start] at sign
          simpa using sign
        rw [head?_clip, head?_clip, start', start, leads]
        exact ⟨rfl, rfl⟩
      · left
        rw [clip_of_mem (by rw [start']; exact List.mem_append_left _ among), clip_of_mem among,
          start', takeWhile_append_of_mem among, if_neg sign, if_neg sign, trimEnd_append some_ is]
    · left
      rw [clip_of_not_mem (by rw [start', List.mem_append, not_or]; exact ⟨among, pale⟩),
        clip_of_not_mem among, start', trimEnd_append some_ is]

/-- A comment behind a text is clipped, unless there is no text or it has a comment sign in it
already; and then the sign is not clipped. -/
theorem clip_comment (text comment : CStr) {sep : Char} (white : isspace sep = true) :
    clip (text ++ sep :: '#' :: comment) = clip text ∨
      clip text = [] ∧ (clip (text ++ sep :: '#' :: comment)).head? = some '#' ∨
      ('#' ∈ clip text ∧ '#' ∈ clip (text ++ sep :: '#' :: comment) ∧
        (clip (text ++ sep :: '#' :: comment)).head? = (clip text).head?) := by
  have dark : isspace '#' = false := by decide
  cases start : text.dropWhile isspace with
  | nil =>
    have none_ : blank text = true := List.all_eq_true.mpr (List.dropWhile_eq_nil_iff.mp start)
    right
    left
    constructor
    · rw [← List.append_nil text, clip_blank_append none_]
      rfl
    · rw [clip_blank_append none_, head?_clip, List.dropWhile_cons_of_pos white,
        List.dropWhile_cons_of_neg (by simp [dark])]
      rfl
  | cons first rest =>
    have start' : (text ++ sep :: '#' :: comment).dropWhile isspace =
        text.dropWhile isspace ++ sep :: '#' :: comment := by
      rw [List.dropWhile_append, if_neg (by simp [start])]
    have some_ : text.dropWhile isspace ≠ [] := by
      simp [start]
    have among' : '#' ∈ (text ++ sep :: '#' :: comment).dropWhile isspace := by
      rw [start']
      simp
    have heads : (clip (text ++ sep :: '#' :: comment)).head? = (clip text).head? := by
      rw [head?_clip, head?_clip, start', start]
      rfl
    by_cases among : '#' ∈ text.dropWhile isspace
    · rw [clip_of_mem among', clip_of_mem among] at heads ⊢
      rw [start', takeWhile_append_of_mem among] at heads ⊢
      split
      · -- Nothing is clipped behind a sign that comes first.
        rw [if_pos ‹_›, if_pos ‹_›] at heads
        exact Or.inr (Or.inr ⟨among, List.mem_append_left _ among, heads⟩)
      · split
        · exact Or.inl rfl
        · -- The first sign does not start a word.
          rw [if_neg ‹_›, if_neg ‹_›, if_neg ‹_›, if_neg ‹_›] at heads
          refine Or.inr (Or.inr
            ⟨(mem_trimEnd dark _).mpr among, (mem_trimEnd dark _).mpr ?_, heads⟩)
          exact List.mem_append_left _ among
    · -- The sign of the comment is the first one.
      left
      have front : (text.dropWhile isspace ++ sep :: '#' :: comment).takeWhile (· ≠ '#') =
          text.dropWhile isspace ++ [sep] := by
        have pale : '#' ∉ text.dropWhile isspace ++ [sep] := by
          rw [List.mem_append, List.mem_singleton, not_or]
          refine ⟨among, fun same => ?_⟩
          rw [← same, dark] at white
          cases white
        have split_ : text.dropWhile isspace ++ sep :: '#' :: comment =
            (text.dropWhile isspace ++ [sep]) ++ '#' :: comment := by simp
        rw [split_, List.takeWhile_append_of_pos (List.takeWhile_eq_self_iff.mp
          (takeWhile_of_not_mem pale))]
        simp
      rw [clip_of_mem among', start', front, clip_of_not_mem among, if_neg (by simp),
        if_pos (by simp [white]), trimEnd_append some_ (by simp [blank, white])]

/-- A name with a comment sign is that of no managed element record, so that the first letter tells
the kind. -/
theorem recKind_of_sign {name other : CStr} (sign : '#' ∈ name) (sign' : '#' ∈ other)
    (heads : name.head? = other.head?) : recKind name = recKind other := by
  -- None of the known names has a comment sign, so that only the first letters are looked at.
  have differs : ∀ known ∈ [['m', 's', 'e'], ['m', 'e', 'i', 'd', '_', 'm', 'a', 'p'],
      ['m', 'm', 'e', '_', 'a', 'r'], ['m', 'm', 'e', '_', 'd', 'e', 'l']],
      name ≠ known ∧ other ≠ known := by
    intro known among
    constructor
    · rintro rfl
      revert sign
      fin_cases among <;> decide
    · rintro rfl
      revert sign'
      fin_cases among <;> decide
  simp only [List.forall_mem_cons] at differs
  unfold recKind
  rw [heads]
  simp only [differs, if_false]

/-- What starts with a comment sign is a comment. -/
theorem recKind_of_head {name : CStr} (head : name.head? = some '#') : recKind name = .other := by
  unfold recKind
  rw [head]
  rfl

/-- The kind does not depend on white space behind the name. -/
theorem recKind_append_blank (text : CStr) {space : CStr} (is : blank space = true) :
    recKind (clip (text ++ space)) = recKind (clip text) := by
  -- What is clipped is the same, or starts with a comment sign either way.
  rcases clip_append_blank text is with same | ⟨head, head'⟩
  · rw [same]
  · rw [recKind_of_head head, recKind_of_head head']

/-- The kind does not depend on a comment behind the name. -/
theorem recKind_comment (text comment : CStr) {sep : Char} (white : isspace sep = true) :
    recKind (clip (text ++ sep :: '#' :: comment)) = recKind (clip text) := by
  -- By what is left of the name: all of it, nothing, or a comment sign.
  rcases clip_comment text comment white with same | ⟨none_, head⟩ | ⟨sign, sign', heads⟩
  · rw [same]
  · rw [recKind_of_head head, none_]
    rfl
  · exact recKind_of_sign sign' sign heads

/-- The kind of a record. -/
def kindOf (buf : CStr) : RecKind := recKind (clip (buf.takeWhile (· ≠ '|')))

/-- White space has no field separator in it. -/
theorem takeWhile_blank {space : CStr} (is : blank space = true) :
    space.takeWhile (· ≠ '|') = space := by
  refine takeWhile_of_not_mem fun among => ?_
  have white := List.all_eq_true.mp is '|' among
  simp [isspace] at white

/-- The name of a record, with the white space around it, is that of the record without white space
around it. -/
theorem name_trimmed (buf : CStr) : ∃ front back, blank front = true ∧ blank back = true ∧
    buf.takeWhile (· ≠ '|') = front ++ ((trimmed buf).takeWhile (· ≠ '|') ++ back) := by
  -- The name ends at the first bar; without one the white space behind the record belongs to it.
  have front : blank (buf.takeWhile isspace) = true :=
    List.all_eq_true.mpr fun c among => List.mem_takeWhile_imp among
  obtain ⟨back, splits, is⟩ := trimEnd_splits (buf.dropWhile isspace)
  have whole : buf = buf.takeWhile isspace ++ (trimmed buf ++ back) := by
    rw [trimmed, ← splits, List.takeWhile_append_dropWhile]
  have clear := List.takeWhile_eq_self_iff.mp (takeWhile_blank front)
  by_cases among : '|' ∈ trimmed buf
  · refine ⟨buf.takeWhile isspace, [], front, rfl, ?_⟩
    conv_lhs => rw [whole]
    rw [List.takeWhile_append_of_pos clear, takeWhile_append_of_mem among, List.append_nil]
  · refine ⟨buf.takeWhile isspace, back, front, is, ?_⟩
    conv_lhs => rw [whole]
    rw [List.takeWhile_append_of_pos clear, List.takeWhile_append_of_pos
      (List.takeWhile_eq_self_iff.mp (takeWhile_of_not_mem among)), takeWhile_blank is,
      takeWhile_of_not_mem among]

/-- A record has the kind that its name has once the record is trimmed. -/
theorem kindOf_trimmed (buf : CStr) : kindOf (trimmed buf) = kindOf buf := by
  obtain ⟨front, back, white, white', name⟩ := name_trimmed buf
  rw [kindOf, kindOf, name, clip_blank_append white, recKind_append_blank _ white']

/-- A record with nothing in it is of no kind. -/
theorem kindOf_of_nil {buf : CStr} (none_ : utaTokenise (trimmed buf) 128 '|' = []) :
    kindOf buf = .other := by
  -- A string that has tokens has a first one, so that there was nothing to split.
  have empty : trimmed buf = [] := by
    by_contra some_
    rw [utaTokenise, if_neg some_] at none_
    by_cases among : '|' ∈ trimmed buf
    · obtain ⟨piece, rest, whole, absent⟩ := List.eq_append_cons_of_mem among
      rw [whole, splitRest_cut absent] at none_
      cases none_
    · rw [splitRest_whole among] at none_
      cases none_
  rw [← kindOf_trimmed, empty]
  rfl

/-- The kind is told by the first token. -/
theorem kindOf_of_cons {buf name : CStr} {fields : List CStr}
    (tokens : utaTokenise (trimmed buf) 128 '|' = name :: fields) :
    recKind (clip name) = kindOf buf := by
  -- The first token is what is in front of the first bar, or all of the record.
  have some_ : trimmed buf ≠ [] := by
    intro none_
    rw [none_] at tokens
    cases tokens
  rw [← kindOf_trimmed, kindOf]
  rw [utaTokenise, if_neg some_] at tokens
  by_cases among : '|' ∈ trimmed buf
  · obtain ⟨piece, rest, whole, absent⟩ := List.eq_append_cons_of_mem among
    have front : (trimmed buf).takeWhile (· ≠ '|') = piece := by
      rw [whole, List.takeWhile_append_of_pos (List.takeWhile_eq_self_iff.mp
        (takeWhile_of_not_mem absent))]
      simp
    rw [whole, splitRest_cut absent] at tokens
    rw [front, (List.cons.inj tokens).1]
  · rw [splitRest_whole among] at tokens
    rw [takeWhile_of_not_mem among, (List.cons.inj tokens).1]

/-- Spaces and tabs are white space. -/
theorem Blanks.blank {space : CStr} (is : Blanks space) : blank space = true := by
  refine List.all_eq_true.mpr fun c among => ?_
  rcases is c among with rfl | rfl <;> decide

/-- With blanks around the separators there are just as many fields, and only blanks are added to
the name. -/
theorem Spaced.name {rec other : CStr} (spaced : Spaced rec other) :
    ('|' ∈ other ↔ '|' ∈ rec) ∧ ∃ space, Rmr.blank space = true ∧
      other.takeWhile (· ≠ '|') = rec.takeWhile (· ≠ '|') ++ space := by
  -- By induction on the record: a blank is added in front of a bar, or behind one.
  induction spaced with
  | nil => exact ⟨Iff.rfl, [], rfl, rfl⟩
  | keep c spaced ih =>
    obtain ⟨seps, space, white, same⟩ := ih
    refine ⟨by rw [List.mem_cons, List.mem_cons, seps], ?_⟩
    by_cases sep : c = '|'
    · exact ⟨[], rfl, by simp [sep]⟩
    · refine ⟨space, white, ?_⟩
      have clear : decide (c ≠ '|') = true := decide_eq_true sep
      rw [List.takeWhile_cons, List.takeWhile_cons, if_pos clear, if_pos clear, same,
        List.cons_append]
  | @around before after rec other blanks blanks' spaced ih =>
    refine ⟨iff_of_true (by simp) (List.mem_cons_self ..), before, blanks.blank, ?_⟩
    rw [List.takeWhile_append_of_pos (List.takeWhile_eq_self_iff.mp (takeWhile_blank blanks.blank))]
    simp

/-- Comments and blanks do not change the kind of a record. -/
theorem Changed.kindOf_eq {rec other : CStr} (changed : Changed rec other) :
    kindOf other = kindOf rec := by
  unfold kindOf
  cases changed with
  | spaced spaced =>
    obtain ⟨-, space, white, same⟩ := spaced.name
    rw [same, recKind_append_blank _ white]
  | @commented other text sep spaced is _ =>
    obtain ⟨seps, space, white, same⟩ := spaced.name
    by_cases among : '|' ∈ other
    · -- The comment is in another field.
      rw [takeWhile_append_of_mem among, same, recKind_append_blank _ white]
    · have dark : decide ('#' ≠ '|') = true := rfl
      have clear : decide (sep ≠ '|') = true := by
        rcases is with rfl | rfl <;> rfl
      have space_ : isspace sep = true := by
        rcases is with rfl | rfl <;> rfl
      rw [List.takeWhile_append_of_pos (List.takeWhile_eq_self_iff.mp (takeWhile_of_not_mem among)),
        List.takeWhile_cons, if_pos clear, List.takeWhile_cons, if_pos dark,
        recKind_comment _ _ space_, ← takeWhile_of_not_mem among, same,
          recKind_append_blank _ white]

end Rmr
