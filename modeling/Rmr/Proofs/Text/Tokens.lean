import Rmr.Proofs.Text.Split
import Rmr.Text.Tokens

/-! What the functions that split strings in place do to the memory, and what they find in it. -/

namespace Rmr

open Chars

section
variable {mem next : Chars} {pos : Nat} {str piece rest : CStr} {sep : Char}

namespace Chars

/-- A character of a string, or what ends it, is where it is expected. -/
theorem Holds.getElem? (holds : mem.Holds pos str) {i : Nat} (inside : i < (str ++ [nul]).length) :
    mem[pos + i]? = some (str ++ [nul])[i] := by
  rw [← List.getElem?_drop]
  exact List.prefix_iff_getElem?.mp holds.2 i inside

/-- A string stays as long as its characters do, and what ends it. -/
theorem Holds.keep (holds : mem.Holds pos str)
    (same : ∀ i, pos ≤ i → i ≤ pos + str.length → next[i]? = mem[i]?) : next.Holds pos str := by
  refine ⟨holds.1, List.prefix_iff_getElem?.mpr fun i inside => ?_⟩
  have bound := inside
  rw [List.length_append, List.length_singleton] at bound
  rw [List.getElem?_drop, same _ (by omega) (by omega), holds.getElem? inside]

/-- The memory reaches as far as the end of the string. -/
theorem Holds.inside (holds : mem.Holds pos str) : pos + str.length < mem.length := by
  have last := holds.getElem? (show str.length < (str ++ [nul]).length by simp)
  exact (List.getElem?_eq_some_iff.mp last).1

/-- The first character tells whether a string is empty. -/
theorem Holds.load (holds : mem.Holds pos str) : mem.load pos = .ok (str.headD nul) := by
  -- What is loaded first is the first character, or what ends an empty string.
  have first := holds.getElem? (show 0 < (str ++ [nul]).length by simp)
  rw [Nat.add_zero] at first
  cases str with
  | nil => simp [Chars.load, first]
  | cons c str => simp [Chars.load, first]

/-- No character of a string is what ends it. -/
theorem Holds.headD_ne (holds : mem.Holds pos str) (some_ : str ≠ []) : str.headD nul ≠ nul := by
  cases str with
  | nil => exact absurd rfl some_
  | cons c str => exact fun same => holds.1 (same ▸ List.mem_cons_self ..)

/-- A string is read as it is. -/
theorem Holds.strAt (holds : mem.Holds pos str) : mem.strAt pos = .ok str := by
  obtain ⟨clean, after, whole⟩ := holds
  unfold Chars.strAt
  rw [← whole]
  -- The induction is on the string, of which each character is not what ends it.
  clear whole
  induction str with
  | nil => simp [strOf]
  | cons c str ih =>
    rw [List.mem_cons, not_or] at clean
    simp only [List.cons_append, strOf]
    rw [if_neg (Ne.symm clean.1), ih clean.2]
    rfl

/-- A character that is not in a string is not found. -/
theorem Holds.strchr_none (holds : mem.Holds pos str) (sepIs : sep ≠ nul) (absent : sep ∉ str) :
    mem.strchr pos sep = .ok none := by
  -- By induction on the string, whose end is found before any other character.
  obtain ⟨clean, after, whole⟩ := holds
  unfold strchr
  rw [← whole]
  clear whole
  induction str generalizing pos with
  | nil => simp [indexIn, Ne.symm sepIs]
  | cons c str ih =>
    rw [List.mem_cons, not_or] at clean absent
    simp only [List.cons_append, indexIn]
    rw [if_neg (Ne.symm absent.1), if_neg (Ne.symm clean.1)]
    exact ih absent.2 clean.2

/-- The first place where a string has a character is found. -/
theorem Holds.strchr_some (holds : mem.Holds pos (piece ++ sep :: rest)) (absent : sep ∉ piece) :
    mem.strchr pos sep = .ok (some (pos + piece.length)) := by
  -- By induction on the piece in front of the character.
  obtain ⟨clean, after, whole⟩ := holds
  unfold strchr
  rw [← whole]
  clear whole
  induction piece generalizing pos with
  | nil => simp [indexIn]
  | cons c piece ih =>
    rw [List.mem_cons, not_or] at absent
    rw [List.cons_append, List.mem_cons, not_or] at clean
    simp only [List.cons_append, indexIn]
    rw [if_neg (Ne.symm absent.1), if_neg (Ne.symm clean.1)]
    rw [ih absent.2 clean.2, List.length_cons, Nat.add_assoc, Nat.add_comm 1]

/-- A string is cut in two where one of its characters is replaced by what ends a string. -/
theorem Holds.cut (holds : mem.Holds pos (piece ++ sep :: rest)) :
    ∃ next, mem.store (pos + piece.length) nul = .ok next ∧ next.Holds pos piece ∧
      next.Holds (pos + piece.length + 1) rest ∧
      ∀ i, i ≠ pos + piece.length → next[i]? = mem[i]? := by
  have inside := holds.inside
  have clean := holds.1
  rw [List.length_append, List.length_cons] at inside
  rw [List.mem_append, List.mem_cons, not_or, not_or] at clean
  have others : ∀ i, i ≠ pos + piece.length → (mem.set (pos + piece.length) nul)[i]? = mem[i]? :=
    fun i other => List.getElem?_set_ne (Ne.symm other)
  obtain ⟨_, after, whole⟩ := holds
  refine ⟨_, if_pos (by omega), ⟨clean.1, rest ++ [nul] ++ after, ?_⟩,
    ⟨clean.2.2, after, ?_⟩, others⟩
  · -- What is in front of the cut is followed by what was put there.
    rw [List.drop_set, if_neg (by omega), Nat.add_sub_cancel_left, ← whole]
    simp
  · -- Nothing behind the cut was changed.
    rw [List.drop_set, if_pos (by omega), Nat.add_assoc, ← List.drop_drop, ← whole]
    simp [List.drop_append]

/-- A string that was just copied is where the copy is. -/
theorem holds_strdup (clean : nul ∉ str) : (strdup str).Holds 0 str :=
  ⟨clean, by simp [strdup]⟩

end Chars

/-- The loop stops at a string without a separator. -/
theorem tokeniseLoop_whole (holds : mem.Holds pos str) (sepIs : sep ≠ nul) (absent : sep ∉ str)
    (more : Nat) (tokens : Slots Nat) (n : Nat) :
    tokeniseLoop sep more mem tokens n pos = .ok (mem, tokens, n) := by
  -- There is no separator to find, so that the first turn is the last.
  cases more with
  | zero => rfl
  | succ more =>
    simp only [tokeniseLoop, holds.load, holds.strchr_none sepIs absent, Bind.bind, Except.bind]
    split <;> rfl

/-- One turn of the loop cuts off what is in front of the first separator. -/
theorem tokeniseLoop_cut (holds : mem.Holds pos (piece ++ sep :: rest)) (absent : sep ∉ piece)
    {tokens slots : Slots Nat} {n : Nat} (cut : mem.store (pos + piece.length) nul = .ok next)
    (recorded : tokens.put n (pos + piece.length + 1) = .ok slots) (more : Nat) :
    tokeniseLoop sep (more + 1) mem tokens n pos =
      tokeniseLoop sep more next slots (n + 1) (pos + piece.length + 1) := by
  -- The separator is found behind the piece, and is overwritten there.
  have notEnd := holds.headD_ne (by simp)
  simp only [tokeniseLoop, holds.load, holds.strchr_some absent, cut, recorded, Bind.bind,
    Except.bind, if_neg notEnd]

/-- What the loop leaves: behind the tokens there were, those of the string at `pos`, and the memory
outside of the string as it was. -/
def Extends (mem : Chars) (pos : Nat) (str : CStr) (earlier : List Nat) (strs : List CStr)
    (out : Chars × Slots Nat × Nat) : Prop :=
  ∃ later, out.2.2 = earlier.length + later.length ∧ out.2.1.Filled (earlier ++ later) ∧
    List.Forall₂ out.1.Holds later strs ∧
    ∀ i, i < pos ∨ pos + str.length < i → out.1[i]? = mem[i]?

/-- The loop records the tokens of the string at `pos`, the first of which is recorded already. -/
theorem tokeniseLoop_extends (sepIs : sep ≠ nul) (more : Nat) {tokens : Slots Nat}
    {earlier : List Nat} (holds : mem.Holds pos str) (filled : tokens.Filled (earlier ++ [pos]))
    (room : earlier.length + 1 + more ≤ tokens.length) :
    ∃ out, tokeniseLoop sep more mem tokens (earlier.length + 1) pos = .ok out ∧
      Extends mem pos str earlier (splitRest sep more str) out := by
  -- The induction is on the turns that are left; the last token is the rest of the string so far.
  induction more generalizing mem pos str tokens earlier with
  | zero => exact ⟨_, rfl, [pos], rfl, filled, .cons holds .nil, fun i _ => rfl⟩
  | succ more ih =>
    by_cases among : sep ∈ str
    · obtain ⟨piece, rest, rfl, absent⟩ := List.eq_append_cons_of_mem among
      obtain ⟨next, cut, front, back, same⟩ := holds.cut
      have free : (earlier ++ [pos]).length < tokens.length := by
        rw [List.length_append, List.length_singleton]
        omega
      obtain ⟨slots, recorded, long, refilled⟩ := filled.put free (pos + piece.length + 1)
      rw [List.length_append, List.length_singleton] at recorded
      obtain ⟨out, goesOn, later, count, all, holding, outside⟩ := ih
        back refilled (by rw [List.length_append, List.length_singleton, long]; omega)
      rw [List.length_append, List.length_singleton] at goesOn count
      refine ⟨out, (tokeniseLoop_cut holds absent cut recorded more).trans goesOn, pos :: later,
        ?_, ?_, ?_, ?_⟩
      · rw [count, List.length_cons]
        omega
      · rwa [List.append_assoc] at all
      · -- The token that was cut off is in front of all that the rest of the loop changes.
        rw [splitRest_cut absent]
        exact .cons (front.keep fun i _ before => outside i (.inl (by omega))) holding
      · intro i away
        rw [List.length_append, List.length_cons] at away
        rw [outside i (by omega), same i (by omega)]
    · rw [splitRest_whole among]
      exact ⟨_, tokeniseLoop_whole holds sepIs among _ _ _, [pos], rfl, filled,
        .cons holds .nil, fun i _ => rfl⟩

/-- A string is split in place into its tokens. -/
theorem utaTokeniseAt_records {tokens : Slots Nat} {max : Nat} (holds : mem.Holds pos str)
    (sepIs : sep ≠ nul) (some_ : 1 ≤ max) (room : max ≤ tokens.length) :
    ∃ out, utaTokeniseAt mem pos tokens max sep = .ok out ∧ Recorded out (utaTokenise str max sep) ∧
      ∀ i, i < pos ∨ pos + str.length < i → out.1[i]? = mem[i]? := by
  -- An empty string has no tokens; else the first one is recorded, and the loop records the rest.
  unfold utaTokenise
  by_cases empty : str = []
  · subst empty
    have stops : utaTokeniseAt mem pos tokens max sep = .ok (mem, tokens, 0) := by
      simp only [utaTokeniseAt, holds.load, Bind.bind, Except.bind]
      rfl
    exact ⟨_, stops, ⟨[], rfl, Slots.filled_nil _, .nil⟩, fun i _ => rfl⟩
  · obtain ⟨slots, recorded, long, filled⟩ :=
      (Slots.filled_nil tokens).put (show ([] : List Nat).length < tokens.length from
        Nat.lt_of_lt_of_le some_ room) pos
    obtain ⟨out, looped, later, count, all, holding, outside⟩ :=
      tokeniseLoop_extends sepIs (max - 1) holds
        (show slots.Filled ([] ++ [pos]) from filled)
        (by rw [long, List.length_nil]; omega)
    have splits : utaTokeniseAt mem pos tokens max sep = .ok out := by
      simp only [utaTokeniseAt, holds.load, Bind.bind, Except.bind, if_neg (holds.headD_ne empty)]
      rw [show tokens.put 0 pos = .ok slots from recorded]
      exact looped
    rw [if_neg empty]
    exact ⟨out, splits, ⟨later, by rw [count, List.length_nil, Nat.zero_add], all, holding⟩,
      outside⟩

/-- A token that was recorded can be read. -/
theorem Recorded.read {out : Chars × Slots Nat × Nat} {strs : List CStr}
    (recorded : Recorded out strs) {i : Nat} {tok : CStr} (is : strs[i]? = some tok) :
    ∃ place, out.2.1.read i = .ok place ∧ out.1.strAt place = .ok tok := by
  -- The token's place was put in the slot of its index, and holds the token.
  obtain ⟨places, -, filled, holding⟩ := recorded
  obtain ⟨inside, same⟩ := List.getElem?_eq_some_iff.mp is
  have length := holding.length_eq
  have placed : places[i]? = some places[i] := List.getElem?_eq_getElem (by omega)
  refine ⟨places[i], filled.read placed, ?_⟩
  rw [← same]
  exact (List.Forall₂.get holding (by omega) inside).strAt

/-- There are as many tokens as were recorded. -/
theorem Recorded.count {out : Chars × Slots Nat × Nat} {strs : List CStr}
    (recorded : Recorded out strs) : out.2.2 = strs.length := by
  obtain ⟨places, count, -, holding⟩ := recorded
  rw [count, holding.length_eq]

/-- The search finds the first token that passes the test. -/
theorem searchTokens_finds {out : Chars × Slots Nat × Nat} {strs : List CStr} (test : CStr → Bool)
    (recorded : Recorded out strs) (seen left : List CStr) (all : strs = seen ++ left)
    (none_ : seen.findIdx? test = none) :
    searchTokens test out.1 out.2.1 left.length seen.length = .ok (strs.findIdx? test) := by
  -- The induction is on the tokens that were not looked at, with none found before them.
  induction left generalizing seen with
  | nil =>
    rw [List.append_nil] at all
    rw [all, none_]
    rfl
  | cons tok left ih =>
    obtain ⟨place, found, reads⟩ := recorded.read
      (show strs[seen.length]? = some tok by simp [all])
    simp only [List.length_cons, searchTokens, found, reads, Bind.bind, Except.bind]
    by_cases passes : test tok = true
    · have first : strs.findIdx? test = some seen.length := by
        rw [all, List.findIdx?_append, none_, List.findIdx?_cons, if_pos passes]
        simp
      rw [if_pos passes, first]
      rfl
    · have onward := ih (seen ++ [tok]) (by simp [all]) (by
        rw [List.findIdx?_append, none_, List.findIdx?_cons, if_neg passes]
        simp)
      rw [List.length_append, List.length_singleton] at onward
      rw [if_neg passes, onward]

/-- An address is one of ours when it is in a list that is there. -/
theorem isThisMyipIn_eq (l : Option (List (Option CStr))) (addr : CStr) :
    isThisMyipIn l addr = decide (some addr ∈ l.getD []) := by
  cases l with
  | none => rfl
  | some addrs =>
    -- The induction is on the addresses, some of which may be nil.
    simp only [isThisMyipIn, Option.getD_some]
    induction addrs with
    | nil => rfl
    | cons own addrs ih =>
      rw [List.any_cons, ih]
      cases own with
      | none => simp
      | some own => simp [Bool.decide_or]

/-- One turn keeps the token, behind those that were kept, unless it is one of ours. -/
theorem pruneToken_goes (iplist : Option (List (Option CStr))) {toks : Slots Nat} {kept : List Nat}
    {keptStrs : List CStr} {pcount place : Nat} {tok : CStr} (holds : mem.Holds place tok)
    (filled : toks.Filled kept) (holding : List.Forall₂ mem.Holds kept keptStrs)
    (room : kept.length < toks.length) (counted : 1 ≤ pcount) :
    ∃ slots kept' pcount', pruneToken mem iplist (toks, kept.length, pcount) place =
        .ok (slots, kept'.length, pcount') ∧
      slots.Filled kept' ∧ slots.length = toks.length ∧ kept.length ≤ kept'.length ∧
      kept'.length ≤ kept.length + 1 ∧
      List.Forall₂ mem.Holds kept' (keptStrs ++ [tok].filter fun tok => !isThisMyipIn iplist tok) ∧
      pcount' + 1 + kept.length = pcount + kept'.length := by
  -- A token of ours is skipped, and its place is taken by the next one that is not.
  simp only [pruneToken, holds.strAt, Bind.bind, Except.bind]
  by_cases ours : isThisMyipIn iplist tok = true
  · refine ⟨toks, kept, pcount - 1, if_pos ours, filled, rfl, Nat.le_refl _, Nat.le_succ _, ?_,
      by omega⟩
    rw [List.filter_cons_of_neg (by simp [ours]), List.filter_nil, List.append_nil]
    exact holding
  · obtain ⟨slots, recorded, long, refilled⟩ := filled.put room place
    refine ⟨slots, kept ++ [place], pcount, ?_, refilled, long, by simp, by simp, ?_,
      by simp; omega⟩
    · rw [if_neg ours, recorded, List.length_append, List.length_singleton]
      rfl
    · rw [List.filter_cons_of_pos (by simp [ours]), List.filter_nil]
      exact List.rel_append holding (.cons holds .nil)

/-- The loop keeps the tokens that are not ours. -/
theorem pruneToken_keeps (iplist : Option (List (Option CStr))) {places : List Nat}
    {strs : List CStr} (tokens : List.Forall₂ mem.Holds places strs) {toks : Slots Nat}
    {kept : List Nat} {keptStrs : List CStr} {pcount : Nat} (filled : toks.Filled kept)
    (holding : List.Forall₂ mem.Holds kept keptStrs)
    (room : kept.length + places.length ≤ toks.length) (counted : places.length ≤ pcount) :
    ∃ slots kept' pcount', places.foldlM (pruneToken mem iplist) (toks, kept.length, pcount) =
        .ok (slots, kept'.length, pcount') ∧
      slots.Filled kept' ∧
      List.Forall₂ mem.Holds kept' (keptStrs ++ strs.filter fun tok => !isThisMyipIn iplist tok) ∧
      pcount' + places.length + kept.length = pcount + kept'.length := by
  -- By induction on the tokens: the slots in front hold those that were kept so far.
  induction tokens generalizing toks kept keptStrs pcount with
  | nil =>
    refine ⟨toks, kept, pcount, rfl, filled, ?_, rfl⟩
    rw [List.filter_nil, List.append_nil]
    exact holding
  | @cons place tok places strs first _ ih =>
    rw [List.length_cons] at room counted
    obtain ⟨slots, mid, left, goes, midFilled, long, more, few, midHolding, midCount⟩ :=
      pruneToken_goes iplist first filled holding (by omega) (by omega : 1 ≤ pcount)
    obtain ⟨last, kept', pcount', goesOn, lastFilled, lastHolding, count⟩ :=
      ih midFilled midHolding (by omega) (by omega : places.length ≤ left)
    refine ⟨last, kept', pcount', ?_, lastFilled, ?_, ?_⟩
    · exact foldlM_cons_ok.mpr ⟨_, goes, goesOn⟩
    · rwa [List.append_assoc, ← List.filter_append] at lastHolding
    · rw [List.length_cons]
      omega

/-- There are no more tokens than the limit allows for. -/
theorem length_utaTokenise_le (str : CStr) {max : Nat} (some_ : 1 ≤ max) (sep : Char) :
    (utaTokenise str max sep).length ≤ max := by
  -- The tokens are pieces, the last of which is all that was left of the string.
  rw [utaTokenise_eq_limited]
  unfold limited
  rw [List.length_append, List.length_take]
  split
  · rw [List.length_nil]
    omega
  · rw [List.length_singleton]
    omega

/-- What is left of a string's tokens is recorded when our own are pruned. -/
theorem utaRmipTokeniseAt_records {toks : Slots Nat} {max : Nat}
    (iplist : Option (List (Option CStr))) (holds : mem.Holds pos str) (sepIs : sep ≠ nul)
    (some_ : 1 ≤ max) (room : max ≤ toks.length) :
    ∃ out, utaRmipTokeniseAt mem pos iplist toks max sep = .ok out ∧
      Recorded out ((utaTokenise str max sep).filter fun tok => !isThisMyipIn iplist tok) := by
  -- The string is split first, and then what was recorded is pruned in place.
  obtain ⟨⟨next, allToks, ntoks⟩, splits, ⟨places, count, filled, holding⟩, -⟩ :=
    utaTokeniseAt_records holds sepIs some_ (show max ≤ (Slots.alloc Nat max).length by simp)
  simp only at count filled holding
  have few := length_utaTokenise_le str some_ sep
  rw [← holding.length_eq] at few
  have reads := foldlM_range_read (pruneToken next iplist)
    (fun i place (is : places[i]? = some place) => filled.read is) (toks, 0, ntoks)
  obtain ⟨slots, kept, pcount, pruned, keptFilled, keptHolding, kepts⟩ :=
    pruneToken_keeps iplist holding (Slots.filled_nil toks) .nil
      (by rw [List.length_nil]; omega) (Nat.le_of_eq count.symm)
  rw [List.length_nil] at pruned kepts
  rw [List.nil_append] at keptHolding
  refine ⟨(next, slots, pcount), ?_, kept, by simp only; omega, keptFilled, keptHolding⟩
  simp only [utaRmipTokeniseAt, splits, Bind.bind, Except.bind]
  rw [count] at reads pruned ⊢
  simp only [Bind.bind, Except.bind] at reads
  rw [reads, pruned]
  rfl

/-- The index of the first token that is the string is found, or -1. -/
theorem utaHasStrAt_finds (other : CStr) {max : Nat} (clean : nul ∉ str) (sepIs : sep ≠ nul)
    (two : 2 ≤ max) :
    utaHasStrAt str other sep max =
      .ok (((utaTokenise str max sep).findIdx? (· = other)).elim (-1) fun i => (i : Int)) := by
  -- The string is split in a copy of it, in which the tokens are searched in order.
  obtain ⟨⟨next, tokens, ntokens⟩, splits, recorded, -⟩ :=
    utaTokeniseAt_records (holds_strdup clean) sepIs
      (Nat.le_of_succ_le two) (show max ≤ (Slots.alloc Nat max).length by simp)
  have finds := searchTokens_finds (· = other) recorded [] (utaTokenise str max sep) rfl rfl
  have count := recorded.count
  simp only at finds count
  rw [← count, List.length_nil] at finds
  simp only [utaHasStrAt, if_neg (Nat.not_lt.mpr two), splits, finds, Bind.bind, Except.bind]
  cases (utaTokenise str max sep).findIdx? (· = other) <;> rfl

/-- Whether a token is one of ours is found. -/
theorem hasMyipAt_finds (list : Option (List (Option CStr))) {max : Nat} (clean : nul ∉ str)
    (sepIs : sep ≠ nul) (two : 2 ≤ max) :
    hasMyipAt (some str) list sep max =
      .ok ((utaTokenise str max sep).any (isThisMyipIn list)) := by
  cases list with
  | none =>
    -- Without a list nothing is ours.
    have never : (utaTokenise str max sep).any (isThisMyipIn none) = false :=
      List.any_eq_false.mpr fun tok _ => Bool.false_ne_true
    simp only [hasMyipAt, if_neg (Nat.not_lt.mpr two), never]
    rfl
  | some addrs =>
    obtain ⟨⟨next, tokens, ntokens⟩, splits, recorded, -⟩ :=
      utaTokeniseAt_records (holds_strdup clean) sepIs
        (Nat.le_of_succ_le two) (show max ≤ (Slots.alloc Nat max).length by simp)
    have finds := searchTokens_finds (isThisMyipIn (some addrs)) recorded []
      (utaTokenise str max sep) rfl rfl
    have count := recorded.count
    simp only at finds count
    rw [← count, List.length_nil] at finds
    simp only [hasMyipAt, if_neg (Nat.not_lt.mpr two), splits, finds, Bind.bind, Except.bind]
    rw [List.findIdx?_isSome]
    rfl

/-- A list that is all there has the addresses in it that are its own. -/
theorem isThisMyipIn_some (list : List CStr) :
    isThisMyipIn (some (list.map some)) = isThisMyip list := by
  funext addr
  rw [isThisMyipIn_eq, isThisMyip]
  simp

/-- In place, the tokens that are not ours are those that are not ours of the string. -/
theorem utaRmipTokeniseAt_utaRmipTokenise {toks : Slots Nat} {max : Nat} (list : List CStr)
    (holds : mem.Holds pos str) (sepIs : sep ≠ nul) (some_ : 1 ≤ max) (room : max ≤ toks.length) :
    ∃ out, utaRmipTokeniseAt mem pos (some (list.map some)) toks max sep = .ok out ∧
      Recorded out (utaRmipTokenise str list max sep) := by
  have records := utaRmipTokeniseAt_records (some (list.map some)) holds sepIs some_ room
  rw [isThisMyipIn_some] at records
  exact records

/-- In place, a string is found where it is among the tokens. -/
theorem utaHasStrAt_utaHasStr (other : CStr) (max : Nat) (clean : nul ∉ str) (sepIs : sep ≠ nul) :
    utaHasStrAt str other sep max =
      .ok ((utaHasStr str other sep max).elim (-1) fun i => (i : Int)) := by
  -- With room for less than two tokens neither of them looks for anything.
  by_cases two : 2 ≤ max
  · rw [utaHasStrAt_finds other clean sepIs two, utaHasStr, if_neg (Nat.not_lt.mpr two)]
  · rw [utaHasStr, if_pos (Nat.not_le.mp two), utaHasStrAt, if_pos (Nat.not_le.mp two)]
    rfl

/-- In place, one of ours is found when it is among the tokens. -/
theorem hasMyipAt_hasMyip (list : List CStr) (max : Nat) (clean : nul ∉ str) (sepIs : sep ≠ nul) :
    hasMyipAt (some str) (some (list.map some)) sep max = .ok (hasMyip str list sep max) := by
  -- With room for less than two tokens neither of them looks for anything.
  by_cases two : 2 ≤ max
  · rw [hasMyipAt_finds _ clean sepIs two, hasMyip, if_neg (Nat.not_lt.mpr two), isThisMyipIn_some]
  · rw [hasMyip, if_pos (Nat.not_le.mp two), hasMyipAt, if_pos (Nat.not_le.mp two)]
    rfl

/-- A string that is split in place has its first pieces and then all that is left as tokens, which
are the string when they are joined; what is ours is pruned from them, and looked for among them. -/
theorem utaTokeniseAt_laws {tokens : Slots Nat} {max : Nat} (holds : mem.Holds pos str)
    (sepIs : sep ≠ nul) (some_ : 1 ≤ max) (room : max ≤ tokens.length)
    (iplist : Option (List (Option CStr))) (other : CStr) :
    ∃ toks : List CStr,
      (∃ out, utaTokeniseAt mem pos tokens max sep = .ok out ∧ Recorded out toks) ∧
      toks = limited sep (max - 1) (pieces sep str) ∧
      [sep].intercalate toks = str ∧
      (∀ tok ∈ toks.dropLast, sep ∉ tok) ∧
      (str = [] → toks = []) ∧
      (∃ out, utaRmipTokeniseAt mem pos iplist tokens max sep = .ok out ∧
        Recorded out (toks.filter fun tok => some tok ∉ iplist.getD [])) ∧
      (2 ≤ max → utaHasStrAt str other sep max =
        .ok ((toks.findIdx? (· = other)).elim (-1) fun i => (i : Int))) ∧
      (2 ≤ max → hasMyipAt (some str) iplist sep max =
        .ok (toks.any fun tok => some tok ∈ iplist.getD [])) := by
  -- Each law is that of one function, over the tokens of the string.
  have own : isThisMyipIn iplist = fun tok => decide (some tok ∈ iplist.getD []) :=
    funext (isThisMyipIn_eq iplist)
  obtain ⟨out, splits, recorded, -⟩ := utaTokeniseAt_records holds sepIs some_ room
  have pruned := utaRmipTokeniseAt_records iplist holds sepIs some_ room
  rw [own] at pruned
  refine ⟨utaTokenise str max sep, ⟨out, splits, recorded⟩, utaTokenise_eq_limited str max sep,
    intercalate_utaTokenise str max sep, fun tok => not_mem_of_mem_dropLast, ?_, ?_,
    utaHasStrAt_finds other holds.1 sepIs, ?_⟩
  · intro empty
    rw [utaTokenise, if_pos empty]
  · simpa only [← decide_not] using pruned
  · intro two
    rw [hasMyipAt_finds iplist holds.1 sepIs two, own]

/-- A list with an empty name and a trailing separator, split into at most three tokens. -/
theorem utaTokeniseAt_laws_few :
    ∃ toks : List CStr,
      (∃ out, utaTokeniseAt (strdup "a,,b,".toList) 0 (Slots.alloc Nat 3) 3 ',' = .ok out ∧
        Recorded out toks) ∧
      toks = limited ',' 2 (pieces ',' "a,,b,".toList) ∧
      utaHasStrAt "a,,b,".toList "b,".toList ',' 3 =
        .ok ((toks.findIdx? (· = "b,".toList)).elim (-1) fun i => (i : Int)) := by
  -- All that is asked for of the string and its slots is decided.
  obtain ⟨toks, splits, first, -, -, -, -, finds, -⟩ :=
    utaTokeniseAt_laws
      (show (strdup "a,,b,".toList).Holds 0 "a,,b,".toList from holds_strdup (by decide))
      (show ',' ≠ nul by decide) (show 1 ≤ 3 by decide)
      (show 3 ≤ (Slots.alloc Nat 3).length by decide) none "b,".toList
  exact ⟨toks, splits, first, finds (by decide)⟩

end

end Rmr
