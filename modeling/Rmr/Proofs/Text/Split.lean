import Rmr.Route.Table

/-! What the tokens of a string are, and the keys that are built from numbers. -/

namespace Rmr

/-- The first pieces, and all that is behind them put together again with the separators. -/
def limited (sep : Char) (more : Nat) (all : List CStr) : List CStr :=
  all.take more ++ if all.length ≤ more then [] else [[sep].intercalate (all.drop more)]

/-- The limit has no effect on a list that is within it. -/
theorem limited_of_few {sep : Char} {more : Nat} {all : List CStr} (few : all.length ≤ more + 1) :
    limited sep more all = all := by
  unfold limited
  by_cases less : all.length ≤ more
  · rw [if_pos less, List.take_of_length_le less, List.append_nil]
  · -- There is one piece behind the first ones.
    have last : (all.drop more).length = 1 := by
      rw [List.length_drop]
      omega
    obtain ⟨piece, only⟩ := List.length_eq_one_iff.mp last
    rw [if_neg less, only, List.intercalate_singleton, ← only, List.take_append_drop]

/-- A piece within the limit stands for itself. -/
theorem limited_cons (sep : Char) (more : Nat) (piece : CStr) (all : List CStr) :
    limited sep (more + 1) (piece :: all) = piece :: limited sep more all := by
  simp [limited]

/-- Nothing is lost to the limit. -/
theorem intercalate_limited (sep : Char) (more : Nat) (all : List CStr) :
    [sep].intercalate (limited sep more all) = [sep].intercalate all := by
  -- The induction is on the limit, which takes one piece off the front.
  induction more generalizing all with
  | zero =>
    cases all with
    | nil => rfl
    | cons piece all => simp [limited]
  | succ more ih =>
    cases all with
    | nil => rfl
    | cons piece all =>
      rw [limited_cons]
      cases all with
      | nil => simp [limited]
      | cons next all =>
        have some_ : limited sep more (next :: all) ≠ [] := by
          intro none_
          have joined := ih (next :: all)
          simp only [limited, List.append_eq_nil_iff] at none_
          split at none_ <;> simp_all
        rw [List.intercalate_cons_of_ne_nil some_, ih,
          List.intercalate_cons_of_ne_nil (List.cons_ne_nil next all)]

/-- A string without the separator is one token. -/
theorem splitRest_whole {sep : Char} {buf : CStr} (absent : sep ∉ buf) (more : Nat) :
    splitRest sep more buf = [buf] := by
  -- Without the separator nothing is left behind the first token.
  cases more with
  | zero => rfl
  | succ more =>
    have all : buf.dropWhile (· ≠ sep) = [] := by
      rw [List.dropWhile_eq_nil_iff]
      intro c among
      exact decide_eq_true fun same => absent (same ▸ among)
    simp only [splitRest, all]

/-- The first token is what is in front of the first separator. -/
theorem splitRest_cut {sep : Char} {piece : CStr} (absent : sep ∉ piece) (more : Nat)
    (rest : CStr) :
    splitRest sep (more + 1) (piece ++ sep :: rest) = piece :: splitRest sep more rest := by
  -- The piece has no separator, so that the first one is right behind it.
  have clean : ∀ c ∈ piece, decide (c ≠ sep) = true := fun c among =>
    decide_eq_true fun same => absent (same ▸ among)
  have taken : (piece ++ sep :: rest).takeWhile (· ≠ sep) = piece := by
    rw [List.takeWhile_append_of_pos clean]
    simp
  have dropped : (piece ++ sep :: rest).dropWhile (· ≠ sep) = sep :: rest := by
    rw [List.dropWhile_append_of_pos clean]
    simp
  simp only [splitRest, dropped, taken]

/-- No piece has the separator in it. -/
theorem not_mem_of_mem_splitOn {sep : Char} {buf piece : CStr} (among : piece ∈ buf.splitOn sep) :
    sep ∉ piece := by
  -- A character either ends a piece, or belongs to the first one.
  induction buf generalizing piece with
  | nil =>
    rw [List.splitOn_nil, List.mem_singleton] at among
    simp [among]
  | cons c buf ih =>
    rw [List.splitOn_cons_eq_if_modifyHead] at among
    by_cases ends : c = sep
    · rw [if_pos (by simpa using ends)] at among
      cases among with
      | head => simp
      | tail _ behind => exact ih behind
    · rw [if_neg (by simpa using ends)] at among
      obtain ⟨first, rest, all⟩ := List.exists_cons_of_ne_nil (List.splitOn_ne_nil sep buf)
      rw [all] at among ih
      cases among with
      | head =>
        rw [List.mem_cons, not_or]
        exact ⟨fun same => ends same.symm, ih (List.mem_cons_self ..)⟩
      | tail _ behind => exact ih (List.mem_cons_of_mem _ behind)

/-- The loop of the tokeniser finds the pieces, until it has made as many turns as it may. -/
theorem splitRest_eq_limited (sep : Char) (more : Nat) (buf : CStr) :
    splitRest sep more buf = limited sep more (buf.splitOn sep) := by
  induction more generalizing buf with
  | zero =>
    have some_ := List.length_pos_of_ne_nil (List.splitOn_ne_nil sep buf)
    rw [limited, if_neg (by omega), List.drop_zero, List.intercalate_splitOn]
    rfl
  | succ more ih =>
    by_cases among : sep ∈ buf
    · -- One turn takes off what is in front of the first separator.
      obtain ⟨piece, rest, rfl, absent⟩ := List.eq_append_cons_of_mem among
      rw [splitRest_cut absent, List.splitOn_append_cons_self_of_not_mem absent, ih, limited_cons]
    · rw [splitRest_whole among, List.splitOn_eq_singleton among, limited_of_few (by simp)]

/-- The tokens of a string are its first pieces, and all that is behind them. -/
theorem utaTokenise_eq_limited (buf : CStr) (max : Nat) (sep : Char) :
    utaTokenise buf max sep = limited sep (max - 1) (pieces sep buf) := by
  -- An empty string has no piece and no token.
  unfold utaTokenise pieces
  by_cases empty : buf = []
  · rw [if_pos empty, if_pos empty, limited_of_few (Nat.zero_le _)]
  · rw [if_neg empty, if_neg empty, splitRest_eq_limited]

/-- Put together again with the separator, the tokens are the string. -/
theorem intercalate_utaTokenise (buf : CStr) (max : Nat) (sep : Char) :
    [sep].intercalate (utaTokenise buf max sep) = buf := by
  -- An empty string has no tokens, and joins to itself; else joining undoes splitting.
  rw [utaTokenise_eq_limited, intercalate_limited]
  unfold pieces
  by_cases empty : buf = []
  · rw [if_pos empty, empty]
    rfl
  · rw [if_neg empty, List.intercalate_splitOn]

/-- Only the last token can have the separator in it. -/
theorem not_mem_of_mem_dropLast {buf : CStr} {max : Nat} {sep : Char} {tok : CStr}
    (among : tok ∈ (utaTokenise buf max sep).dropLast) : sep ∉ tok := by
  -- All tokens in front of the last one are pieces.
  have piece : tok ∈ pieces sep buf := by
    rw [utaTokenise_eq_limited] at among
    unfold limited at among
    split at among
    · rw [List.append_nil] at among
      exact List.mem_of_mem_take (List.mem_of_mem_dropLast among)
    · rw [List.dropLast_concat] at among
      exact List.mem_of_mem_take among
  unfold pieces at piece
  split at piece
  · cases piece
  · exact not_mem_of_mem_splitOn piece

/-- The tokens of a string are its pieces, when there is room for all of them. -/
theorem utaTokenise_eq_pieces {buf : CStr} {sep : Char} {max : Nat} (some_ : 0 < max)
    (few : (pieces sep buf).length ≤ max) : utaTokenise buf max sep = pieces sep buf := by
  rw [utaTokenise_eq_limited, limited_of_few (by omega)]

/-- The number that a string starts with is an `int`. -/
theorem inInt_atoi (buf : CStr) : InInt (atoi buf) := by
  unfold atoi
  split
  · exact inInt_toInt _
  · exact inInt_toInt _
  · exact inInt_toInt _

/-- A key has the subscription id in its upper half and the message type in its lower one. -/
theorem toNat_buildRtKey {subId mtype : Int} (subFits : InInt subId) (mtypeFits : InInt mtype) :
    (buildRtKey subId mtype).toNat = toUint subId * 4294967296 + toUint mtype := by
  simp only [InInt, intMin, intMax] at subFits mtypeFits
  have low := toUint_lt mtype
  have halves : ∀ high : Nat, high <<< 32 ||| toUint mtype = high * 4294967296 + toUint mtype := by
    intro high
    rw [← Nat.shiftLeft_add_eq_or_of_lt (by simpa using low), Nat.shiftLeft_eq]
  unfold buildRtKey
  by_cases unset : subId = unsetSubid
  · have ones : toUint subId = 4294967295 := by
      rw [unset]
      decide +kernel
    have upper : (0xffffffff00000000 : UInt64).toNat = 4294967295 <<< 32 := by decide
    rw [if_pos unset, UInt64.toNat_or, upper, UInt64.toNat_ofNat', ones, ← halves]
    by_cases negative : mtype < 0
    · -- The sign bits of the message type fall on bits that are set anyway.
      have extended : (mtype % 18446744073709551616).toNat % 2 ^ 64 =
          4294967295 * 4294967296 + toUint mtype := by
        simp only [toUint]
        omega
      rw [extended, ← halves, ← Nat.or_assoc, Nat.or_self]
    · have plain : (mtype % 18446744073709551616).toNat % 2 ^ 64 = toUint mtype := by
        simp only [toUint]
        omega
      rw [plain]
  · have shifted : ((subId % 18446744073709551616).toNat % 2 ^ 64) <<< 32 % 2 ^ 64 =
        toUint subId <<< 32 := by
      rw [Nat.shiftLeft_eq, Nat.shiftLeft_eq]
      simp only [toUint]
      omega
    have lower : toUint mtype % 2 ^ 64 = toUint mtype := by omega
    have by32 : (32 : UInt64).toNat % 64 = 32 := by decide
    rw [if_neg unset, UInt64.toNat_or, UInt64.toNat_shiftLeft, by32, UInt64.toNat_ofNat',
      UInt64.toNat_ofNat', lower, shifted, halves]

/-- Different pairs have different keys. -/
theorem buildRtKey_inj {subId mtype subId' mtype' : Int} (subFits : InInt subId)
    (mtypeFits : InInt mtype) (subFits' : InInt subId') (mtypeFits' : InInt mtype') :
    buildRtKey subId mtype = buildRtKey subId' mtype' ↔ subId = subId' ∧ mtype = mtype' := by
  -- The key has both numbers as its halves, each of which is read back as an `int`.
  constructor
  · intro same
    have halves := congrArg UInt64.toNat same
    rw [toNat_buildRtKey subFits mtypeFits, toNat_buildRtKey subFits' mtypeFits'] at halves
    have low := toUint_lt mtype
    have low' := toUint_lt mtype'
    have sub : toUint subId = toUint subId' := by omega
    have type_ : toUint mtype = toUint mtype' := by omega
    rw [← toInt_toUint subFits, ← toInt_toUint mtypeFits, sub, type_, toInt_toUint subFits',
      toInt_toUint mtypeFits']
    exact ⟨rfl, rfl⟩
  · rintro ⟨rfl, rfl⟩
    rfl

end Rmr
