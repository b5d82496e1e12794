import Rmr.Proofs.Route.Fill
import Rmr.Proofs.Route.Groups
import Rmr.Proofs.Text.Tokens
import Rmr.Route.Listed

/-! When an entry has all the endpoints that the field of its record lists. -/

namespace Rmr

/-- Lists that are put together from parts of which none is longer on the left are the same exactly
when all parts are. -/
theorem flatMap_eq_iff {α β : Type*} {short long : α → List β} {items : List α}
    (within : ∀ item ∈ items, (short item).length ≤ (long item).length) :
    items.flatMap short = items.flatMap long ↔ ∀ item ∈ items, short item = long item := by
  constructor
  · intro same
    induction items with
    | nil => simp
    | cons item items ih =>
      have rest : ∀ other ∈ items, (short other).length ≤ (long other).length :=
        fun other among => within other (List.mem_cons_of_mem _ among)
      have total : (items.flatMap short).length ≤ (items.flatMap long).length := by
        rw [List.length_flatMap, List.length_flatMap]
        exact List.sum_le_sum rest
      rw [List.flatMap_cons, List.flatMap_cons] at same
      -- The parts have the same lengths, as those of the whole are the same.
      have lengths := congrArg List.length same
      rw [List.length_append, List.length_append] at lengths
      have first := within item (List.mem_cons_self ..)
      obtain ⟨head, tail⟩ := List.append_inj same (by omega)
      intro other among
      cases List.mem_cons.mp among with
      | inl is => rw [is, head]
      | inr behind => exact ih rest tail other behind
  · intro same
    exact List.flatMap_congr same

/-- Splitting at one separator and then at another one is splitting at both. -/
theorem flatMap_splitOn (one other : Char) (text : CStr) :
    (text.splitOn one).flatMap (List.splitOn other) =
      text.splitOnP fun c => c == one || c == other := by
  -- A character ends a piece of the first splitting, one of the second, or none.
  induction text with
  | nil => simp
  | cons c text ih =>
    obtain ⟨first, rest, all⟩ := List.exists_cons_of_ne_nil (List.splitOn_ne_nil one text)
    rw [List.splitOn_cons_eq_if_modifyHead, List.splitOnP_cons_eq_if_modifyHead, ← ih]
    by_cases ends : c = one
    · simp [ends]
    · by_cases endsOther : c = other
      · subst endsOther
        simp [ends, all, List.splitOn_cons_eq_if_modifyHead]
      · obtain ⟨piece, more, split⟩ := List.exists_cons_of_ne_nil (List.splitOn_ne_nil other first)
        simp [ends, endsOther, all, split, List.splitOn_cons_eq_if_modifyHead]

/-- The order of two separators does not matter. -/
theorem splitOn_splitOn (one other : Char) (text : CStr) :
    (text.splitOn one).flatMap (List.splitOn other) =
      (text.splitOn other).flatMap (List.splitOn one) := by
  -- Both are the split at either separator.
  rw [flatMap_splitOn, flatMap_splitOn]
  congr 1
  funext c
  exact Bool.or_comm ..

/-- Splitting the tokens further, the last of which may be the rest of the text, gives the pieces.
-/
theorem flatMap_utaTokenise {text : CStr} (some_ : text ≠ []) (max : Nat) (sep : Char) :
    (utaTokenise text max sep).flatMap (List.splitOn sep) = text.splitOn sep := by
  have single : ∀ pieces : List CStr, (∀ piece ∈ pieces, sep ∉ piece) →
      pieces.flatMap (List.splitOn sep) = pieces := by
    intro pieces clean
    induction pieces with
    | nil => rfl
    | cons piece pieces ih =>
      rw [List.flatMap_cons, List.splitOn_eq_singleton (clean piece (List.mem_cons_self ..)),
        ih fun other among => clean other (List.mem_cons_of_mem _ among)]
      rfl
  have clean : ∀ piece ∈ text.splitOn sep, sep ∉ piece := fun piece => not_mem_of_mem_splitOn
  rw [utaTokenise_eq_limited, pieces, if_neg some_, limited]
  split
  · rename_i few
    rw [List.append_nil, List.take_of_length_le few, single _ clean]
  · -- The rest is made of the pieces that are not tokens of their own.
    rename_i many
    have behind : (text.splitOn sep).drop (max - 1) ≠ [] := by
      rw [ne_eq, List.drop_eq_nil_iff]
      omega
    rw [List.flatMap_append, List.flatMap_singleton,
      single _ fun piece among => clean piece (List.mem_of_mem_take among),
      List.splitOn_intercalate sep
        (fun piece among => clean piece (List.mem_of_mem_drop among)) behind,
      List.take_append_drop]

section
variable {naming : Naming} {conf : RtConf} {text tok name : CStr}

/-- The empty text names nothing. -/
theorem Naming.name_nil (naming : Naming) : naming.name [] = [] :=
  List.eq_nil_iff_forall_not_mem.mpr fun c among => List.not_mem_nil (naming.within [] c among)

/-- The endpoints other than this process that a text lists, whatever group they are in. -/
def listedBy (naming : Naming) (conf : RtConf) (text : CStr) : List CStr :=
  (text.splitOn ';').flatMap (listedIn naming conf)

/-- A text is idle when it lists no endpoint. -/
theorem idle_iff : Idle naming conf text ↔ listedBy naming conf text = [] := by
  rw [listedBy, List.flatMap_eq_nil_iff]
  rfl

/-- What a text lists is found at both separators. -/
theorem listedBy_eq (naming : Naming) (conf : RtConf) (text : CStr) :
    listedBy naming conf text =
      (((text.splitOn ';').flatMap (List.splitOn ',')).map naming.name).filter
        fun name => name ≠ [] && !isOwn conf name := by
  rw [listedBy, List.map_flatMap, List.filter_flatMap]
  rfl

/-- What a group lists is what its tokens list. -/
theorem flatMap_listedBy (text : CStr) (max : Nat) :
    (utaTokenise text max ',').flatMap (listedBy naming conf) = listedBy naming conf text := by
  -- Splitting at all commas is splitting at some of them, and then at the rest.
  by_cases empty : text = []
  · subst empty
    rw [listedBy_eq]
    simp [utaTokenise, naming.name_nil]
  · have tokens := flatMap_utaTokenise empty max ','
    rw [listedBy_eq, splitOn_splitOn, ← tokens, List.flatMap_assoc, List.map_flatMap,
      List.filter_flatMap]
    congr 1
    funext tok
    rw [listedBy_eq, splitOn_splitOn]

/-- What is listed is a name, and not one of this process. -/
theorem clean_of_mem_listedBy (among : name ∈ listedBy naming conf text) :
    Clean naming name ∧ name ≠ [] ∧ isOwn conf name = false := by
  -- What is listed is a piece of a piece, and the naming takes no separator into it.
  rw [listedBy_eq, List.mem_filter, List.mem_map] at among
  obtain ⟨⟨piece, split, rfl⟩, other⟩ := among
  have noSemicolon : ';' ∉ piece := by
    rw [splitOn_splitOn, List.mem_flatMap] at split
    obtain ⟨_, _, last⟩ := split
    exact not_mem_of_mem_splitOn last
  rw [List.mem_flatMap] at split
  obtain ⟨_, _, last⟩ := split
  refine ⟨⟨naming.settled piece, fun c => ?_, fun c => noSemicolon (naming.within piece _ c)⟩, ?_⟩
  · exact not_mem_of_mem_splitOn last (naming.within piece _ c)
  · simpa using other

/-- A name lists itself. -/
theorem Clean.listedBy (clean : Clean naming tok) (some_ : tok ≠ [])
    (other : isOwn conf tok = false) :
    listedBy naming conf tok = [tok] := by
  rw [listedBy_eq, List.splitOn_eq_singleton clean.2.2, List.flatMap_singleton,
    List.splitOn_eq_singleton clean.2.1]
  simp [clean.1, some_, other]

/-- The empty text lists nothing. -/
theorem listedBy_nil (naming : Naming) (conf : RtConf) : listedBy naming conf [] = [] := by
  rw [listedBy_eq]
  simp [naming.name_nil]

/-- The names that `build_entry` takes from tokens, when there is room for so many. -/
def takenNames (conf : RtConf) (room : Nat) (toks : List CStr) : List CStr :=
  ((toks.filter fun tok => !isOwn conf tok).take room).filter (· ≠ [])

/-- Where there is no room, nothing is taken. -/
theorem takenNames_zero (conf : RtConf) (toks : List CStr) : takenNames conf 0 toks = [] := by
  simp [takenNames]

/-- This process is not taken, and needs no room. -/
theorem takenNames_own (own : isOwn conf tok = true) (room : Nat) (toks : List CStr) :
    takenNames conf room (tok :: toks) = takenNames conf room toks := by
  simp [takenNames, own]

/-- Another token takes room, and is taken if it is not empty. -/
theorem takenNames_other (other : isOwn conf tok = false) (room : Nat) (toks : List CStr) :
    takenNames conf (room + 1) (tok :: toks) =
      (if tok = [] then [] else [tok]) ++ takenNames conf room toks := by
  -- An empty token takes its room, but is no name.
  by_cases empty : tok = []
  · subst empty
    simp [takenNames, other]
  · simp [takenNames, other, empty]

/-- When only names are taken, no more of them are than are listed. -/
theorem length_takenNames_le (room : Nat) (toks : List CStr)
    (clean : ∀ name ∈ takenNames conf room toks, Clean naming name) :
    (takenNames conf room toks).length ≤ (toks.flatMap (listedBy naming conf)).length := by
  induction toks generalizing room with
  | nil => simp [takenNames]
  | cons tok toks ih =>
    rw [List.flatMap_cons, List.length_append]
    by_cases own : isOwn conf tok = true
    · rw [takenNames_own own] at clean ⊢
      exact (ih room clean).trans (Nat.le_add_left _ _)
    · have other : isOwn conf tok = false := by simpa using own
      cases room with
      | zero => simp [takenNames_zero]
      | succ room =>
        rw [takenNames_other other] at clean ⊢
        have rest := ih room fun name among => clean name (List.mem_append_right _ among)
        by_cases empty : tok = []
        · rw [if_pos empty, List.nil_append]
          exact rest.trans (Nat.le_add_left _ _)
        · -- A name that is taken is listed.
          rw [if_neg empty] at clean ⊢
          rw [(clean tok (by simp)).listedBy empty other, List.length_append]
          exact Nat.add_le_add_left rest _

/-- All that is listed is taken exactly when the tokens are tidy. -/
theorem takenNames_eq_iff (room : Nat) (toks : List CStr) :
    takenNames conf room toks = toks.flatMap (listedBy naming conf) ↔
      TidyTokens naming conf room toks := by
  induction toks generalizing room with
  | nil => simp [takenNames, TidyTokens]
  | cons tok toks ih =>
    -- What is not taken must list nothing, as there are too few names otherwise.
    have skipped : takenNames conf room (tok :: toks) = takenNames conf room toks →
        (takenNames conf room (tok :: toks) = (tok :: toks).flatMap (listedBy naming conf) ↔
          Idle naming conf tok ∧ TidyTokens naming conf room toks) := by
      intro skips
      rw [skips, List.flatMap_cons, idle_iff, ← ih]
      constructor
      · intro same
        have listed : ∀ name ∈ takenNames conf room toks, Clean naming name := by
          intro name among
          rw [same, ← List.flatMap_cons, List.mem_flatMap] at among
          obtain ⟨_, _, in_⟩ := among
          exact (clean_of_mem_listedBy in_).1
        have few := length_takenNames_le room toks listed
        have lengths := congrArg List.length same
        rw [List.length_append] at lengths
        have nothing := List.eq_nil_of_length_eq_zero
          (show (listedBy naming conf tok).length = 0 by omega)
        rw [nothing, List.nil_append] at same
        exact ⟨nothing, same⟩
      · rintro ⟨nothing, same⟩
        rw [nothing, List.nil_append, same]
    cases room with
    | zero =>
      rw [skipped (by rw [takenNames_zero, takenNames_zero])]
      rfl
    | succ room =>
      by_cases own : isOwn conf tok = true
      · rw [skipped (takenNames_own own _ _), TidyTokens, if_pos own]
      · have other : isOwn conf tok = false := by simpa using own
        rw [TidyTokens, if_neg own, takenNames_other other, List.flatMap_cons, ← ih]
        by_cases empty : tok = []
        · have clean : Clean naming tok := by
            rw [empty]
            exact ⟨naming.name_nil, by simp, by simp⟩
          rw [if_pos empty, List.nil_append, empty, listedBy_nil, List.nil_append]
          rw [empty] at clean
          exact ⟨fun same => ⟨clean, same⟩, fun both => both.2⟩
        · rw [if_neg empty]
          constructor
          · intro same
            have among : tok ∈ listedBy naming conf tok ++ toks.flatMap (listedBy naming conf) := by
              rw [← same]
              simp
            rw [← List.flatMap_cons, List.mem_flatMap] at among
            obtain ⟨_, _, in_⟩ := among
            have clean := (clean_of_mem_listedBy in_).1
            rw [clean.listedBy empty other] at same
            exact ⟨clean, List.append_cancel_left same⟩
          · rintro ⟨clean, same⟩
            rw [clean.listedBy empty other, same]

/-- The names that have an endpoint when all endpoints can be made are those that are not empty. -/
theorem ensureAll_made (names : List CStr) (ephash : List CStr) :
    (ensureAll ephash (names.map fun name => (name, true))).2 = names.map endpointOf := by
  -- By induction on the names.
  induction names generalizing ephash with
  | nil => rfl
  | cons name names ih =>
    have first : (ensureAll ephash ((name :: names).map fun name => (name, true))).2 =
        (RtCtx.rtEnsureEp ephash true name).2 :: (ensureAll (RtCtx.rtEnsureEp ephash true name).1
          (names.map fun name => (name, true))).2 := rfl
    rw [first, rtEnsureEp_made, ih, List.map_cons]

/-- Names that are empty have no endpoint. -/
theorem reduceOption_endpointOf (names : List CStr) :
    (names.map endpointOf).reduceOption = names.filter (· ≠ []) := by
  -- By induction on the names.
  induction names with
  | nil => rfl
  | cons name names ih =>
    by_cases empty : name = []
    · simp [endpointOf, empty, ih]
    · simp [endpointOf, empty, ih]

/-- The names that are added to a group are the tokens that are not this process. -/
theorem addedNames_fst (conf : RtConf) (gtok : CStr) :
    (addedNames conf gtok).map Prod.fst =
      (utaTokenise gtok 64 ',').filter fun tok => !isOwn conf tok := by
  -- The two filters are those of the name and of the addresses of this process.
  have fsts : ∀ toks : List (CStr × Nat),
    (toks.filter fun tok => tok.1 ≠ conf.myName).map Prod.fst =
      (toks.map Prod.fst).filter fun name => name ≠ conf.myName := by
    intro toks
    rw [List.filter_map]
    rfl
  rw [addedNames, fsts, List.zipIdx_map_fst, utaRmipTokenise, List.filter_filter]
  apply List.filter_congr
  intro tok _
  simp [isOwn, isThisMyip, Bool.and_comm]

/-- The endpoints of a slot are the names that were taken for its group. -/
theorem slotOf_names (ephash : List CStr) (gtok : CStr × Nat) :
    ((slotOf conf .ample ephash gtok).getD ⟨[]⟩).epts.reduceOption =
      takenNames conf maxEpGroup (utaTokenise gtok.1 64 ',') := by
  -- With ample memory every name that is not empty gets its endpoint.
  have landed : landedNames conf .ample gtok = addedNames conf gtok.1 := by
    unfold landedNames
    rw [List.dropWhile_eq_self_iff]
    intro _
    simp [Mem.ample]
  have asked : askedNames .ample gtok.2 (addedNames conf gtok.1) =
      ((addedNames conf gtok.1).map Prod.fst).map fun name => (name, true) := by
    simp [askedNames, Mem.ample]
  unfold slotOf
  rw [landed, asked, ensureAll_made, takenNames, ← addedNames_fst]
  by_cases none_ : addedNames conf gtok.1 = []
  · simp [none_]
  · rw [if_neg none_, Option.getD_some, ← List.map_take, reduceOption_endpointOf]

/-- The endpoints of the groups that were filled are the names that were taken. -/
theorem storedNames_slotsOf (gtoks : List (CStr × Nat)) (ephash : List CStr) :
    storedNames (slotsOf conf .ample ephash gtoks) =
      ((gtoks.map fun gtok => takenNames conf maxEpGroup (utaTokenise gtok.1 64 ',')).filter
        (· ≠ [])) := by
  induction gtoks generalizing ephash with
  | nil => rfl
  | cons gtok gtoks ih =>
    have rest := ih (ensureAll ephash (askedNames .ample gtok.2 (landedNames conf .ample gtok))).1
    have first : ((slotOf conf .ample ephash gtok).getD ⟨[]⟩).epts.reduceOption = _ :=
      slotOf_names ephash gtok
    unfold storedNames at rest ⊢
    rw [slotsOf_cons, List.map_append, List.filter_append, rest, List.map_cons,
      ← List.singleton_append (l := List.map _ gtoks), List.filter_append]
    congr 1
    by_cases none_ : addedNames conf gtok.1 = []
    · -- Without a name that is added there is no slot.
      have nothing : takenNames conf maxEpGroup (utaTokenise gtok.1 64 ',') = [] := by
        rw [takenNames, ← addedNames_fst, none_]
        rfl
      rw [if_pos none_, nothing]
      rfl
    · rw [if_neg none_, List.map_singleton, first]

/-- Groups that are nil have no endpoint. -/
theorem storedNames_append_nil (rrgroups : List (Option RrGroup)) (more : Nat) :
    storedNames (rrgroups ++ List.replicate more none) = storedNames rrgroups := by
  simp [storedNames]

/-- The groups that a token of the field lists: one, unless it is the rest of the field. -/
def groupsBy (naming : Naming) (conf : RtConf) (gtok : CStr) : List (List CStr) :=
  ((gtok.splitOn ';').map (listedIn naming conf)).filter (· ≠ [])

/-- The group that is filled for a token of the field, if it has an endpoint. -/
def groupTaken (conf : RtConf) (gtok : CStr) : List (List CStr) :=
  [takenNames conf maxEpGroup (utaTokenise gtok 64 ',')].filter (· ≠ [])

/-- All groups together list what the token lists. -/
theorem flatten_groupsBy (gtok : CStr) :
    (groupsBy naming conf gtok).flatten = listedBy naming conf gtok := by
  rw [groupsBy, listedBy, List.flatMap_def, List.flatten_filter_ne_nil]

/-- The one group is what is listed exactly when the token is tidy. -/
theorem groupTaken_eq_iff (gtok : CStr) :
    groupTaken conf gtok = groupsBy naming conf gtok ↔ TidyGroup naming conf gtok := by
  have tokens : (utaTokenise gtok 64 ',').flatMap (listedBy naming conf) = _ :=
    flatMap_listedBy gtok 64
  have tidy : _ ↔ TidyTokens naming conf maxEpGroup (utaTokenise gtok 64 ',') :=
    takenNames_eq_iff maxEpGroup _
  rw [tokens, ← flatten_groupsBy] at tidy
  unfold TidyGroup
  rw [← tidy]
  show _ ↔ _ ∧ (groupsBy naming conf gtok).length ≤ 1
  have some_ : ∀ group ∈ groupsBy naming conf gtok, group ≠ [] := by
    intro group among
    simpa using (List.mem_filter.mp among).2
  constructor
  · intro same
    rw [← same]
    refine ⟨?_, List.length_filter_le _ _⟩
    unfold groupTaken
    by_cases empty : takenNames conf maxEpGroup (utaTokenise gtok 64 ',') = []
    · simp [empty]
    · simp [empty]
  · rintro ⟨same, few⟩
    unfold groupTaken
    rw [same]
    -- There is no group, or one.
    generalize groupsBy naming conf gtok = groups at some_ few
    match groups with
    | [] => simp
    | [group] => simp [some_ group (by simp)]
    | _ :: _ :: _ => simp at few

/-- The groups that are stored are those that were taken. -/
theorem storedNames_filled (conf : RtConf) (ephash : List CStr) (gtokens : List CStr) :
    storedNames (RtCtx.filled conf .ample ephash gtokens).rrgroups =
      gtokens.flatMap (groupTaken conf) := by
  -- The slots are those of the groups in order, and the empty ones are left out.
  obtain ⟨more, slots⟩ := filled_slots conf .ample ephash gtokens
  have places : (gtokens.zipIdx.map fun gtok => takenNames conf maxEpGroup
      (utaTokenise gtok.1 64 ',')) =
      gtokens.map fun gtok => takenNames conf maxEpGroup (utaTokenise gtok 64 ',') := by
    conv_rhs => rw [← List.zipIdx_map_fst 0 gtokens, List.map_map]
    rfl
  rw [slots, storedNames_append_nil, storedNames_slotsOf, places, List.map_eq_flatMap,
    List.filter_flatMap]
  rfl

/-- The first token of a field is its first piece. -/
theorem head?_utaTokenise {max : Nat} {sep : Char} (some_ : text ≠ []) (two : 2 ≤ max) :
    (utaTokenise text max sep).head? = (text.splitOn sep).head? := by
  obtain ⟨first, rest, all⟩ := List.exists_cons_of_ne_nil (List.splitOn_ne_nil sep text)
  obtain ⟨more, rfl⟩ : ∃ more, max = more + 2 := ⟨max - 2, by omega⟩
  rw [utaTokenise_eq_limited, pieces, if_neg some_, all, limited]
  simp

/-- What is stored is what is listed exactly when the field is tidy. -/
theorem storedNames_eq_iff (ephash : List CStr) {field first : CStr} {rest : List CStr}
    (tokens : utaTokenise field 64 ';' = first :: rest) :
    storedNames (RtCtx.filled conf .ample ephash (RtCtx.groupTokens first rest)).rrgroups =
      wanted naming conf field ↔ Tidy naming conf field := by
  have some_ : field ≠ [] := by
    rintro rfl
    cases tokens
  have head : (utaTokenise field 64 ';').head? = _ := head?_utaTokenise some_ (by decide)
  rw [tokens, List.head?_cons] at head
  rw [storedNames_filled]
  unfold wanted listedGroups Tidy RtCtx.groupTokens
  rw [← head]
  by_cases special : first = ['%', 'm', 'e', 'i', 'd']
  · -- With the special indicator no group is stored.
    rw [if_pos special, if_pos (by rw [special]), if_pos (by rw [special]), List.flatMap_nil]
    constructor
    · intro nothing group among
      have listed := List.filter_eq_nil_iff.mp nothing.symm (listedIn naming conf group)
        (List.mem_map_of_mem among)
      simpa using listed
    · intro nothing
      refine (List.filter_eq_nil_iff.mpr ?_).symm
      intro names among
      obtain ⟨group, there, rfl⟩ := List.mem_map.mp among
      simp [nothing group there]
  · have apart : ¬ some first = some ['%', 'm', 'e', 'i', 'd'] := fun same =>
      special (Option.some.inj same)
    have groups : ((field.splitOn ';').map (listedIn naming conf)).filter (· ≠ []) =
        (first :: rest).flatMap (groupsBy naming conf) := by
      rw [← flatMap_utaTokenise some_ 64 ';', tokens, List.map_flatMap, List.filter_flatMap]
      rfl
    rw [if_neg special, if_neg apart, if_neg apart, groups, tokens]
    constructor
    · intro same
      -- Only names are taken, as what is listed are names.
      have clean : ∀ gtok ∈ first :: rest, ∀ name ∈
          takenNames conf maxEpGroup (utaTokenise gtok 64 ','), Clean naming name := by
        intro gtok among name taken
        have some_ : takenNames conf maxEpGroup (utaTokenise gtok 64 ',') ≠ [] := by
          rintro nothing
          rw [nothing] at taken
          cases taken
        have stored : takenNames conf maxEpGroup (utaTokenise gtok 64 ',') ∈
            (first :: rest).flatMap (groupsBy naming conf) := by
          rw [← same, List.mem_flatMap]
          exact ⟨gtok, among, by simp [groupTaken, some_]⟩
        obtain ⟨other, _, listed⟩ := List.mem_flatMap.mp stored
        have in_ : name ∈ listedBy naming conf other := by
          rw [← flatten_groupsBy]
          exact List.mem_flatten_of_mem listed taken
        exact (clean_of_mem_listedBy in_).1
      have within : ∀ gtok ∈ first :: rest,
          (groupTaken conf gtok).length ≤ (groupsBy naming conf gtok).length := by
        intro gtok among
        have few := length_takenNames_le maxEpGroup _ (clean gtok among)
        rw [flatMap_listedBy, ← flatten_groupsBy] at few
        unfold groupTaken
        by_cases nothing : takenNames conf maxEpGroup (utaTokenise gtok 64 ',') = []
        · simp [nothing]
        · -- What is taken is listed by some group.
          have positive := List.length_pos_of_ne_nil nothing
          have some_ : groupsBy naming conf gtok ≠ [] := by
            intro none_
            rw [none_, List.flatten_nil, List.length_nil] at few
            omega
          simpa [nothing] using Nat.one_le_iff_ne_zero.mpr (mt List.eq_nil_of_length_eq_zero some_)
      intro gtok among
      exact (groupTaken_eq_iff gtok).mp ((flatMap_eq_iff within).mp same gtok among)
    · intro tidy
      exact List.flatMap_congr fun gtok among => (groupTaken_eq_iff gtok).mpr (tidy gtok among)

end

namespace RtCtx
variable {ctx next : RtCtx} {rt : Nat} {table : RouteTable} {conf : RtConf}

/-- What `build_entry` stores for a field that lists something. -/
theorem buildEntry_stores (naming : Naming) (sound : ctx.Sound) (there : ctx.tables rt = some table)
    {tsField rrField : CStr} (forUs : ingests conf (clip tsField) = true)
    (some_ : clip rrField ≠ [])
    (subid : Int) :
    ∃ next table' rte, ctx.buildEntry conf .ample rt (some tsField) subid
      (some rrField) = .ok next ∧
      Edits ctx rt next ∧ next.tables rt = some table' ∧
      (∃ mt, table' = { table with hash.mt := mt }) ∧
      table'.hash.mt.lookup (buildRtKey subid (atoi (clip tsField))) = some ctx.nextRte ∧
      next.rtes ctx.nextRte = some rte ∧
      (storedNames rte.entry.rrgroups = wanted naming conf (clip rrField) ↔
        Tidy naming conf (clip rrField)) := by
  -- The field is not empty, so that it has a first token, and an entry is added for it.
  have tokens : utaTokenise (clip rrField) 64 ';' ≠ [] := by
    intro none_
    have head : (utaTokenise (clip rrField) 64 ';').head? = _ :=
      head?_utaTokenise some_ (by decide)
    rw [none_] at head
    exact List.splitOn_ne_nil ';' (clip rrField) (List.head?_eq_none_iff.mp head.symm)
  obtain ⟨first, rest, split⟩ := List.exists_cons_of_ne_nil tokens
  obtain ⟨next, built, edits, now, new⟩ :=
    buildEntry_adds sound there (rfl : Mem.ample.rte = true) forUs split subid
  exact ⟨next, _, _, built, edits, now, ⟨_, rfl⟩, AList.lookup_insert _, new,
    storedNames_eq_iff ctx.ephash split⟩

/-- `build_entry` leaves the table alone when the record is not for this process, or lists nothing;
and else it stores the endpoints that are listed, without this process, exactly when the field is
tidy. -/
theorem buildEntry_others_iff (sound : ctx.Sound) (there : ctx.tables rt = some table)
    (conf : RtConf) (tsField rrField : CStr) (subid : Int) :
    ∃ next, ctx.buildEntry conf .ample rt (some tsField) subid (some rrField) = .ok next ∧
      (ingests conf (clip tsField) = false ∨ clip rrField = [] → next = ctx) ∧
      (ingests conf (clip tsField) = true → clip rrField ≠ [] → ∃ table' rte,
        next.tables rt = some table' ∧
        table'.hash.mt.lookup (buildRtKey subid (atoi (clip tsField))) = some ctx.nextRte ∧
        next.rtes ctx.nextRte = some rte ∧
        (OthersOnly .stripped conf (clip rrField) rte.entry.rrgroups ↔
          Tidy .stripped conf (clip rrField))) := by
  by_cases stores : ingests conf (clip tsField) = true ∧ clip rrField ≠ []
  · obtain ⟨next, table', rte, built, -, now, -, held, is, same⟩ :=
      buildEntry_stores .stripped sound there stores.1 stores.2 subid
    refine ⟨next, built, ?_, fun _ _ => ⟨table', rte, now, held, is, ?_⟩⟩
    · rintro (notFor | empty)
      · exact absurd stores.1 (by simp [notFor])
      · exact absurd empty stores.2
    · rw [← same]
      constructor
      · exact OthersOnly.all
      · intro all
        refine ⟨fun names among name in_ => ?_, all⟩
        -- What is listed is not this process.
        rw [all, wanted, List.mem_filter, List.mem_map] at among
        obtain ⟨⟨group, _, rfl⟩, _⟩ := among
        obtain ⟨listed, other⟩ := List.mem_filter.mp in_
        obtain ⟨piece, _, rfl⟩ := List.mem_map.mp listed
        rw [Naming.settled]
        simpa using (Bool.and_eq_true_iff.mp other).2
  · have skipped : ingests conf (clip tsField) = true → utaTokenise (clip rrField) 64 ';' = [] := by
      intro forUs
      have empty : clip rrField = [] := by
        by_contra some_
        exact stores ⟨forUs, some_⟩
      rw [empty]
      rfl
    exact ⟨ctx, buildEntry_skips skipped,
      fun _ => rfl, fun forUs some_ => absurd ⟨forUs, some_⟩ stores⟩

/-- A field with two groups, one of which has this process in it. -/
theorem buildEntry_others_two : ∃ next table' rte,
    init.buildEntry confHere .ample 0 (some "1".toList) (-1) (some " a:1,h:1,b:1;c:1 ".toList) =
      .ok next ∧
    next.tables 0 = some table' ∧
    table'.hash.mt.lookup (buildRtKey (-1) (atoi (clip "1".toList))) = some 0 ∧
    next.rtes 0 = some rte ∧
    OthersOnly .stripped confHere (clip " a:1,h:1,b:1;c:1 ".toList) rte.entry.rrgroups := by
  -- The entry is stored, since the record is for this process and has groups.
  obtain ⟨next, built, -, stores⟩ := buildEntry_others_iff init_idle.sound
    (show init.tables 0 = some RouteTable.empty from rfl) confHere "1".toList
    " a:1,h:1,b:1;c:1 ".toList (-1)
  obtain ⟨table', rte, now, held, is, others⟩ := stores (by decide +kernel) (by decide +kernel)
  exact ⟨next, table', rte, built, now, held, is, others.mpr (by decide +kernel)⟩

/-- This process in front of a blank, and the list of an example in the documentation. -/
theorem buildEntry_keeps_itself :
    (∃ next rte,
      init.buildEntry confHere .ample 0 (some "1".toList) (-1) (some "h:1 ,a:1".toList) = .ok next ∧
      next.rtes 0 = some rte ∧ storedNames rte.entry.rrgroups = [["h:1 ".toList, "a:1".toList]] ∧
      ¬ OthersOnly .stripped confHere (clip "h:1 ,a:1".toList) rte.entry.rrgroups) ∧
    ∃ next rte,
      init.buildEntry confHere .ample 0 (some "1".toList) (-1)
        (some "app0:43086,app1:43086; logger:20311".toList) = .ok next ∧
      next.rtes 0 = some rte ∧
      storedNames rte.entry.rrgroups =
        [["app0:43086".toList, "app1:43086".toList], [" logger:20311".toList]] ∧
      ¬ OthersOnly .stripped confHere (clip "app0:43086,app1:43086; logger:20311".toList)
        rte.entry.rrgroups := by
  -- Both fields are evaluated: the name in front of a blank is not that of this process.
  have built : Yields (fun next => (next.rtes 0).map (fun rte => storedNames rte.entry.rrgroups) =
      some [["h:1 ".toList, "a:1".toList]])
      (init.buildEntry confHere .ample 0 (some "1".toList) (-1) (some "h:1 ,a:1".toList)) := by
    decide +kernel
  have builtToo : Yields (fun next => (next.rtes 0).map
      (fun rte => storedNames rte.entry.rrgroups) =
      some [["app0:43086".toList, "app1:43086".toList], [" logger:20311".toList]])
      (init.buildEntry confHere .ample 0 (some "1".toList) (-1)
        (some "app0:43086,app1:43086; logger:20311".toList)) := by
    decide +kernel
  obtain ⟨next, accepted, stored⟩ := built.exists
  obtain ⟨rte, is, names⟩ := Option.map_eq_some_iff.mp stored
  obtain ⟨next', accepted', stored'⟩ := builtToo.exists
  obtain ⟨rte', is', names'⟩ := Option.map_eq_some_iff.mp stored'
  refine ⟨⟨next, rte, accepted, is, names, ?_⟩, next', rte', accepted', is', names', ?_⟩
  · intro others
    have own := others.others ["h:1 ".toList, "a:1".toList]
      (by simp [names]) "h:1 ".toList (by simp)
    exact absurd own (by decide)
  · intro others
    exact absurd (names'.symm.trans others.all) (by decide +kernel)

end RtCtx

end Rmr
