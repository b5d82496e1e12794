import Rmr.Proofs.Route.Active
import Rmr.Proofs.Route.Select

/-! The groups that `build_entry` fills, and when they are good ones. -/

namespace Rmr

variable {conf : RtConf} {mem : Mem}

/-- The endpoints that names get one after the other, with the names that then have one. -/
def ensureAll (ephash : List CStr) : List (CStr × Bool) → List CStr × List (Option CStr)
  | [] => (ephash, [])
  | ask :: asks =>
    let (ephash, ep) := RtCtx.rtEnsureEp ephash ask.2 ask.1
    let (ephash, eps) := ensureAll ephash asks
    (ephash, ep :: eps)

/-- A name gets an endpoint when it is not empty, and has one already or one can be made. -/
theorem rtEnsureEp_isSome (ephash : List CStr) (made : Bool) (epName : CStr) :
    (RtCtx.rtEnsureEp ephash made epName).2 ≠ none ↔
      epName ≠ [] ∧ (epName ∈ ephash ∨ made = true) := by
  -- The cases are those of `rt_ensure_ep`: an empty name, one that is known, and a new one.
  unfold RtCtx.rtEnsureEp
  split
  · simp_all
  · split
    · simp_all
    · split
      · simp_all
      · simp_all

/-- The names that have an endpoint after one was asked for. -/
theorem mem_rtEnsureEp (ephash : List CStr) (made : Bool) (epName name : CStr) :
    name ∈ (RtCtx.rtEnsureEp ephash made epName).1 ↔
      name ∈ ephash ∨ (name = epName ∧ epName ≠ [] ∧ made = true) := by
  unfold RtCtx.rtEnsureEp
  split
  · simp_all
  · split
    · -- The name is known, so that nothing is added.
      rename_i known
      constructor
      · exact Or.inl
      · rintro (before | ⟨rfl, _⟩)
        · exact before
        · exact known
    · split
      · simp_all
      · simp_all

/-- The names that have an endpoint after all were asked for. -/
theorem mem_ensureAll (asks : List (CStr × Bool)) (ephash : List CStr) (name : CStr) :
    name ∈ (ensureAll ephash asks).1 ↔ name ∈ ephash ∨ (name ≠ [] ∧ (name, true) ∈ asks) := by
  -- By induction on what is asked for; only a new endpoint adds its name.
  induction asks generalizing ephash with
  | nil => simp [ensureAll]
  | cons ask asks ih =>
    show name ∈ (ensureAll (RtCtx.rtEnsureEp ephash ask.2 ask.1).1 asks).1 ↔ _
    rw [ih, mem_rtEnsureEp, List.mem_cons, Prod.ext_iff]
    constructor
    · rintro ((before | ⟨rfl, some_, made⟩) | ⟨some_, later⟩)
      · exact Or.inl before
      · exact Or.inr ⟨some_, Or.inl ⟨rfl, made.symm⟩⟩
      · exact Or.inr ⟨some_, Or.inr later⟩
    · rintro (before | ⟨some_, ⟨same, made⟩ | later⟩)
      · exact Or.inl (Or.inl before)
      · exact Or.inl (Or.inr ⟨same, same ▸ some_, made.symm⟩)
      · exact Or.inr ⟨some_, later⟩

/-- There is one outcome for each name. -/
theorem length_ensureAll (asks : List (CStr × Bool)) (ephash : List CStr) :
    (ensureAll ephash asks).2.length = asks.length := by
  -- By induction on the names, from the names that are there before each of them.
  induction asks generalizing ephash with
  | nil => rfl
  | cons ask asks ih =>
    show ((ensureAll (RtCtx.rtEnsureEp ephash ask.2 ask.1).1 asks).2).length + 1 = _
    rw [ih, List.length_cons]

/-- Names that are asked for in two parts. -/
theorem ensureAll_append (asks later : List (CStr × Bool)) (ephash : List CStr) :
    ensureAll ephash (asks ++ later) =
      ((ensureAll (ensureAll ephash asks).1 later).1,
        (ensureAll ephash asks).2 ++ (ensureAll (ensureAll ephash asks).1 later).2) := by
  -- By induction on the first part, which the names known are handed through.
  induction asks generalizing ephash with
  | nil => rfl
  | cons ask asks ih =>
    show ((ensureAll (RtCtx.rtEnsureEp ephash ask.2 ask.1).1 (asks ++ later)).1, _ ::
      (ensureAll (RtCtx.rtEnsureEp ephash ask.2 ask.1).1 (asks ++ later)).2) = _
    rw [ih]
    rfl

/-- The outcome for one name among others. -/
theorem getElem?_ensureAll (early late : List (CStr × Bool)) (ask : CStr × Bool)
    (ephash : List CStr) : (ensureAll ephash (early ++ ask :: late)).2[early.length]? =
      some (RtCtx.rtEnsureEp (ensureAll ephash early).1 ask.2 ask.1).2 := by
  -- The names in front of it have one outcome each.
  rw [ensureAll_append]
  have place := length_ensureAll early ephash
  rw [← place, List.getElem?_append_right le_rfl, Nat.sub_self]
  rfl

/-- What fills one group. -/
def slotOf (conf : RtConf) (mem : Mem) (ephash : List CStr) (gtok : CStr × Nat) : Option RrGroup :=
  if landedNames conf mem gtok = [] then none
  else some ⟨((ensureAll ephash (askedNames mem gtok.2 (landedNames conf mem gtok))).2).take
    maxEpGroup⟩

/-- The slots that are filled, one for each group with a name that is added. -/
def slotsOf (conf : RtConf) (mem : Mem) (ephash : List CStr) :
    List (CStr × Nat) → List (Option RrGroup)
  | [] => []
  | gtok :: gtoks =>
    let rest := slotsOf conf mem
      (ensureAll ephash (askedNames mem gtok.2 (landedNames conf mem gtok))).1 gtoks
    if addedNames conf gtok.1 = [] then rest else slotOf conf mem ephash gtok :: rest

/-- A group that is there takes the endpoints of further names, as long as there is room. -/
theorem fillEps_more (grp : Nat) (toks : List (CStr × Nat)) (filling : Filling)
    {epts : List (Option CStr)} (there : filling.rrgroups[filling.cgidx]? = some (some ⟨epts⟩))
    (fits : epts.length ≤ maxEpGroup) (has : filling.hasEp = true) :
    toks.foldl (fillEp conf mem grp) filling =
      { ephash := (ensureAll filling.ephash
          (askedNames mem grp (toks.filter fun tok => tok.1 ≠ conf.myName))).1
        rrgroups := filling.rrgroups.set filling.cgidx (some ⟨(epts ++ (ensureAll filling.ephash
          (askedNames mem grp (toks.filter fun tok => tok.1 ≠ conf.myName))).2).take maxEpGroup⟩)
        cgidx := filling.cgidx
        hasEp := true } := by
  induction toks generalizing filling epts with
  | nil =>
    -- The group stays as it is.
    obtain ⟨inside, at_⟩ := List.getElem?_eq_some_iff.mp there
    have same : filling.rrgroups.set filling.cgidx (some ⟨epts⟩) = filling.rrgroups := by
      rw [← at_, List.set_getElem_self]
    have whole : (epts ++ []).take maxEpGroup = epts := by
      rw [List.append_nil, List.take_of_length_le fits]
    simp only [List.foldl_nil, List.filter_nil, askedNames, List.map_nil, ensureAll, whole, same]
    rw [← has]
  | cons tok toks ih =>
    obtain ⟨inside, _⟩ := List.getElem?_eq_some_iff.mp there
    rw [List.foldl_cons]
    by_cases ours : tok.1 = conf.myName
    · have skipped : fillEp conf mem grp filling tok = filling := by rw [fillEp, if_pos ours]
      rw [skipped, ih filling there fits has, List.filter_cons_of_neg (by simpa using ours)]
    · -- One endpoint more, unless the group is full; its name is asked for in either case.
      have added : fillEp conf mem grp filling tok =
          { ephash := (RtCtx.rtEnsureEp filling.ephash (mem.ep grp tok.2) tok.1).1
            rrgroups := filling.rrgroups.set filling.cgidx (some ⟨(epts ++
              [(RtCtx.rtEnsureEp filling.ephash (mem.ep grp tok.2) tok.1).2]).take maxEpGroup⟩)
            cgidx := filling.cgidx
            hasEp := true } := by
        unfold fillEp
        rw [if_neg ours]
        simp only [RtCtx.utaAddEp, there, reduceCtorEq, false_and, if_false, Option.getD_some]
        split
        · rename_i full
          have exact_ : epts.length = maxEpGroup := Nat.le_antisymm fits full
          rw [List.take_append_of_le_length (Nat.le_of_eq exact_.symm),
            List.take_of_length_le fits]
        · rename_i room
          rw [List.take_of_length_le]
          rw [List.length_append, List.length_singleton]
          omega
      rw [added, ih _ (List.getElem?_set_self inside) (List.length_take_le _ _) rfl,
        List.filter_cons_of_pos (by simpa using ours)]
      simp only [List.set_set, askedNames, List.map_cons, ensureAll]
      congr 4
      -- Taking what fits once more changes nothing.
      by_cases room : epts.length < maxEpGroup
      · rw [List.take_of_length_le (l := epts ++ [_])]
        · rw [List.append_assoc, List.singleton_append]
        · rw [List.length_append, List.length_singleton]
          omega
      · have exact_ : maxEpGroup ≤ epts.length := Nat.not_lt.mp room
        rw [List.take_append_of_le_length exact_, List.take_of_length_le fits,
          List.take_append_of_le_length exact_, List.take_append_of_le_length exact_]

/-- A group that is not there yet takes names from the first one on that it can be made for. -/
theorem fillEps_first (grp : Nat) (toks : List (CStr × Nat)) (filling : Filling)
    (empty : filling.rrgroups[filling.cgidx]? = some none) {names landed : List (CStr × Nat)}
    (namesAre : names = toks.filter fun tok => tok.1 ≠ conf.myName)
    (landedAre : landed = names.dropWhile fun tok => mem.group grp tok.2 = false) :
    toks.foldl (fillEp conf mem grp) filling =
      { ephash := (ensureAll filling.ephash (askedNames mem grp landed)).1
        rrgroups := filling.rrgroups.set filling.cgidx (if landed = [] then none else
          some ⟨((ensureAll filling.ephash (askedNames mem grp landed)).2).take maxEpGroup⟩)
        cgidx := filling.cgidx
        hasEp := filling.hasEp || decide (names ≠ []) } := by
  induction toks generalizing filling names with
  | nil =>
    -- No name is left, and the slot is nil as it was.
    obtain ⟨inside, at_⟩ := List.getElem?_eq_some_iff.mp empty
    obtain rfl : names = [] := namesAre
    obtain rfl : landed = [] := landedAre
    have same : filling.rrgroups.set filling.cgidx none = filling.rrgroups := by
      rw [← at_, List.set_getElem_self]
    simp [askedNames, ensureAll, same]
  | cons tok toks ih =>
    obtain ⟨inside, at_⟩ := List.getElem?_eq_some_iff.mp empty
    rw [List.foldl_cons]
    by_cases ours : tok.1 = conf.myName
    · have skipped : fillEp conf mem grp filling tok = filling := by rw [fillEp, if_pos ours]
      rw [List.filter_cons_of_neg (by simpa using ours)] at namesAre
      rw [skipped]
      exact ih filling empty namesAre landedAre
    · rw [List.filter_cons_of_pos (by simpa using ours)] at namesAre
      by_cases lost : mem.group grp tok.2 = false
      · -- The group cannot be made for this name, which counts as one all the same.
        have failed : fillEp conf mem grp filling tok = { filling with hasEp := true } := by
          unfold fillEp
          rw [if_neg ours]
          simp only [RtCtx.utaAddEp, empty, lost, and_self, if_true]
        rw [namesAre, List.dropWhile_cons_of_pos (by simpa using lost)] at landedAre
        have rest := ih { filling with hasEp := true } empty rfl landedAre
        rw [failed, namesAre]
        exact rest.trans (by simp)
      · -- The group is made, and the names after this one are added to it.
        have made : mem.group grp tok.2 = true := by simpa using lost
        have added : fillEp conf mem grp filling tok =
            { ephash := (RtCtx.rtEnsureEp filling.ephash (mem.ep grp tok.2) tok.1).1
              rrgroups := filling.rrgroups.set filling.cgidx (some
                ⟨[(RtCtx.rtEnsureEp filling.ephash (mem.ep grp tok.2) tok.1).2]⟩)
              cgidx := filling.cgidx
              hasEp := true } := by
          unfold fillEp
          rw [if_neg ours]
          simp [RtCtx.utaAddEp, empty, made, maxEpGroup]
        rw [namesAre, List.dropWhile_cons_of_neg (by simpa using made)] at landedAre
        rw [added, fillEps_more grp toks _ (List.getElem?_set_self inside)
          (by simp [maxEpGroup]) rfl,
          landedAre, namesAre]
        simp [askedNames, ensureAll]

/-- One group is filled; the next one to fill is another one if a name was added. -/
theorem fillGroup_slot (filling : Filling) (gtok : CStr × Nat)
    (empty : filling.rrgroups[filling.cgidx]? = some none) (fresh : filling.hasEp = false) :
    fillGroup conf mem filling gtok =
      { ephash := (ensureAll filling.ephash
          (askedNames mem gtok.2 (landedNames conf mem gtok))).1
        rrgroups := filling.rrgroups.set filling.cgidx (slotOf conf mem filling.ephash gtok)
        cgidx := if addedNames conf gtok.1 = [] then filling.cgidx else filling.cgidx + 1
        hasEp := false } := by
  have filled : (utaRmipTokenise gtok.1 conf.ipList 64 ',').zipIdx.foldl
      (fillEp conf mem gtok.2) filling =
        { ephash := (ensureAll filling.ephash
            (askedNames mem gtok.2 (landedNames conf mem gtok))).1
          rrgroups := filling.rrgroups.set filling.cgidx (slotOf conf mem filling.ephash gtok)
          cgidx := filling.cgidx
          hasEp := filling.hasEp || decide (addedNames conf gtok.1 ≠ []) } :=
    fillEps_first gtok.2 (utaRmipTokenise gtok.1 conf.ipList 64 ',').zipIdx filling empty rfl rfl
  unfold fillGroup
  simp only [filled, fresh, Bool.false_or, decide_eq_true_eq]
  by_cases none_ : addedNames conf gtok.1 = []
  · -- Without a name that is added the group stays the one to fill.
    have lost : landedNames conf mem gtok = [] := by rw [landedNames, none_]; rfl
    rw [if_neg (fun all => all.2 none_)]
    simp [slotOf, lost, none_]
  · have some_ : (utaRmipTokenise gtok.1 conf.ipList 64 ',').length > 0 := by
      apply List.length_pos_of_ne_nil
      intro nil_
      rw [addedNames, nil_] at none_
      exact none_ rfl
    rw [if_pos ⟨some_, none_⟩, if_neg none_]

/-- All groups are filled one after the other, those with a name that is added. -/
theorem fillGroups_slots (gtoks : List (CStr × Nat)) (done : List (Option RrGroup)) (more : Nat)
    (ephash : List CStr) (room : gtoks.length ≤ more) :
    (gtoks.foldl (fillGroup conf mem)
        ⟨ephash, done ++ List.replicate more none, done.length, false⟩).rrgroups =
      done ++ slotsOf conf mem ephash gtoks ++
        List.replicate (more - (slotsOf conf mem ephash gtoks).length) none := by
  induction gtoks generalizing done more ephash with
  | nil => simp [slotsOf]
  | cons gtok gtoks ih =>
    rw [List.length_cons] at room
    obtain ⟨less, rfl⟩ : ∃ less, more = less + 1 := ⟨more - 1, by omega⟩
    rw [List.foldl_cons, fillGroup_slot ⟨ephash, done ++ List.replicate (less + 1) none,
      done.length, false⟩ gtok (by simp) rfl]
    unfold slotsOf
    by_cases none_ : addedNames conf gtok.1 = []
    · -- The slot is still nil.
      have lost : landedNames conf mem gtok = [] := by rw [landedNames, none_]; rfl
      have same : (done ++ List.replicate (less + 1) (none : Option RrGroup)).set done.length none =
          done ++ List.replicate (less + 1) none := by
        simp [List.replicate_succ]
      simp only [none_, if_true, slotOf, lost, same]
      exact ih done (less + 1) _ (by omega)
    · have set : (done ++ List.replicate (less + 1) (none : Option RrGroup)).set done.length
          (slotOf conf mem ephash gtok) =
          (done ++ [slotOf conf mem ephash gtok]) ++ List.replicate less none := by
        simp [List.replicate_succ]
      have count : done.length + 1 = (done ++ [slotOf conf mem ephash gtok]).length := by simp
      simp only [none_, if_false, set, count]
      rw [ih _ less _ (by omega)]
      simp

/-- What `build_entry` fills an entry with. -/
theorem filled_slots (conf : RtConf) (mem : Mem) (ephash : List CStr) (gtokens : List CStr) :
    ∃ more, (RtCtx.filled conf mem ephash gtokens).rrgroups =
      slotsOf conf mem ephash gtokens.zipIdx ++ List.replicate more none :=
  ⟨_, fillGroups_slots gtokens.zipIdx [] gtokens.length ephash (by simp)⟩

/-- The slots of a group and of those after it. -/
theorem slotsOf_cons (gtok : CStr × Nat) (gtoks : List (CStr × Nat)) (ephash : List CStr) :
    slotsOf conf mem ephash (gtok :: gtoks) =
      (if addedNames conf gtok.1 = [] then [] else [slotOf conf mem ephash gtok]) ++
        slotsOf conf mem
          (ensureAll ephash (askedNames mem gtok.2 (landedNames conf mem gtok))).1 gtoks := by
  conv_lhs => unfold slotsOf
  split
  · rfl
  · rfl

/-- The slots of groups that are filled in two parts. -/
theorem slotsOf_append (before after : List (CStr × Nat)) (ephash : List CStr) :
    slotsOf conf mem ephash (before ++ after) = slotsOf conf mem ephash before ++
      slotsOf conf mem (ensureAll ephash (askedBy conf mem before)).1 after := by
  -- By induction on the first part, which the names known are handed through.
  induction before generalizing ephash with
  | nil => rfl
  | cons gtok before ih =>
    have asked : askedBy conf mem (gtok :: before) =
        askedNames mem gtok.2 (landedNames conf mem gtok) ++ askedBy conf mem before := rfl
    rw [asked, ensureAll_append, List.cons_append, slotsOf_cons, slotsOf_cons, ih,
      List.append_assoc]

/-- The slots that are filled are those of the groups with a name that is added. -/
theorem mem_slotsOf (conf : RtConf) (mem : Mem) (gtoks : List (CStr × Nat)) (ephash : List CStr)
    (slot : Option RrGroup) :
    slot ∈ slotsOf conf mem ephash gtoks ↔ ∃ before gtok after, gtoks = before ++ gtok :: after ∧
      addedNames conf gtok.1 ≠ [] ∧
      slot = slotOf conf mem (ensureAll ephash (askedBy conf mem before)).1 gtok := by
  constructor
  · intro among
    induction gtoks generalizing ephash with
    | nil => cases among
    | cons first gtoks ih =>
      -- It is the slot of the first group, or that of a group behind it.
      rw [slotsOf_cons] at among
      have behind : slot ∈ slotsOf conf mem
          (ensureAll ephash (askedNames mem first.2 (landedNames conf mem first))).1 gtoks →
          ∃ before gtok after, first :: gtoks = before ++ gtok :: after ∧
            addedNames conf gtok.1 ≠ [] ∧
            slot = slotOf conf mem (ensureAll ephash (askedBy conf mem before)).1 gtok := by
        intro later
        obtain ⟨before, gtok, after, rfl, some_, is⟩ := ih _ later
        refine ⟨first :: before, gtok, after, rfl, some_, ?_⟩
        have asked : askedBy conf mem (first :: before) =
            askedNames mem first.2 (landedNames conf mem first) ++ askedBy conf mem before := rfl
        rw [is, asked, ensureAll_append]
      by_cases none_ : addedNames conf first.1 = []
      · rw [if_pos none_] at among
        exact behind among
      · rw [if_neg none_] at among
        cases List.mem_append.mp among with
        | inl same => exact ⟨[], first, gtoks, rfl, none_, List.mem_singleton.mp same⟩
        | inr later => exact behind later
  · rintro ⟨before, gtok, after, rfl, some_, rfl⟩
    rw [slotsOf_append]
    apply List.mem_append_right
    rw [slotsOf_cons, if_neg some_]
    exact List.mem_cons_self

/-- A slot is filled when a name finds the group. -/
theorem slotOf_isSome (ephash : List CStr) (gtok : CStr × Nat) :
    (slotOf conf mem ephash gtok).isSome = true ↔ landedNames conf mem gtok ≠ [] := by
  unfold slotOf
  split
  · simp_all
  · simp_all

/-- A name that finds the group is one that is added. -/
theorem added_of_landed {gtok : CStr × Nat} (landed : landedNames conf mem gtok ≠ []) :
    addedNames conf gtok.1 ≠ [] := by
  intro none_
  rw [landedNames, none_] at landed
  exact landed rfl

/-- A slot is filled with a good group when each name that there is room for gets an endpoint. -/
theorem slotOf_good (conf : RtConf) (mem : Mem) (ephash : List CStr) (gtok : CStr × Nat) :
    (∀ rrg, slotOf conf mem ephash gtok = some rrg → rrg.Good) ↔
      ∀ early tok late, landedNames conf mem gtok = early ++ tok :: late →
        early.length < maxEpGroup → tok.1 ≠ [] ∧ (tok.1 ∈ ephash ∨
          (tok.1, true) ∈ askedNames mem gtok.2 (early ++ [tok])) := by
  -- The outcome for a name, told by what was asked for up to it.
  have outcome : ∀ early (tok : CStr × Nat) late,
      ((ensureAll ephash (askedNames mem gtok.2 (early ++ tok :: late))).2[early.length]? ≠
        some none) ↔ (tok.1 ≠ [] ∧ (tok.1 ∈ ephash ∨
          (tok.1, true) ∈ askedNames mem gtok.2 (early ++ [tok]))) := by
    intro early tok late
    have split : askedNames mem gtok.2 (early ++ tok :: late) = askedNames mem gtok.2 early ++
        (tok.1, mem.ep gtok.2 tok.2) :: askedNames mem gtok.2 late := by
      simp [askedNames]
    have at_ := getElem?_ensureAll (askedNames mem gtok.2 early) (askedNames mem gtok.2 late)
      (tok.1, mem.ep gtok.2 tok.2) ephash
    have long : (askedNames mem gtok.2 early).length = early.length := by simp [askedNames]
    rw [split, ← long, at_]
    have some_ := rtEnsureEp_isSome
      (ensureAll ephash (askedNames mem gtok.2 early)).1 (mem.ep gtok.2 tok.2) tok.1
    have upTo : askedNames mem gtok.2 (early ++ [tok]) =
        askedNames mem gtok.2 early ++ [(tok.1, mem.ep gtok.2 tok.2)] := by
      simp [askedNames]
    rw [show (some _ ≠ some (none : Option CStr)) = _ from propext (by rw [ne_eq, Option.some_inj]),
      ← ne_eq, some_, mem_ensureAll, upTo, List.mem_append, List.mem_singleton, Prod.ext_iff]
    constructor
    · rintro ⟨named, (known | ⟨_, before⟩) | made⟩
      · exact ⟨named, Or.inl known⟩
      · exact ⟨named, Or.inr (Or.inl before)⟩
      · exact ⟨named, Or.inr (Or.inr ⟨rfl, made.symm⟩)⟩
    · rintro ⟨named, known | before | ⟨_, made⟩⟩
      · exact ⟨named, Or.inl (Or.inl known)⟩
      · exact ⟨named, Or.inl (Or.inr ⟨named, before⟩)⟩
      · exact ⟨named, Or.inr made.symm⟩
  constructor
  · intro good early tok late landed room
    refine (outcome early tok late).mp fun nil_ => ?_
    have some_ : landedNames conf mem gtok ≠ [] := by rw [landed]; simp
    have slot : slotOf conf mem ephash gtok = some ⟨((ensureAll ephash (askedNames mem gtok.2
        (landedNames conf mem gtok))).2).take maxEpGroup⟩ := by rw [slotOf, if_neg some_]
    -- A nil endpoint would be in the group.
    apply (good _ slot).filled
    rw [landed]
    apply List.mem_of_getElem? (i := early.length)
    rw [List.getElem?_take_of_lt room]
    exact nil_
  · intro named rrg slot
    have some_ : landedNames conf mem gtok ≠ [] := by
      rw [← slotOf_isSome ephash, slot]
      rfl
    rw [slotOf, if_neg some_] at slot
    obtain rfl := Option.some.inj slot
    refine ⟨?_, List.length_take_le _ _, ?_⟩
    · -- The group has an endpoint, as a name found it.
      have long : ((ensureAll ephash
        (askedNames mem gtok.2 (landedNames conf mem gtok))).2).length =
          (landedNames conf mem gtok).length := by
        rw [length_ensureAll, askedNames, List.length_map]
      have positive := List.length_pos_of_ne_nil some_
      simp only [List.length_take, long, maxEpGroup]
      omega
    · intro nil_
      obtain ⟨idx, at_⟩ := List.mem_iff_getElem?.mp nil_
      have room : idx < maxEpGroup := by
        obtain ⟨inside, _⟩ := List.getElem?_eq_some_iff.mp at_
        exact Nat.lt_of_lt_of_le inside (List.length_take_le _ _)
      rw [List.getElem?_take_of_lt room] at at_
      have inside : idx < (landedNames conf mem gtok).length := by
        obtain ⟨inside, _⟩ := List.getElem?_eq_some_iff.mp at_
        rwa [length_ensureAll, askedNames, List.length_map] at inside
      -- The names around the one that got no endpoint.
      have landed : landedNames conf mem gtok = (landedNames conf mem gtok).take idx ++
          (landedNames conf mem gtok)[idx] :: (landedNames conf mem gtok).drop (idx + 1) := by
        rw [← List.drop_eq_getElem_cons inside, List.take_append_drop]
      have short : ((landedNames conf mem gtok).take idx).length = idx :=
        List.length_take_of_le (Nat.le_of_lt inside)
      have bad := (outcome _ _ ((landedNames conf mem gtok).drop (idx + 1))).mpr
        (named _ _ _ landed (short.symm ▸ room))
      rw [← landed, short] at bad
      exact bad at_

/-- Groups come first exactly when nothing that is filled comes after a slot that is nil. -/
theorem groupsGood_iff (rrgroups : List (Option RrGroup)) :
    GroupsGood rrgroups ↔
      rrgroups.Pairwise (fun slot later => later.isSome = true → slot.isSome = true) ∧
        ∀ rrg, some rrg ∈ rrgroups → rrg.Good := by
  constructor
  · rintro ⟨groups, more, rfl, good⟩
    constructor
    · rw [List.pairwise_append]
      refine ⟨?_, ?_, ?_⟩
      · exact List.pairwise_map.mpr (List.pairwise_of_forall fun _ _ _ => rfl)
      · exact List.pairwise_replicate.mpr (Or.inr nofun)
      · intro slot among later behind
        rw [List.eq_of_mem_replicate behind]
        nofun
    · intro rrg among
      cases List.mem_append.mp among with
      | inl first =>
        obtain ⟨other, there, same⟩ := List.mem_map.mp first
        exact Option.some.inj same ▸ good other there
      | inr behind => cases List.eq_of_mem_replicate behind
  · rintro ⟨ordered, good⟩
    induction rrgroups with
    | nil => exact ⟨[], 0, rfl, by simp⟩
    | cons slot rrgroups ih =>
      obtain ⟨first, rest⟩ := List.pairwise_cons.mp ordered
      cases slot with
      | none =>
        -- After a nil slot all of them are nil.
        refine ⟨[], rrgroups.length + 1, ?_, by simp⟩
        rw [List.map_nil, List.nil_append, List.eq_replicate_iff]
        refine ⟨rfl, ?_⟩
        intro other among
        cases List.mem_cons.mp among with
        | inl same => exact same
        | inr behind =>
          cases other with
          | none => rfl
          | some rrg => exact absurd (first _ behind rfl) nofun
      | some rrg =>
        obtain ⟨groups, more, rfl, all⟩ := ih rest
          (fun other among => good other (List.mem_cons_of_mem _ among))
        refine ⟨rrg :: groups, more, rfl, ?_⟩
        intro other among
        cases List.mem_cons.mp among with
        | inl same => exact same ▸ good rrg List.mem_cons_self
        | inr behind => exact all other behind

/-- Nil slots behind the others change nothing. -/
theorem groupsGood_more (rrgroups : List (Option RrGroup)) (more : Nat) :
    GroupsGood (rrgroups ++ List.replicate more none) ↔ GroupsGood rrgroups := by
  -- Behind the slots there is no group, so that neither the order nor the endpoints are different.
  rw [groupsGood_iff, groupsGood_iff, List.pairwise_append]
  constructor
  · rintro ⟨⟨ordered, _, _⟩, good⟩
    exact ⟨ordered, fun rrg among => good rrg (List.mem_append_left _ among)⟩
  · rintro ⟨ordered, good⟩
    refine ⟨⟨ordered, List.pairwise_replicate.mpr (Or.inr nofun), ?_⟩, ?_⟩
    · intro slot among later behind
      rw [List.eq_of_mem_replicate behind]
      nofun
    · intro rrg among
      cases List.mem_append.mp among with
      | inl first => exact good rrg first
      | inr behind => cases List.eq_of_mem_replicate behind

/-- What is filled comes first exactly when no group that could not be made has one after it. -/
theorem slotsOf_ordered (gtoks : List (CStr × Nat)) (ephash : List CStr) :
    (slotsOf conf mem ephash gtoks).Pairwise
        (fun slot later => later.isSome = true → slot.isSome = true) ↔
      ∀ before gtok after, gtoks = before ++ gtok :: after → landedNames conf mem gtok ≠ [] →
        ∀ earlier ∈ before, addedNames conf earlier.1 ≠ [] → landedNames conf mem earlier ≠ [] := by
  constructor
  · rintro ordered before gtok after rfl landed earlier among some_
    -- The slots of the two groups, in this order.
    obtain ⟨front, mid, rfl⟩ := List.append_of_mem among
    rw [slotsOf_append, List.pairwise_append] at ordered
    have first := (mem_slotsOf conf mem (front ++ earlier :: mid) ephash _).mpr
      ⟨front, earlier, mid, rfl, some_, rfl⟩
    have second := (mem_slotsOf conf mem (gtok :: after) (ensureAll ephash
      (askedBy conf mem (front ++ earlier :: mid))).1 _).mpr
      ⟨[], gtok, after, rfl, added_of_landed landed, rfl⟩
    have filled := ordered.2.2 _ first _ second ((slotOf_isSome _ gtok).mpr landed)
    exact (slotOf_isSome _ earlier).mp filled
  · intro made
    induction gtoks generalizing ephash with
    | nil => exact List.Pairwise.nil
    | cons gtok gtoks ih =>
      have rest := ih (ensureAll ephash (askedNames mem gtok.2 (landedNames conf mem gtok))).1
        (fun before other after split landed earlier among =>
          made (gtok :: before) other after (by rw [split]; rfl) landed earlier
            (List.mem_cons_of_mem _ among))
      rw [slotsOf_cons]
      by_cases none_ : addedNames conf gtok.1 = []
      · rw [if_pos none_]
        exact rest
      · rw [if_neg none_]
        refine List.pairwise_cons.mpr ⟨?_, rest⟩
        intro later among filled
        obtain ⟨before, other, after, rfl, _, rfl⟩ := (mem_slotsOf conf mem _ _ _).mp among
        rw [slotOf_isSome] at filled ⊢
        exact made (gtok :: before) other after rfl filled gtok List.mem_cons_self none_

/-- The groups of an entry are good exactly when their names serve. -/
theorem slotsOf_good (gtoks : List (CStr × Nat)) (ephash : List CStr) :
    GroupsGood (slotsOf conf mem ephash gtoks) ↔ NamesServe conf mem ephash gtoks := by
  rw [groupsGood_iff, slotsOf_ordered]
  -- The names that are known when a group is filled.
  have known : ∀ (before : List (CStr × Nat)) (name : CStr) (asks : List (CStr × Bool)),
      (name ≠ [] ∧ (name ∈ (ensureAll ephash (askedBy conf mem before)).1 ∨ (name, true) ∈ asks)) ↔
        (name ≠ [] ∧ (name ∈ ephash ∨ (name, true) ∈ askedBy conf mem before ++ asks)) := by
    intro before name asks
    rw [mem_ensureAll, List.mem_append]
    tauto
  constructor
  · rintro ⟨made, good⟩
    refine ⟨?_, made⟩
    intro before gtok after early tok late split landed room
    have some_ : landedNames conf mem gtok ≠ [] := by rw [landed]; simp
    have one := (slotOf_good conf mem (ensureAll ephash (askedBy conf mem before)).1 gtok).mp
      (fun rrg slot => good rrg (slot ▸ (mem_slotsOf conf mem gtoks ephash _).mpr
        ⟨before, gtok, after, split, added_of_landed some_, rfl⟩))
    exact (known before tok.1 _).mp (one early tok late landed room)
  · intro serve
    refine ⟨serve.made, ?_⟩
    intro rrg among
    obtain ⟨before, gtok, after, split, some_, is⟩ := (mem_slotsOf conf mem gtoks ephash _).mp among
    refine (slotOf_good conf mem _ gtok).mpr ?_ rrg is.symm
    intro early tok late landed room
    exact (known before tok.1 _).mpr
      (serve.named before gtok after early tok late split landed room)

/-- With memory for everything, the names serve unless one that there is room for is empty. -/
theorem namesServe_ample (ephash : List CStr) (gtoks : List (CStr × Nat)) :
    NamesServe conf .ample ephash gtoks ↔
      ∀ gtok ∈ gtoks, ∀ tok ∈ (addedNames conf gtok.1).take maxEpGroup, tok.1 ≠ [] := by
  -- Each name finds its group.
  have all : ∀ gtok : CStr × Nat, landedNames conf .ample gtok = addedNames conf gtok.1 := by
    intro gtok
    unfold landedNames
    rw [List.dropWhile_eq_self_iff]
    intro _
    simp [Mem.ample]
  constructor
  · intro serve gtok among tok early
    obtain ⟨before, after, rfl⟩ := List.append_of_mem among
    obtain ⟨idx, at_⟩ := List.mem_iff_getElem?.mp early
    obtain ⟨inside, is⟩ := List.getElem?_eq_some_iff.mp at_
    rw [List.getElem_take] at is
    have room : idx < maxEpGroup := Nat.lt_of_lt_of_le inside (List.length_take_le _ _)
    have short : idx < (addedNames conf gtok.1).length :=
      Nat.lt_of_lt_of_le inside (by rw [List.length_take]; exact Nat.min_le_right _ _)
    have split : landedNames conf .ample gtok = (addedNames conf gtok.1).take idx ++
        tok :: (addedNames conf gtok.1).drop (idx + 1) := by
      rw [all, ← is, ← List.drop_eq_getElem_cons short, List.take_append_drop]
    exact (serve.named before gtok after _ tok _ rfl split
      (by rw [List.length_take_of_le (Nat.le_of_lt short)]; exact room)).1
  · intro named
    constructor
    · rintro before gtok after early tok late rfl split room
      have member : tok ∈ (addedNames conf gtok.1).take maxEpGroup := by
        rw [← all, split, List.take_append, List.take_of_length_le (Nat.le_of_lt room)]
        obtain ⟨more, is⟩ : ∃ more, maxEpGroup - early.length = more + 1 :=
          ⟨maxEpGroup - early.length - 1, by omega⟩
        rw [is]
        simp
      refine ⟨named gtok (by simp) tok member, Or.inr (List.mem_append_right _ ?_)⟩
      simp [askedNames, Mem.ample]
    · intro before gtok after _ _ earlier _ some_
      rw [all]
      exact some_

namespace RtCtx

variable {ctx next : RtCtx} {rt : Nat}

/-- `del_rte` leaves the entries that are still there as they were, but for the count. -/
theorem delRte_entries {id : Nat} (deleted : ctx.delRte id = .ok next) :
    next.ephash = ctx.ephash ∧ next.tables = ctx.tables ∧ ∀ other rte, next.rtes other = some rte →
      ∃ before, ctx.rtes other = some before ∧ before.entry = rte.entry := by
  obtain ⟨rte, found, deleted⟩ := bind_eq_ok.mp deleted
  have there : ctx.rtes id = some rte := by
    unfold RtCtx.rte at found
    split at found
    · rename_i at_
      exact at_.trans (congrArg some (Except.ok.inj found))
    · cases found
  split at deleted
  · obtain rfl := Except.ok.inj deleted
    refine ⟨rfl, rfl, ?_⟩
    intro other now is
    by_cases same : other = id
    · -- The entry itself has one reference less.
      subst same
      have less : Function.update ctx.rtes other (some { rte with refs := rte.refs - 1 }) other =
          some now := is
      rw [Function.update_self] at less
      obtain rfl := Option.some.inj less
      exact ⟨rte, there, rfl⟩
    · exact ⟨now, (Function.update_of_ne same _ _).symm.trans is, rfl⟩
  · obtain rfl := Except.ok.inj deleted
    refine ⟨rfl, rfl, ?_⟩
    intro other now is
    by_cases same : other = id
    · subst same
      have gone : Function.update ctx.rtes other none other = some now := is
      rw [Function.update_self] at gone
      cases gone
    · exact ⟨now, (Function.update_of_ne same _ _).symm.trans is, rfl⟩

/-- What `uta_add_rte` returns with: an entry with groups that are nil, which the table has. -/
theorem utaAddRte_returned {mem : Mem} {key : UInt64} {nrrgroups : Nat} {id : Option Nat}
    (added : ctx.utaAddRte mem rt key nrrgroups = .ok (next, id)) (made : id ≠ none) :
    id = some ctx.nextRte ∧ next.ephash = ctx.ephash ∧
      (∃ table, next.tables rt = some table ∧ table.hash.mt.lookup key = some ctx.nextRte) ∧
      ∀ rte, next.rtes ctx.nextRte = some rte →
        rte.entry.rrgroups = List.replicate nrrgroups none := by
  unfold utaAddRte at added
  split at added
  · -- There was no memory.
    obtain ⟨_, rfl⟩ := Prod.mk.inj (Except.ok.inj added)
    exact absurd rfl made
  · dsimp only at added
    obtain ⟨table, found, added⟩ := bind_eq_ok.mp added
    have count : (if (nrrgroups : Int) < 0 then 10 else (nrrgroups : Int).toNat) = nrrgroups := by
      rw [if_neg (by omega)]
      exact Int.toNat_natCast _
    rw [count] at added
    -- The entry is as it was made.
    have fresh : ∀ before, Function.update ctx.rtes ctx.nextRte (some
        ⟨⟨key, 0, List.replicate nrrgroups none⟩, 1⟩) ctx.nextRte = some before →
        before.entry.rrgroups = List.replicate nrrgroups none := by
      intro before same
      rw [Function.update_self] at same
      obtain rfl := Option.some.inj same
      rfl
    cases held : table.hash.mt.lookup key with
    | none =>
      simp only [held] at added
      obtain ⟨mid, same, added⟩ := bind_eq_ok.mp added
      obtain rfl := Except.ok.inj same
      obtain ⟨rfl, rfl⟩ := Prod.mk.inj (Except.ok.inj added)
      exact ⟨rfl, rfl, ⟨_, Function.update_self .., AList.lookup_insert _⟩, fresh⟩
    | some old =>
      simp only [held] at added
      obtain ⟨mid, replaced, added⟩ := bind_eq_ok.mp added
      obtain ⟨rfl, rfl⟩ := Prod.mk.inj (Except.ok.inj added)
      obtain ⟨ephash, _, entries⟩ := delRte_entries replaced
      refine ⟨rfl, ephash, ⟨_, Function.update_self .., AList.lookup_insert _⟩, ?_⟩
      intro rte is
      obtain ⟨before, was, same⟩ := entries _ rte is
      rw [← same]
      exact fresh before was

/-- What `build_entry` returns with, when it accepts a record that is for this process. -/
theorem buildEntry_returned {conf : RtConf} {mem : Mem} {tsField rrField first : CStr}
    {rest : List CStr} {subid : Int}
    (accepted : ctx.buildEntry conf mem rt (some tsField) subid (some rrField) = .ok next)
    (forUs : ingests conf (clip tsField) = true)
    (listed : utaTokenise (clip rrField) 64 ';' = first :: rest) :
    ∃ table rte, next.tables rt = some table ∧
      table.hash.mt.lookup (buildRtKey subid (atoi (clip tsField))) = some ctx.nextRte ∧
      next.rtes ctx.nextRte = some rte ∧
      rte.entry.rrgroups = (filled conf mem ctx.ephash (groupTokens first rest)).rrgroups := by
  -- The steps of `build_entry` are taken one by one up to the entry that it returns with.
  unfold buildEntry at accepted
  obtain ⟨_, clip_, accepted⟩ := bind_eq_ok.mp accepted
  obtain rfl := Except.ok.inj clip_
  obtain ⟨_, clip_, accepted⟩ := bind_eq_ok.mp accepted
  obtain rfl := Except.ok.inj clip_
  rw [if_pos forUs] at accepted
  simp only [listed] at accepted
  obtain ⟨⟨mid, id⟩, added, accepted⟩ := bind_eq_ok.mp accepted
  cases id with
  | none => cases accepted
  | some id =>
    obtain ⟨same, ephash, ⟨table, there, held⟩, nils⟩ := utaAddRte_returned added nofun
    obtain rfl := Option.some.inj same
    obtain ⟨rte, found, accepted⟩ := bind_eq_ok.mp accepted
    obtain rfl := Except.ok.inj accepted
    have is : mid.rtes ctx.nextRte = some rte := by
      unfold RtCtx.rte at found
      split at found
      · rename_i at_
        exact at_.trans (congrArg some (Except.ok.inj found))
      · cases found
    refine ⟨table, _, there, held, Function.update_self .., ?_⟩
    rw [nils rte is, ephash]
    rfl

/-- The entry that `build_entry` stores serves those who send with it exactly when its names do. -/
theorem buildEntry_serves_iff {conf : RtConf} {mem : Mem} {tsField rrField first : CStr}
    {rest : List CStr} {subid : Int}
    (accepted : ctx.buildEntry conf mem rt (some tsField) subid (some rrField) = .ok next)
    (forUs : ingests conf (clip tsField) = true)
    (listed : utaTokenise (clip rrField) 64 ';' = first :: rest) :
    ∃ table rte, next.tables rt = some table ∧
      table.hash.mt.lookup (buildRtKey subid (atoi (clip tsField))) = some ctx.nextRte ∧
      next.rtes ctx.nextRte = some rte ∧
      (Serves rte.entry.rrgroups ↔
        NamesServe conf mem ctx.ephash (groupTokens first rest).zipIdx) := by
  -- The slots behind the groups are nil, and do not matter to who sends.
  obtain ⟨table, rte, there, held, is, groups⟩ := buildEntry_returned accepted forUs listed
  refine ⟨table, rte, there, held, is, ?_⟩
  obtain ⟨more, slots⟩ := filled_slots conf mem ctx.ephash (groupTokens first rest)
  rw [groups, slots, ← slotsOf_good]
  constructor
  · intro serves
    exact (groupsGood_more _ more).mp serves.good
  · intro good
    exact ((groupsGood_more _ more).mpr good).serves

/-- An entry with two groups serves those who send with it. -/
theorem buildEntry_serves_two : ∃ next table rte,
    init.buildEntry confHere .ample 0 (some "1".toList) (-1) (some "a:1,b:1;h:1;c:1".toList) =
      .ok next ∧ next.tables 0 = some table ∧
    table.hash.mt.lookup (buildRtKey (-1) (atoi (clip "1".toList))) = some 0 ∧
    next.rtes 0 = some rte ∧ Serves rte.entry.rrgroups := by
  -- The record is accepted with ample memory, so that only the names are left to be decided.
  have built : Yields (fun _ => True) (init.buildEntry confHere .ample 0 (some "1".toList) (-1)
      (some "a:1,b:1;h:1;c:1".toList)) := by
    decide +kernel
  obtain ⟨next, accepted, _⟩ := built.exists
  have listed : utaTokenise (clip "a:1,b:1;h:1;c:1".toList) 64 ';' =
      "a:1,b:1".toList :: ["h:1".toList, "c:1".toList] := by
    decide +kernel
  obtain ⟨table, rte, there, held, is, serves⟩ :=
    buildEntry_serves_iff accepted (by decide +kernel) listed
  exact ⟨next, table, rte, accepted, there, held, is,
    serves.mpr ((namesServe_ample _ _).mpr (by decide +kernel))⟩

/-- An empty name between two others becomes a nil endpoint, which the second selection uses. -/
theorem buildEntry_nil_endpoint : ∃ next rte,
    init.buildEntry confHere .ample 0 (some "1".toList) (-1) (some "a:1,,b:1".toList) = .ok next ∧
    next.rtes 0 = some rte ∧
    rrRun (RrEntry.made rte.entry.rrgroups) [(0, fun _ => true), (0, fun _ => true)] =
      .error .nil ∧ ¬ Serves rte.entry.rrgroups := by
  -- The second selection comes to the endpoint in the middle, which is nil.
  have built : Yields (fun next => (next.rtes 0).map (·.entry.rrgroups) =
      some [some ⟨[some "a:1".toList, none, some "b:1".toList]⟩])
      (init.buildEntry confHere .ample 0 (some "1".toList) (-1) (some "a:1,,b:1".toList)) := by
    decide +kernel
  obtain ⟨next, accepted, stored⟩ := built.exists
  obtain ⟨rte, is, groups⟩ := Option.map_eq_some_iff.mp stored
  have faults : rrRun (RrEntry.made rte.entry.rrgroups)
      [(0, fun _ => true), (0, fun _ => true)] = .error .nil := by
    rw [groups]
    rfl
  refine ⟨next, rte, accepted, is, faults, ?_⟩
  intro serves
  obtain ⟨result, ran⟩ := serves.safe (fun _ => 0) [(0, fun _ => true), (0, fun _ => true)]
  exact nomatch faults.symm.trans ran

end RtCtx

end Rmr
