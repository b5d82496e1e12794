import Rmr.Proofs.Route.Edit
import Rmr.Proofs.Text.Split
import Rmr.Route.Session

/-! What `build_entry` makes of the fields of a record. -/

namespace Rmr

variable {conf : RtConf}

/-- There are no senders exactly when nothing follows the message type. -/
theorem sendersOf_eq_nil (tsField : CStr) : sendersOf tsField = [] ↔ ',' ∉ tsField := by
  -- Splitting leaves a tail exactly where there is something to split at.
  unfold sendersOf pieces
  by_cases empty : tsField = []
  · simp [empty]
  · rw [if_neg empty]
    constructor
    · intro one among
      obtain ⟨before, after, rfl⟩ := List.append_of_mem among
      rw [List.splitOn_eq_splitOnP, List.splitOnP_append_cons before after (by simp),
        List.tail_append_of_ne_nil (List.splitOnP_ne_nil _ before)] at one
      exact List.splitOnP_ne_nil (· == ',') after (List.append_eq_nil_iff.mp one).2
    · intro absent
      rw [List.splitOn_eq_singleton absent]
      rfl

/-- The name of a process is among the pieces exactly when it is among the senders. -/
theorem mem_pieces_iff {tsField name : CStr} (fits : TypeFits tsField) (named : ':' ∈ name) :
    name ∈ pieces ',' tsField ↔ name ∈ sendersOf tsField := by
  -- The first piece is the message type, which has no colon, while the name has one.
  unfold sendersOf
  have first := fits.2
  cases all : pieces ',' tsField with
  | nil => simp
  | cons type_ senders =>
    rw [all] at first
    have different : name ≠ type_ := by
      intro equal
      subst equal
      exact first name rfl named
    simp [different]

/-- Records are for this process when no senders are named or it is one of them. -/
theorem ingests_eq_names {tsField : CStr} (fits : TypeFits tsField) :
    ingests conf tsField = names conf (sendersOf tsField) := by
  -- The tests of the record: no senders, the name among them, and an address among them.
  have tokens : utaTokenise tsField 127 ',' = pieces ',' tsField :=
    utaTokenise_eq_pieces (by decide) fits.1
  have first : (',' ∉ tsField) = (sendersOf tsField = []) := propext (sendersOf_eq_nil tsField).symm
  have second : (utaHasStr tsField conf.myName ',' 127).isSome =
      decide (conf.myName ∈ sendersOf tsField) := by
    rw [utaHasStr, if_neg (by decide), tokens, List.findIdx?_isSome, Bool.eq_iff_iff,
      List.any_eq_true, decide_eq_true_eq, ← mem_pieces_iff fits conf.named]
    simp
  have third : hasMyip tsField conf.ipList ',' 127 =
      conf.ipList.any fun addr => decide (addr ∈ sendersOf tsField) := by
    rw [hasMyip, if_neg (by decide), tokens, Bool.eq_iff_iff, List.any_eq_true, List.any_eq_true]
    constructor
    · rintro ⟨tok, among, ours⟩
      have ours : tok ∈ conf.ipList := by simpa [isThisMyip] using ours
      refine ⟨tok, ours, ?_⟩
      rw [decide_eq_true_eq]
      exact (mem_pieces_iff fits (conf.addressed tok ours)).mp among
    · rintro ⟨addr, ours, among⟩
      rw [decide_eq_true_eq] at among
      exact ⟨addr, (mem_pieces_iff fits (conf.addressed addr ours)).mpr among,
        by simpa [isThisMyip] using ours⟩
  unfold ingests names
  rw [second, third]
  congr 2
  simp only [first]

/-- The endpoints that a group has so far. -/
def eptsAt (rrgroups : List (Option RrGroup)) (group : Nat) : List (Option CStr) :=
  ((rrgroups[group]?.getD none).getD ⟨[]⟩).epts

/-- A name gets an endpoint when it is not empty, as long as one can be made. -/
theorem rtEnsureEp_made (ephash : List CStr) (name : CStr) :
    (RtCtx.rtEnsureEp ephash true name).2 = endpointOf name := by
  -- The cases are those of `rt_ensure_ep`: an empty name, one that is known, and a new one.
  unfold RtCtx.rtEnsureEp endpointOf
  split
  · rfl
  · split
    · rfl
    · rfl

/-- One endpoint is put into a group, or is this process and left out. -/
theorem fillEp_ample (conf : RtConf) (grp : Nat) (filling : Filling) (tok : CStr × Nat)
    (inside : filling.cgidx < filling.rrgroups.length)
    (room : (eptsAt filling.rrgroups filling.cgidx).length < maxEpGroup) :
    ∃ ephash, fillEp conf .ample grp filling tok =
      if tok.1 = conf.myName then filling else
        { ephash := ephash
          rrgroups := filling.rrgroups.set filling.cgidx
            (some ⟨eptsAt filling.rrgroups filling.cgidx ++ [endpointOf tok.1]⟩)
          cgidx := filling.cgidx
          hasEp := true } := by
  -- The name of this process is skipped; every other one gets an endpoint, if it is not empty.
  unfold fillEp
  by_cases ours : tok.1 = conf.myName
  · exact ⟨[], by rw [if_pos ours, if_pos ours]⟩
  · have slot : filling.rrgroups[filling.cgidx]? = some filling.rrgroups[filling.cgidx] :=
      List.getElem?_eq_getElem inside
    refine ⟨(RtCtx.rtEnsureEp filling.ephash true tok.1).1, ?_⟩
    rw [if_neg ours, if_neg ours]
    unfold eptsAt at room ⊢
    rw [slot, Option.getD_some] at room ⊢
    simp only [RtCtx.utaAddEp, slot, Mem.ample, Bool.true_eq_false, and_false, if_false,
      if_neg (Nat.not_le.mpr room), rtEnsureEp_made]

/-- The endpoints of one group are put into it one after the other. -/
theorem fillEps_ample (conf : RtConf) (grp : Nat) (toks : List (CStr × Nat)) (filling : Filling)
    (inside : filling.cgidx < filling.rrgroups.length)
    (room : (eptsAt filling.rrgroups filling.cgidx).length +
      ((toks.map Prod.fst).filter (· ≠ conf.myName)).length ≤ maxEpGroup) :
    ∃ ephash, toks.foldl (fillEp conf .ample grp) filling =
      if (toks.map Prod.fst).filter (· ≠ conf.myName) = [] then { filling with ephash := ephash }
      else
        { ephash := ephash
          rrgroups := filling.rrgroups.set filling.cgidx
            (some ⟨eptsAt filling.rrgroups filling.cgidx ++
              ((toks.map Prod.fst).filter (· ≠ conf.myName)).map endpointOf⟩)
          cgidx := filling.cgidx
          hasEp := true } := by
  induction toks generalizing filling with
  | nil => exact ⟨filling.ephash, rfl⟩
  | cons tok toks ih =>
    rw [List.foldl_cons]
    by_cases ours : tok.1 = conf.myName
    · -- This process is left out.
      have same : fillEp conf .ample grp filling tok = filling := by
        rw [fillEp, if_pos ours]
      have others : ((tok :: toks).map Prod.fst).filter (· ≠ conf.myName) =
          (toks.map Prod.fst).filter (· ≠ conf.myName) := by
        simp [ours]
      rw [others] at room ⊢
      rw [same]
      exact ih filling inside room
    · have others : ((tok :: toks).map Prod.fst).filter (· ≠ conf.myName) =
          tok.1 :: (toks.map Prod.fst).filter (· ≠ conf.myName) := by
        simp [ours]
      rw [others, List.length_cons] at room
      obtain ⟨ephash, first⟩ := fillEp_ample conf grp filling tok inside (by omega)
      rw [if_neg ours] at first
      -- What the group has after the first endpoint.
      have now : eptsAt (filling.rrgroups.set filling.cgidx
          (some ⟨eptsAt filling.rrgroups filling.cgidx ++ [endpointOf tok.1]⟩)) filling.cgidx =
          eptsAt filling.rrgroups filling.cgidx ++ [endpointOf tok.1] := by
        rw [eptsAt, List.getElem?_set_self inside]
        rfl
      obtain ⟨ephash', rest⟩ := ih
        { ephash := ephash
          rrgroups := filling.rrgroups.set filling.cgidx
            (some ⟨eptsAt filling.rrgroups filling.cgidx ++ [endpointOf tok.1]⟩)
          cgidx := filling.cgidx
          hasEp := true }
        (by simpa using inside)
          (by simp only [now, List.length_append, List.length_singleton]; omega)
      refine ⟨ephash', ?_⟩
      rw [first, rest, others, if_neg (List.cons_ne_nil _ _), now]
      split
      · rename_i none_
        rw [none_]
        rfl
      · simp

/-- One group is filled, unless it has no endpoint but this process. -/
theorem fillGroup_ample (filling : Filling) (gtok : CStr × Nat)
    (fits : (pieces ',' gtok.1).length ≤ 64 ∧
      (othersIn conf (pieces ',' gtok.1)).length ≤ maxEpGroup)
    (inside : filling.cgidx < filling.rrgroups.length)
    (empty : filling.rrgroups[filling.cgidx]? = some none) (fresh : filling.hasEp = false) :
    ∃ ephash, fillGroup conf .ample filling gtok =
      if othersIn conf (pieces ',' gtok.1) = [] then { filling with ephash := ephash } else
        { ephash := ephash
          rrgroups := filling.rrgroups.set filling.cgidx
            (some ⟨(othersIn conf (pieces ',' gtok.1)).map endpointOf⟩)
          cgidx := filling.cgidx + 1
          hasEp := false } := by
  have tokens : utaRmipTokenise gtok.1 conf.ipList 64 ',' =
      (pieces ',' gtok.1).filter fun tok => tok ∉ conf.ipList := by
    rw [utaRmipTokenise, utaTokenise_eq_pieces (by decide) fits.1]
    apply List.filter_congr
    intro tok _
    simp [isThisMyip]
  have others : ((utaRmipTokenise gtok.1 conf.ipList 64 ',').zipIdx.map Prod.fst).filter
      (· ≠ conf.myName) = othersIn conf (pieces ',' gtok.1) := by
    rw [List.zipIdx_map_fst, tokens, List.filter_filter, othersIn]
    apply List.filter_congr
    intro tok _
    exact Bool.and_comm _ _
  have start : eptsAt filling.rrgroups filling.cgidx = [] := by
    rw [eptsAt, empty]
    rfl
  obtain ⟨ephash, filled⟩ := fillEps_ample conf gtok.2
    (utaRmipTokenise gtok.1 conf.ipList 64 ',').zipIdx filling inside
    (by rw [others, start]; simpa using fits.2)
  rw [others, start, List.nil_append] at filled
  refine ⟨ephash, ?_⟩
  unfold fillGroup
  simp only [filled]
  by_cases none_ : othersIn conf (pieces ',' gtok.1) = []
  · rw [if_pos none_, if_pos none_]
    simp [fresh]
  · -- A group with an endpoint has a token.
    have some_ : 0 < (utaRmipTokenise gtok.1 conf.ipList 64 ',').length := by
      by_contra zero
      have nil_ : utaRmipTokenise gtok.1 conf.ipList 64 ',' = [] :=
        List.eq_nil_of_length_eq_zero (by omega)
      rw [nil_] at others
      exact none_ others.symm
    rw [if_neg none_, if_neg none_]
    simp [some_]

/-- All groups are filled, those with an endpoint first. -/
theorem fillGroups_ample (gtoks : List (CStr × Nat)) (done : List (Option RrGroup)) (more : Nat)
    (ephash : List CStr) (room : gtoks.length ≤ more)
    (fits : ∀ gtok ∈ gtoks, (pieces ',' gtok.1).length ≤ 64 ∧
      (othersIn conf (pieces ',' gtok.1)).length ≤ maxEpGroup) :
    (gtoks.foldl (fillGroup conf .ample)
        ⟨ephash, done ++ List.replicate more none, done.length, false⟩).rrgroups =
      done ++ (((gtoks.map fun gtok => pieces ',' gtok.1).map (othersIn conf)).filter (· ≠ [])).map
          (fun group => some ⟨group.map endpointOf⟩) ++
        List.replicate (more -
          (((gtoks.map fun gtok => pieces ',' gtok.1).map (othersIn conf)).filter (· ≠ [])).length)
          none := by
  -- By induction on the groups; one that has no endpoint leaves its slot for the next.
  induction gtoks generalizing done more ephash with
  | nil => simp
  | cons gtok gtoks ih =>
    rw [List.foldl_cons]
    rw [List.length_cons] at room
    obtain ⟨less, rfl⟩ : ∃ less, more = less + 1 := ⟨more - 1, by omega⟩
    have slot : (done ++ List.replicate (less + 1) (none : Option RrGroup))[done.length]? =
        some none := by
      simp
    obtain ⟨ephash', first⟩ := fillGroup_ample
      ⟨ephash, done ++ List.replicate (less + 1) none, done.length, false⟩ gtok
      (fits gtok (by simp)) (by simp) slot rfl
    have rest : ∀ gtok ∈ gtoks, (pieces ',' gtok.1).length ≤ 64 ∧
        (othersIn conf (pieces ',' gtok.1)).length ≤ maxEpGroup :=
      fun other among => fits other (List.mem_cons_of_mem _ among)
    rw [first]
    by_cases none_ : othersIn conf (pieces ',' gtok.1) = []
    · rw [if_pos none_]
      refine (ih done (less + 1) ephash' (by omega) rest).trans ?_
      simp [none_]
    · rw [if_neg none_]
      have set : (done ++ List.replicate (less + 1) (none : Option RrGroup)).set done.length
          (some ⟨(othersIn conf (pieces ',' gtok.1)).map endpointOf⟩) =
          (done ++ [some ⟨(othersIn conf (pieces ',' gtok.1)).map endpointOf⟩]) ++
            List.replicate less none := by
        simp [List.replicate_succ]
      have count : done.length + 1 = (done ++ [some
          (RrGroup.mk ((othersIn conf (pieces ',' gtok.1)).map endpointOf))]).length := by
        simp
      simp only [set, count]
      refine (ih _ less ephash' (by omega) rest).trans ?_
      simp [none_]

/-- The groups of an entry are those that the field lists. -/
theorem filled_ample (ephash : List CStr) {rrField first : CStr} {rest : List CStr}
    (fits : GroupsFit conf rrField) (groups : pieces ';' rrField = first :: rest) :
    (RtCtx.filled conf .ample ephash (RtCtx.groupTokens first rest)).rrgroups =
      ((groupsOf rrField).map (rrgroupsOf conf)).getD [] := by
  -- A route by managed element has no groups; any other one is filled group by group.
  unfold RtCtx.groupTokens groupsOf
  rw [groups, List.head?_cons]
  by_cases special : first = ['%', 'm', 'e', 'i', 'd']
  · rw [if_pos special, if_pos (by rw [special])]
    rfl
  · rw [if_neg special, if_neg (fun equal => special (Option.some.inj equal)), Option.map_some,
      Option.getD_some, RtCtx.filled, rrgroupsOf]
    have each : ∀ gtok ∈ (first :: rest).zipIdx, (pieces ',' gtok.1).length ≤ 64 ∧
        (othersIn conf (pieces ',' gtok.1)).length ≤ maxEpGroup := by
      intro gtok among
      apply fits.2.2
      rw [groups]
      exact List.fst_mem_of_mem_zipIdx among
    have all := fillGroups_ample (first :: rest).zipIdx [] (first :: rest).length ephash
      (by simp) each
    have same : ((first :: rest).zipIdx.map fun gtok => pieces ',' gtok.1) =
        (first :: rest).map (pieces ',') := by
      rw [← List.zipIdx_map_fst 0 (first :: rest), List.map_map]
      simp [Function.comp_def]
    rw [same] at all
    simpa using all

end Rmr
