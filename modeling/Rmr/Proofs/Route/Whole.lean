import Rmr.Proofs.Route.Listed
import Rmr.Proofs.Route.Told
import Rmr.Route.Whole

/-! When all that a counted record lists takes effect. -/

namespace Rmr

namespace RtCtx

variable {ctx next mid : RtCtx} {rt : Nat} {table table' : RouteTable} {conf : RtConf}

/-- What a table has does not depend on its counters. -/
theorem entryAt_congr (rtes : next.rtes = ctx.rtes) (hash : table'.hash.mt = table.hash.mt)
    (sid mtype : Int) : next.entryAt table' sid mtype = ctx.entryAt table sid mtype := by
  rw [entryAt, entryAt, rtes, hash]

/-- What `build_entry` makes of the fields of a record is all that they list, exactly when the
record is within what it handles. -/
theorem buildEntry_takes (sound : ctx.Sound) (there : ctx.tables rt = some table) (conf : RtConf)
    (tsField rrField : CStr) (subid : Int) :
    ∃ next mt, ctx.buildEntry conf .ample rt (some tsField) subid (some rrField) = .ok next ∧
      Edits ctx rt next ∧ next.tables rt = some { table with hash.mt := mt } ∧
      ((names conf (sendersOf (clip tsField)) = true → clip rrField ≠ [] →
          HasRoute conf (clip tsField) subid (clip rrField) next { table with hash.mt := mt }) ↔
        Whole conf (.route (clip tsField) subid (clip rrField)) ctx table) := by
  by_cases stores : ingests conf (clip tsField) = true ∧ clip rrField ≠ []
  · obtain ⟨forUs, some_⟩ := stores
    obtain ⟨next, _, rte, built, edits, now, ⟨mt, rfl⟩, held, is, same⟩ :=
      buildEntry_stores .written sound there forUs some_ subid
    refine ⟨next, mt, built, edits, now, ?_⟩
    -- The entry of the pair is the one that was made.
    have entry : next.entryAt { table with hash.mt := mt } subid (atoi (clip tsField)) =
        some (some rte.entry) := by
      rw [entryAt, held, Option.map_some, is, Option.map_some]
    have route : HasRoute conf (clip tsField) subid
      (clip rrField) next { table with hash.mt := mt } ↔
        Tidy .written conf (clip rrField) := by
      rw [← same, HasRoute, entry]
      constructor
      · rintro ⟨_, equal, stored⟩
        obtain rfl := Option.some.inj (Option.some.inj equal)
        exact stored
      · intro stored
        exact ⟨rte.entry, rfl, stored⟩
    simp only [Whole, if_pos forUs, route]
  · have skipped : ingests conf (clip tsField) = true → utaTokenise (clip rrField) 64 ';' = [] := by
      intro forUs
      have empty : clip rrField = [] := by
        by_contra some_
        exact stores ⟨forUs, some_⟩
      rw [empty]
      rfl
    refine ⟨ctx, table.hash.mt, buildEntry_skips skipped, Edits.refl sound there, there, ?_⟩
    simp only [Whole]
    constructor
    · intro takes named some_
      rw [if_neg (fun forUs => stores ⟨forUs, some_⟩)]
      exact takes named some_
    · intro whole named some_
      have has := whole named some_
      rw [if_neg (fun forUs => stores ⟨forUs, some_⟩)] at has
      exact has

/-- A record was processed: it was counted, and all that it lists took effect exactly when it is
within what the parser handles. -/
def Handled (conf : RtConf) (listing : Listing) (ctx : RtCtx) (rt : Nat) (table : RouteTable)
    (outcome : Except RtFault RtCtx) : Prop :=
  ∃ next table', outcome = .ok next ∧ Edits ctx rt next ∧ next.tables rt = some table' ∧
    Tallied listing table table' ∧
    (TakesAll conf listing table next table' ↔ Whole conf listing ctx table)

/-- A route is put into the table and counted, in either order. -/
theorem route_handled (sound : ctx.Sound) (there : ctx.tables rt = some table) (conf : RtConf)
    (tsField rrField : CStr) (subid : Int) :
    Handled conf (.route (clip tsField) subid (clip rrField)) ctx rt table
      (do
        let ctx ← ctx.buildEntry conf .ample rt (some tsField) subid (some rrField)
        ctx.bumpUpdates rt) ∧
    Handled conf (.route (clip tsField) subid (clip rrField)) ctx rt table
      (do
        let ctx ← ctx.bumpUpdates rt
        ctx.buildEntry conf .ample rt (some tsField) subid (some rrField)) := by
  -- `rte` counts first, `mse` builds first; the count leaves the entries alone either way.
  constructor
  · obtain ⟨mid, mt, built, first, now, takes⟩ :=
      buildEntry_takes sound there conf tsField rrField subid
    obtain ⟨next, bumped, second, final, rtes, -⟩ := bumpUpdates_ok first.sound now
    refine ⟨next, _, bind_eq_ok.mpr ⟨mid, built, bumped⟩, first.trans second, final, ⟨rfl, rfl⟩, ?_⟩
    rw [← takes]
    simp only [TakesAll, HasRoute]
    rw [entryAt_congr rtes rfl]
    rfl
  · obtain ⟨mid, bumped, first, now, rtes, -⟩ := bumpUpdates_ok sound there
    obtain ⟨next, mt, built, second, final, takes⟩ :=
      buildEntry_takes first.sound now conf tsField rrField subid
    refine ⟨next, _, bind_eq_ok.mpr ⟨mid, bumped, built⟩, first.trans second, final, ⟨rfl, rfl⟩, ?_⟩
    refine Iff.trans takes ?_
    simp only [Whole, HasRoute]
    rw [entryAt_congr rtes rfl]
    rfl

/-- The owner of a managed element after `parse_meid_ar`, which needs one to be named. -/
theorem ownMeids_lookup_of_any (owner : CStr) (toks : List (CStr × Nat)) (ephash : List CStr)
    (me : AList fun _ : CStr => CStr) (meid : CStr) :
    ((toks.foldl (ownMeid .ample owner) (ephash, me)).2).lookup meid =
      if owner ≠ [] ∧ meid ∈ toks.map Prod.fst then some owner else me.lookup meid := by
  by_cases owned : owner = []
  · rw [if_neg (fun both => both.1 owned)]
    -- No token has an owner.
    induction toks generalizing ephash me with
    | nil => rfl
    | cons tok toks ih =>
      have same : ownMeid .ample owner (ephash, me) tok = (ephash, me) := by
        simp [ownMeid, rtEnsureEp, owned]
      rw [List.foldl_cons, same]
      exact ih ephash me
  · rw [ownMeids_lookup owner owned]
    by_cases token : meid ∈ toks.map Prod.fst
    · rw [if_pos token, if_pos ⟨owned, token⟩]
    · rw [if_neg token, if_neg (fun both => token both.2)]

/-- Managed elements get the owner that is listed. -/
theorem own_handled (sound : ctx.Sound) (there : ctx.tables rt = some table) (conf : RtConf)
    (owner meids : CStr) :
    Handled conf (.own (clip owner) (clip meids)) ctx rt table
      (do
        let ctx ← ctx.parseMeidAr .ample rt owner meids
        ctx.bumpMupdates rt) := by
  obtain ⟨mid, put, first, now⟩ := parseMeidAr_ok sound there .ample owner meids
  obtain ⟨next, bumped, second, final, rtes⟩ := bumpMupdates_ok first.sound now
  refine ⟨next, _, bind_eq_ok.mpr ⟨mid, put, bumped⟩, first.trans second, final, ⟨rfl, rfl⟩, ?_⟩
  simp only [TakesAll, Whole]
  refine forall_congr' fun meid => imp_congr_right fun _ => ?_
  rw [ownMeids_lookup_of_any, List.zipIdx_map_fst]
  -- What is listed and what is a token are compared for one id.
  by_cases owned : clip owner = []
  · rw [if_neg (fun both => both.1 owned), if_pos owned]
    by_cases listed : meid ∈ pieces ' ' (clip meids)
    · simp [listed]
    · simp [listed]
  · rw [if_neg owned, Differs]
    by_cases listed : meid ∈ pieces ' ' (clip meids) <;>
      by_cases token : meid ∈ utaTokenise (clip meids) 128 ' ' <;>
      simp [listed, token, owned, eq_comm]

/-- Managed elements lose their owner. -/
theorem disown_handled (sound : ctx.Sound) (there : ctx.tables rt = some table) (conf : RtConf)
    (meids : CStr) :
    Handled conf (.disown (clip meids)) ctx rt table
      (do
        let ctx ← ctx.parseMeidDel rt meids
        ctx.bumpMupdates rt) := by
  -- An id is disowned if it is among the first 128 tokens; the listing has all of them.
  obtain ⟨mid, deleted, first, now⟩ := parseMeidDel_ok sound there meids
  obtain ⟨next, bumped, second, final, rtes⟩ := bumpMupdates_ok first.sound now
  refine ⟨next, _, bind_eq_ok.mpr ⟨mid, deleted, bumped⟩, first.trans second, final, ⟨rfl, rfl⟩, ?_⟩
  simp only [TakesAll, Whole]
  refine forall_congr' fun meid => imp_congr_right fun _ => ?_
  rw [eraseMeids_lookup, Differs]
  by_cases listed : meid ∈ pieces ' ' (clip meids) <;>
    by_cases token : meid ∈ utaTokenise (clip meids) 128 ' ' <;>
    simp [listed, token, eq_comm]

/-- The tokens of a record are its fields, up to a limit that the fields which are read do not come
to. -/
theorem tokens_eq_limited (text : CStr) :
    utaTokenise (trimEnd (text.dropWhile isspace)) 128 '|' = limited '|' 127 (fieldsOf text) :=
  utaTokenise_eq_limited _ _ _

/-- Where a table is in progress, a record that lists something is counted, and all that it lists
takes effect exactly when the record is within what the parser handles. -/
theorem parseRtRec_takesAll_iff (sound : ctx.Sound) (new : ctx.newRtable = some rt)
    (there : ctx.tables rt = some table) {text : CStr} {listing : Listing}
    (lists : Lists (fieldsOf text) listing) (conf : RtConf) :
    ∃ next table', ctx.parseRtRec conf .ample text = .ok next ∧ next.tables rt = some table' ∧
      Tallied listing table table' ∧
      (TakesAll conf listing table next table' ↔ Whole conf listing ctx table) := by
  -- By what the record lists: each kind is one of the branches of the parser.
  have parse : ∀ outcome, ctx.beginRec conf .ample text = plainly outcome →
      Handled conf listing ctx rt table outcome →
      ∃ next table', ctx.parseRtRec conf .ample text = .ok next ∧ next.tables rt = some table' ∧
        Tallied listing table table' ∧
        (TakesAll conf listing table next table' ↔ Whole conf listing ctx table) := by
    rintro outcome begins ⟨next, table', is, -, now, tallied, takes⟩
    exact ⟨next, table', (parseRtRec_of_plainly begins).trans is, now, tallied, takes⟩
  unfold beginRec at parse
  rw [tokens_eq_limited] at parse
  generalize fieldsOf text = fields at lists parse
  cases lists with
  | rte named =>
    rw [limited_of_few (by simp)] at parse
    apply parse (ctx.rteRec conf .ample _)
    · simp [named]
      rfl
    · simp only [rteRec, new]
      exact (route_handled sound there conf _ _ _).2
  | rteSub named =>
    simp only [limited_cons] at parse
    apply parse (ctx.rteRec conf .ample _)
    · simp [named]
      rfl
    · simp only [rteRec, new]
      exact (route_handled sound there conf _ _ _).2
  | mse named =>
    simp only [limited_cons] at parse
    apply parse (ctx.mseRec conf .ample _)
    · simp [named]
      rfl
    · simp only [mseRec, new]
      exact (route_handled sound there conf _ _ _).1
  | mmeAr named =>
    simp only [limited_cons] at parse
    apply parse (ctx.mmeRec .ample _ _ _)
    · simp [named, meidParser]
      rfl
    · simp only [mmeRec, new, if_true]
      exact own_handled sound there conf _ _
  | mmeDel named =>
    simp only [limited_cons] at parse
    apply parse (ctx.mmeRec .ample _ _ _)
    · simp [named, meidParser]
      rfl
    · simp only [mmeRec, new]
      exact disown_handled sound there conf _

/-- A table in progress, and a record with two groups. -/
theorem parseRtRec_takesAll_two : ∃ ctx rt table next table',
    init.parseRecs confHere [("newrt|start".toList, .ample)] = .ok ctx ∧
    ctx.newRtable = some rt ∧ ctx.tables rt = some table ∧
    ctx.parseRtRec confHere .ample "rte| 1 |a:1,h:1,b:1;c:1 # two".toList = .ok next ∧
    next.tables rt = some table' ∧
    TakesAll confHere (.route (clip " 1 ".toList) unsetSubid (clip "a:1,h:1,b:1;c:1 # two".toList))
      table next table' := by
  -- All conditions of the theorem are met by the record, which has spaces and a comment.
  have started : Yields (fun ctx => ctx.newRtable = some 1)
      (init.parseRecs confHere [("newrt|start".toList, .ample)]) := by
    decide +kernel
  obtain ⟨ctx, reached, new⟩ := started.exists
  have idle := idle_of_parseRecs reached
  obtain ⟨table, there⟩ := idle.toOk.new_there new
  have fields : fieldsOf "rte| 1 |a:1,h:1,b:1;c:1 # two".toList =
      ["rte".toList, " 1 ".toList, "a:1,h:1,b:1;c:1 # two".toList] := by
    decide +kernel
  have lists : Lists (fieldsOf "rte| 1 |a:1,h:1,b:1;c:1 # two".toList)
      (.route (clip " 1 ".toList) unsetSubid (clip "a:1,h:1,b:1;c:1 # two".toList)) := by
    rw [fields]
    exact .rte (by decide +kernel)
  obtain ⟨next, table', parsed, now, -, takes⟩ :=
    parseRtRec_takesAll_iff idle.sound new there lists confHere
  exact ⟨ctx, 1, table, next, table', reached, new, there, parsed, now, takes.mpr (by
    intro _ _
    rw [if_pos (by decide +kernel)]
    decide +kernel)⟩

/-- Groups of one endpoint each, one more of them than the parser splits a field into. -/
def manyGroups : CStr := (List.replicate 64 "a:1;".toList).flatten ++ "a:1".toList

/-- The record with these groups is counted, and the last two of them become one endpoint. -/
theorem parseRtRec_merges : ∃ ctx next table table',
    init.parseRecs confHere [("newrt|start".toList, .ample)] = .ok ctx ∧
    ctx.newRtable = some 1 ∧ ctx.tables 1 = some table ∧ table.updates = 0 ∧
    ctx.parseRtRec confHere .ample ("rte|1|".toList ++ manyGroups) = .ok next ∧
    next.tables 1 = some table' ∧ table'.updates = 1 ∧
    ¬ TakesAll confHere (.route "1".toList unsetSubid manyGroups) table next table' := by
  -- The run is evaluated: 64 names are stored for an entry that lists 65 groups.
  have ran : Yields (fun ctx : RtCtx => ctx.newRtable = some 1 ∧
      (ctx.tables 1).map (·.updates) = some 0 ∧
      Yields (fun next : RtCtx => (next.tables 1).map (fun table => (table.updates,
          (next.entryAt table unsetSubid (atoi "1".toList)).map
            (Option.map fun entry => (storedNames entry.rrgroups).length))) =
          some (1, some (some 64)))
        (ctx.parseRtRec confHere .ample ("rte|1|".toList ++ manyGroups)))
      (init.parseRecs confHere [("newrt|start".toList, .ample)]) := by
    decide +kernel
  obtain ⟨ctx, reached, new, before, onward⟩ := ran.exists
  obtain ⟨next, parsed, stored⟩ := onward.exists
  obtain ⟨table, there, none_⟩ := Option.map_eq_some_iff.mp before
  obtain ⟨table', now, all⟩ := Option.map_eq_some_iff.mp stored
  obtain ⟨one, groups⟩ := Prod.mk.inj all
  refine ⟨ctx, next, table, table', reached, new, there, none_, parsed, now, one, ?_⟩
  intro takes
  obtain ⟨entry, is, names⟩ := takes (by decide +kernel) (by decide +kernel)
  rw [is, Option.map_some, Option.map_some, names] at groups
  exact absurd groups (by decide +kernel)

end RtCtx

end Rmr
