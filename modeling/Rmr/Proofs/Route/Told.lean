import Rmr.Proofs.Route.Active
import Rmr.Proofs.Route.Fill
import Rmr.Route.Whole

/-! What each line of a session does to the table in progress is what it tells. -/

namespace Rmr

namespace RtCtx

variable {ctx next : RtCtx} {rt : Nat} {table table' : RouteTable} {conf : RtConf} {mem : Mem}

/-- An entry that is still found is the same. -/
theorem entryAt_kept (sound : ctx.Sound) (sound' : next.Sound) (later : ctx.Later next)
    (there : ctx.tables rt = some table) (there' : next.tables rt = some table') {sid mtype : Int}
    (same : table'.hash.mt.lookup (buildRtKey sid mtype) =
      table.hash.mt.lookup (buildRtKey sid mtype)) :
    next.entryAt table' sid mtype = ctx.entryAt table sid mtype := by
  -- The key finds the same entry, and that was kept.
  unfold entryAt
  rw [same]
  cases found : table.hash.mt.lookup (buildRtKey sid mtype) with
  | none => rfl
  | some id =>
    obtain ⟨rte, rte', is, is', equal⟩ := entry_kept sound sound' later there there' found
      (same.trans found)
    simp [is, is', equal]

/-- `build_entry` makes the entry that the fields are about, if they are for this process. -/
theorem buildEntry_told (sound : ctx.Sound) (there : ctx.tables rt = some table)
    {tsField rrField : CStr} (type_ : TypeFits (clip tsField))
    (groups : GroupsFit conf (clip rrField))
    {subid : Int} (subFits : InInt subid) :
    ∃ next, ctx.buildEntry conf .ample rt (some tsField) subid (some rrField) = .ok next ∧
      Edits ctx rt next ∧ ∃ mt, next.tables rt = some { table with hash.mt := mt } ∧
      ∀ sid mtype, InInt sid → InInt mtype → next.entryAt { table with hash.mt := mt } sid mtype =
        if names conf (sendersOf (clip tsField)) ∧ atoi (clip tsField) = mtype ∧ subid = sid then
          some (some (entryOf conf mtype sid (groupsOf (clip rrField))))
        else ctx.entryAt table sid mtype := by
  have tokens : utaTokenise (clip rrField) 64 ';' = pieces ';' (clip rrField) :=
    utaTokenise_eq_pieces (by decide) groups.2.1
  by_cases forUs : names conf (sendersOf (clip tsField)) = true
  · have ingested : ingests conf (clip tsField) = true := by rw [ingests_eq_names type_, forUs]
    have some_ : pieces ';' (clip rrField) ≠ [] := by
      rw [pieces, if_neg groups.1]
      exact List.splitOn_ne_nil _ _
    obtain ⟨first, rest, split⟩ := List.exists_cons_of_ne_nil some_
    obtain ⟨next, built, edits, now, new⟩ :=
      buildEntry_adds sound there (rfl : Mem.ample.rte = true)
      ingested (tokens.trans split) subid
    refine ⟨next, built, edits, _, now, ?_⟩
    intro sid mtype sidFits mtypeFits
    have keys := buildRtKey_inj subFits (inInt_atoi (clip tsField)) sidFits mtypeFits
    by_cases own : subid = sid ∧ atoi (clip tsField) = mtype
    · -- The pair is the one that the record is about.
      obtain ⟨rfl, rfl⟩ := own
      rw [if_pos ⟨forUs, rfl, rfl⟩]
      unfold entryAt
      rw [AList.lookup_insert, Option.map_some, new, filled_ample _ groups split]
      rfl
    · rw [if_neg (fun all => own ⟨all.2.2, all.2.1⟩)]
      apply entryAt_kept sound edits.sound edits.later there now
      exact AList.lookup_insert_ne fun equal => own (keys.mp equal.symm)
  · have skipped : ingests conf (clip tsField) = true → utaTokenise (clip rrField) 64 ';' = [] := by
      intro ingested
      rw [ingests_eq_names type_] at ingested
      exact absurd ingested forUs
    refine ⟨ctx, buildEntry_skips skipped, Edits.refl sound there, table.hash.mt, there, ?_⟩
    intro sid mtype _ _
    rw [if_neg (fun all => forUs all.1)]

/-- `trash_entry` takes away the entry that the fields are about, if they are for this process. -/
theorem trashEntry_told (conf : RtConf) (sound : ctx.Sound) (there : ctx.tables rt = some table)
    {tsField : CStr}
    (type_ : TypeFits (clip tsField)) {subid : Int} (subFits : InInt subid) :
    ∃ next, ctx.trashEntry conf rt tsField subid = .ok next ∧ Edits ctx rt next ∧
      ∃ mt, next.tables rt = some { table with hash.mt := mt } ∧
      ∀ sid mtype, InInt sid → InInt mtype → next.entryAt { table with hash.mt := mt } sid mtype =
        if names conf (sendersOf (clip tsField)) ∧ atoi (clip tsField) = mtype ∧
        subid = sid then none
        else ctx.entryAt table sid mtype := by
  -- The entry's key is the one of the fields; any other pair has a different key.
  obtain ⟨next, trashed, edits, mt, now, lookup⟩ := trashEntry_ok sound there conf tsField subid
  refine ⟨next, trashed, edits, mt, now, ?_⟩
  intro sid mtype sidFits mtypeFits
  have keys := buildRtKey_inj sidFits mtypeFits subFits (inInt_atoi (clip tsField))
  rw [ingests_eq_names type_] at lookup
  by_cases own : names conf (sendersOf (clip tsField)) = true ∧
    atoi (clip tsField) = mtype ∧ subid = sid
  · rw [if_pos own]
    unfold entryAt
    have gone : mt.lookup (buildRtKey sid mtype) = none := by
      rw [lookup, if_pos ⟨own.1, keys.mpr ⟨own.2.2.symm, own.2.1.symm⟩⟩]
    simp only [gone, Option.map_none]
  · rw [if_neg own]
    apply entryAt_kept sound edits.sound edits.later there now
    refine (lookup _).trans (if_neg ?_)
    rintro ⟨forUs, same⟩
    obtain ⟨sid', mtype'⟩ := keys.mp same
    exact own ⟨forUs, mtype'.symm, sid'.symm⟩

/-- `parse_meid_ar` gives each managed element in the list its owner. -/
theorem ownMeids_lookup (owner : CStr) (owned : owner ≠ []) (toks : List (CStr × Nat))
    (ephash : List CStr) (me : AList fun _ : CStr => CStr) (meid : CStr) :
    ((toks.foldl (ownMeid .ample owner) (ephash, me)).2).lookup meid =
      if meid ∈ toks.map Prod.fst then some owner else me.lookup meid := by
  -- By induction on the list: the last of its ids that is the same one gives the owner.
  induction toks generalizing ephash me with
  | nil => simp
  | cons tok toks ih =>
    have one : ∃ ephash', ownMeid .ample owner (ephash, me) tok =
        (ephash', me.insert tok.1 owner) := by
      unfold ownMeid rtEnsureEp
      rw [if_neg owned]
      split
      · rename_i equal
        split at equal
        · cases equal
          exact ⟨_, rfl⟩
        · cases equal
          exact ⟨_, rfl⟩
      · rename_i equal
        split at equal
        · cases equal
        · cases equal
    obtain ⟨ephash', is⟩ := one
    rw [List.foldl_cons, is, ih, List.map_cons]
    by_cases later : meid ∈ toks.map Prod.fst
    · rw [if_pos later, if_pos (List.mem_cons_of_mem _ later)]
    · rw [if_neg later]
      by_cases own : meid = tok.1
      · subst own
        rw [AList.lookup_insert, if_pos List.mem_cons_self]
      · rw [AList.lookup_insert_ne own, if_neg]
        intro among
        rcases List.mem_cons.mp among with is | is
        · exact own is
        · exact later is

/-- `parse_meid_del` takes the owner from each managed element in the list. -/
theorem eraseMeids_lookup (toks : List CStr) (me : AList fun _ : CStr => CStr) (meid : CStr) :
    (toks.foldl (fun me tok => me.erase tok) me).lookup meid =
      if meid ∈ toks then none else me.lookup meid := by
  -- By induction on the list: an id that was erased is not found again.
  induction toks generalizing me with
  | nil => simp
  | cons tok toks ih =>
    rw [List.foldl_cons, ih]
    by_cases later : meid ∈ toks
    · rw [if_pos later, if_pos (List.mem_cons_of_mem _ later)]
    · rw [if_neg later]
      by_cases own : meid = tok
      · subst own
        rw [AList.lookup_erase, if_pos List.mem_cons_self]
      · rw [AList.lookup_erase_ne own, if_neg]
        intro among
        rcases List.mem_cons.mp among with is | is
        · exact own is
        · exact later is

/-- What happens to a table is what a line tells. -/
structure Told (conf : RtConf) (line : Line) (ctx : RtCtx) (table : RouteTable) (next : RtCtx)
    (table' : RouteTable) : Prop where
  error : table'.error = table.error
  updates : table'.updates =
    if TableKind.newrt.counts line then toInt (table.updates + 1) else table.updates
  mupdates : table'.mupdates =
    if TableKind.meidMap.counts line then toInt (table.mupdates + 1) else table.mupdates
  owners : ∀ meid, table'.hash.me.lookup meid =
    (line.owner? meid).getD (table.hash.me.lookup meid)
  routes : ∀ sid mtype, InInt sid → InInt mtype → next.entryAt table' sid mtype =
    ((line.route? conf mtype sid).map fun told => told.map some).getD (ctx.entryAt table sid mtype)

/-- A line was processed as it should be. -/
def Processed (conf : RtConf) (line : Line) (ctx : RtCtx) (rt : Nat) (table : RouteTable)
    (outcome : Except RtFault RtCtx) : Prop :=
  ∃ next table', outcome = .ok next ∧ Edits ctx rt next ∧ next.tables rt = some table' ∧
    Told conf line ctx table next table'

/-- What is told of a pair, by a line for one pair. -/
theorem getD_route (condition : Prop) [Decidable condition] (told : Option Entry)
    (before : Option (Option Entry)) :
    ((if condition then some told else none).map fun told => told.map some).getD before =
      if condition then told.map some else before := by
  split
  · rfl
  · rfl

/-- A route is put into the table and counted, in either order. -/
theorem route_processed (sound : ctx.Sound) (there : ctx.tables rt = some table)
    {tsField rrField : CStr} (type_ : TypeFits (clip tsField))
    (groups : GroupsFit conf (clip rrField))
    {subid : Int} (subFits : InInt subid) :
    Processed conf (.route (sendersOf (clip tsField)) (atoi (clip tsField)) subid
        (groupsOf (clip rrField))) ctx rt table
      (do
        let ctx ← ctx.buildEntry conf .ample rt (some tsField) subid (some rrField)
        ctx.bumpUpdates rt) ∧
    Processed conf (.route (sendersOf (clip tsField)) (atoi (clip tsField)) subid
        (groupsOf (clip rrField))) ctx rt table
      (do
        let ctx ← ctx.bumpUpdates rt
        ctx.buildEntry conf .ample rt (some tsField) subid (some rrField)) := by
  -- An `mse` record is counted after its entry is made, an `rte` record before.
  constructor
  · obtain ⟨mid, built, first, mt, now, routes⟩ := buildEntry_told sound there type_ groups subFits
    obtain ⟨next, bumped, second, final, rtes, _⟩ := bumpUpdates_ok first.sound now
    refine ⟨next, _, bind_eq_ok.mpr ⟨mid, built, bumped⟩, first.trans second, final, rfl, rfl, rfl,
      fun _ => rfl, ?_⟩
    intro sid mtype sidFits mtypeFits
    rw [Line.route?, getD_route]
    refine Eq.trans ?_ (routes sid mtype sidFits mtypeFits)
    unfold entryAt
    rw [rtes]
  · obtain ⟨mid, bumped, first, now, rtes, _⟩ := bumpUpdates_ok sound there
    obtain ⟨next, built, second, mt, final, routes⟩ :=
      buildEntry_told first.sound now type_ groups subFits
    refine ⟨next, _, bind_eq_ok.mpr ⟨mid, bumped, built⟩, first.trans second, final, rfl, rfl, rfl,
      fun _ => rfl, ?_⟩
    intro sid mtype sidFits mtypeFits
    rw [Line.route?, getD_route]
    refine (routes sid mtype sidFits mtypeFits).trans ?_
    unfold entryAt
    rw [rtes]
    rfl

/-- An entry is taken from the table, and that is counted. -/
theorem remove_processed (sound : ctx.Sound) (there : ctx.tables rt = some table)
    {tsField : CStr} (type_ : TypeFits (clip tsField)) {subid : Int} (subFits : InInt subid) :
    Processed conf (.remove (sendersOf (clip tsField)) (atoi (clip tsField)) subid) ctx rt table
      (do
        let ctx ← ctx.trashEntry conf rt tsField subid
        ctx.bumpUpdates rt) := by
  -- The entry is taken away first; counting changes neither entries nor keys.
  obtain ⟨mid, trashed, first, mt, now, routes⟩ := trashEntry_told conf sound there type_ subFits
  obtain ⟨next, bumped, second, final, rtes, _⟩ := bumpUpdates_ok first.sound now
  refine ⟨next, _, bind_eq_ok.mpr ⟨mid, trashed, bumped⟩, first.trans second, final, rfl, rfl, rfl,
    fun _ => rfl, ?_⟩
  intro sid mtype sidFits mtypeFits
  rw [Line.route?, getD_route]
  refine Eq.trans ?_ (routes sid mtype sidFits mtypeFits)
  unfold entryAt
  rw [rtes]

/-- Managed elements get an owner, and that is counted. -/
theorem own_processed (sound : ctx.Sound) (there : ctx.tables rt = some table)
    {owner meids : CStr} (owned : clip owner ≠ []) (fits : MeidsFit (clip meids)) :
    Processed conf (.own (clip owner) (pieces ' ' (clip meids))) ctx rt table
      (do
        let ctx ← ctx.parseMeidAr .ample rt owner meids
        ctx.bumpMupdates rt) := by
  -- The owners are put in first; counting changes neither them nor the entries.
  obtain ⟨mid, put, first, now⟩ := parseMeidAr_ok sound there .ample owner meids
  obtain ⟨next, bumped, second, final, rtes⟩ := bumpMupdates_ok first.sound now
  refine ⟨next, _, bind_eq_ok.mpr ⟨mid, put, bumped⟩, first.trans second, final, rfl, rfl, rfl,
    ?_, ?_⟩
  · intro meid
    refine (ownMeids_lookup (clip owner) owned _ _ _ meid).trans ?_
    rw [List.zipIdx_map_fst, utaTokenise_eq_pieces (by decide) fits, Line.owner?]
    split
    · rfl
    · rfl
  · intro sid mtype _ _
    exact entryAt_kept sound (first.trans second).sound (first.trans second).later there final rfl

/-- Managed elements lose their owner, and that is counted. -/
theorem disown_processed (sound : ctx.Sound) (there : ctx.tables rt = some table) {meids : CStr}
    (fits : MeidsFit (clip meids)) :
    Processed conf (.disown (pieces ' ' (clip meids))) ctx rt table
      (do
        let ctx ← ctx.parseMeidDel rt meids
        ctx.bumpMupdates rt) := by
  -- The owners are taken away first; counting changes neither them nor the entries.
  obtain ⟨mid, deleted, first, now⟩ := parseMeidDel_ok sound there meids
  obtain ⟨next, bumped, second, final, rtes⟩ := bumpMupdates_ok first.sound now
  refine ⟨next, _, bind_eq_ok.mpr ⟨mid, deleted, bumped⟩, first.trans second, final, rfl, rfl, rfl,
    ?_, ?_⟩
  · intro meid
    refine (eraseMeids_lookup _ _ meid).trans ?_
    rw [utaTokenise_eq_pieces (by decide) fits, Line.owner?]
    split
    · rfl
    · rfl
  · intro sid mtype _ _
    exact entryAt_kept sound (first.trans second).sound (first.trans second).later there final rfl

/-- What is not for the table changes nothing. -/
theorem blank_processed (sound : ctx.Sound) (there : ctx.tables rt = some table) :
    Processed conf .blank ctx rt table (.ok ctx) :=
  ⟨ctx, table, rfl, Edits.refl sound there, there, rfl, rfl, rfl, fun _ => rfl, fun _ _ _ _ => rfl⟩

/-- The tokens of a record are its fields. -/
theorem tokens_eq_fields {text : CStr} (few : (fieldsOf text).length ≤ 128) :
    utaTokenise (trimEnd (text.dropWhile isspace)) 128 '|' = fieldsOf text :=
  utaTokenise_eq_pieces (by decide) few

/-- A record that starts no table is done at once. -/
theorem parseRtRec_of_plainly {text : CStr} {outcome : Except RtFault RtCtx}
    (begins : ctx.beginRec conf mem text = plainly outcome) :
    ctx.parseRtRec conf mem text = outcome := by
  unfold parseRtRec
  rw [begins]
  cases outcome with
  | error fault => rfl
  | ok next => rfl

/-- Where no table is in progress, a line does nothing. -/
theorem line_ignored {text : CStr} {line : Line} (reads : Reads conf text line)
    (new : ctx.newRtable = none) : ctx.parseRtRec conf mem text = .ok ctx := by
  -- One case for each kind of line: all of them ask for a table in progress first.
  have tokens := tokens_eq_fields reads.1
  apply parseRtRec_of_plainly
  unfold beginRec
  rw [tokens]
  have tells := reads.2
  generalize fieldsOf text = fields at tells
  cases tells with
  | rte named => simp [named, rteRec, new]
  | rteSub named => simp [named, rteRec, new]
  | mse named => simp [named, mseRec, new]
  | del named => simp [named, delRec, new]
  | mmeAr named => simp [named, meidParser, mmeRec, new]
  | mmeDel named => simp [named, meidParser, mmeRec, new]
  | empty => rfl
  | comment named =>
    rcases named with none_ | hash
    · simp only [none_]
      rfl
    · simp only [hash]
      rfl

/-- Where a table is in progress, a line does to it what it tells. -/
theorem line_processed {text : CStr} {line : Line} (reads : Reads conf text line)
    (sound : ctx.Sound) (new : ctx.newRtable = some rt) (there : ctx.tables rt = some table) :
    Processed conf line ctx rt table (ctx.parseRtRec conf .ample text) := by
  -- One case for each kind of line, each with its lemma.
  have tokens := tokens_eq_fields reads.1
  have tells := reads.2
  have parse : ∀ outcome, ctx.beginRec conf .ample text = plainly outcome →
      Processed conf line ctx rt table outcome →
      Processed conf line ctx rt table (ctx.parseRtRec conf .ample text) := by
    intro outcome begins processed
    rw [parseRtRec_of_plainly begins]
    exact processed
  unfold beginRec at parse
  rw [tokens] at parse
  generalize fieldsOf text = fields at tells parse
  cases tells with
  | rte named type_ groups =>
    apply parse (ctx.rteRec conf .ample _)
    · simp [named]
      rfl
    · simp only [rteRec, new]
      exact (route_processed sound there type_ groups (by decide)).2
  | rteSub named type_ groups =>
    apply parse (ctx.rteRec conf .ample _)
    · simp [named]
      rfl
    · simp only [rteRec, new]
      exact (route_processed sound there type_ groups (inInt_atoi _)).2
  | mse named type_ groups =>
    apply parse (ctx.mseRec conf .ample _)
    · simp [named]
      rfl
    · simp only [mseRec, new]
      exact (route_processed sound there type_ groups (inInt_atoi _)).1
  | del named type_ =>
    apply parse (ctx.delRec conf _)
    · simp [named]
      rfl
    · simp only [delRec, new]
      exact remove_processed sound there type_ (inInt_atoi _)
  | mmeAr named owned fits =>
    apply parse (ctx.mmeRec .ample _ _ _)
    · simp [named, meidParser]
      rfl
    · simp only [mmeRec, new, if_true]
      exact own_processed sound there owned fits
  | mmeDel named fits =>
    apply parse (ctx.mmeRec .ample _ _ _)
    · simp [named, meidParser]
      rfl
    · simp only [mmeRec, new]
      exact disown_processed sound there fits
  | empty =>
    apply parse (.ok ctx)
    · rfl
    · exact blank_processed sound there
  | comment named =>
    apply parse (.ok ctx)
    · rcases named with none_ | hash
      · simp only [none_]
        rfl
      · simp only [hash]
        rfl
    · exact blank_processed sound there

end RtCtx

end Rmr
