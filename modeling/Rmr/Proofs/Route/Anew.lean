import Rmr.Proofs.Route.Load

/-! All entries of a full table were made for it. -/

namespace Rmr

namespace RtCtx

variable {ctx mid next : RtCtx} {rt young : Nat} {table table' : RouteTable} {conf : RtConf}

/-- No entry that a table has is older than some address. -/
def Young (young : Nat) (table : RouteTable) : Prop :=
  ∀ sid mtype id, InInt sid → InInt mtype →
    table.hash.mt.lookup (buildRtKey sid mtype) = some id → young ≤ id

/-- The table in progress has only such entries, and will have. -/
def AllYoung (young : Nat) (ctx : RtCtx) (rt : Nat) : Prop :=
  young ≤ ctx.nextRte ∧ ∀ table, ctx.tables rt = some table → Young young table

/-- What is made of a table has the entries that it had, and those that were made since. -/
theorem AllYoung.edit (all : AllYoung young ctx rt) (edits : Edits ctx rt next)
    (there : ctx.tables rt = some table) (now : next.tables rt = some table')
    (made : ∀ key id, table'.hash.mt.lookup key = some id →
      table.hash.mt.lookup key = some id ∨ ctx.nextRte ≤ id) : AllYoung young next rt := by
  -- An entry of the table is one that it had before, or one with a later address.
  refine ⟨Nat.le_trans all.1 edits.later.grows, ?_⟩
  intro other is sid mtype id sidFits mtypeFits found
  obtain rfl : table' = other := Option.some.inj (now.symm.trans is)
  rcases made _ id found with was | new
  · exact all.2 table there sid mtype id sidFits mtypeFits was
  · exact Nat.le_trans all.1 new

/-- An entry that `build_entry` puts into the table is new. -/
theorem AllYoung.buildEntry (all : AllYoung young ctx rt) (sound : ctx.Sound)
    (there : ctx.tables rt = some table) {tsField rrField : CStr} {subid : Int}
    (built : ctx.buildEntry conf .ample rt (some tsField) subid (some rrField) = .ok next) :
    AllYoung young next rt := by
  -- The new entry has the next address, which is past the bound as well.
  by_cases skipped : ingests conf (clip tsField) = true → utaTokenise (clip rrField) 64 ';' = []
  · rw [buildEntry_skips skipped] at built
    obtain rfl := Except.ok.inj built
    exact all
  · obtain ⟨forUs, some_⟩ := Classical.not_imp.mp skipped
    obtain ⟨first, rest, groups⟩ := List.exists_cons_of_ne_nil some_
    obtain ⟨next', built', edits, now, -⟩ :=
      buildEntry_adds sound there (rfl : Mem.ample.rte = true) forUs groups subid
    rw [built'] at built
    obtain rfl := Except.ok.inj built
    refine all.edit edits there now ?_
    intro key id found
    by_cases own : key = buildRtKey subid (atoi (clip tsField))
    · subst own
      rw [show id = ctx.nextRte from
        (Option.some.inj ((AList.lookup_insert _).symm.trans found)).symm]
      exact .inr le_rfl
    · exact .inl ((AList.lookup_insert_ne own).symm.trans found)

/-- Whatever is counted in a table, its entries are the same. -/
theorem AllYoung.same (all : AllYoung young ctx rt) (edits : Edits ctx rt next)
    (there : ctx.tables rt = some table) (now : next.tables rt = some table')
    (same : table'.hash.mt = table.hash.mt) : AllYoung young next rt :=
  all.edit edits there now fun _ _ found => .inl (same ▸ found)

/-- The line of a session puts only new entries into the table in progress. -/
theorem AllYoung.line (all : AllYoung young ctx rt) {text : CStr} {line : Line}
    (reads : Reads conf text line) (sound : ctx.Sound) (new : ctx.newRtable = some rt)
    (there : ctx.tables rt = some table) (parsed : ctx.parseRtRec conf .ample text = .ok next) :
    AllYoung young next rt := by
  have tokens := tokens_eq_fields reads.1
  have tells := reads.2
  -- Each line starts no table, so that it comes to what its own function does.
  have parse : ∀ outcome, ctx.beginRec conf .ample text = plainly outcome →
      (outcome = .ok next → AllYoung young next rt) → AllYoung young next rt := by
    intro outcome begins keeps
    exact keeps ((parseRtRec_of_plainly begins).symm.trans parsed)
  unfold beginRec at parse
  rw [tokens] at parse
  generalize fieldsOf text = fields at tells parse
  -- An entry is built, and it is counted before or after that.
  have counted : ∀ {tsField rrField : CStr} {subid : Int}, ((do
        let ctx ← ctx.bumpUpdates rt
        ctx.buildEntry conf .ample rt (some tsField) subid (some rrField)) = .ok next →
      AllYoung young next rt) := by
    intro tsField rrField subid ran
    obtain ⟨mid, bumped, built⟩ := bind_eq_ok.mp ran
    obtain ⟨mid', bumped', edits, now, -⟩ := bumpUpdates_ok sound there
    obtain rfl : mid' = mid := Except.ok.inj (bumped'.symm.trans bumped)
    exact (all.same edits there now rfl).buildEntry edits.sound now built
  cases tells with
  | rte named type_ groups =>
    apply parse (ctx.rteRec conf .ample _)
    · simp [named]
      rfl
    · simp only [rteRec, new]
      exact counted
  | rteSub named type_ groups =>
    apply parse (ctx.rteRec conf .ample _)
    · simp [named]
      rfl
    · simp only [rteRec, new]
      exact counted
  | @mse _ tsField subid rrField _ named type_ groups =>
    apply parse (ctx.mseRec conf .ample _)
    · simp [named]
      rfl
    · simp only [mseRec, new]
      intro ran
      obtain ⟨mid, built, bumped⟩ := bind_eq_ok.mp ran
      have ends := buildEntry_edits sound there conf .ample (some tsField) (atoi subid)
        (some rrField)
      rw [built] at ends
      have edits : Edits ctx rt mid := ends
      obtain ⟨table', now⟩ := edits.there
      obtain ⟨next', bumped', edits', now', -⟩ := bumpUpdates_ok edits.sound now
      obtain rfl : next' = next := Except.ok.inj (bumped'.symm.trans bumped)
      exact (all.buildEntry sound there built).same edits' now now' rfl
  | @del _ tsField subid _ named type_ =>
    apply parse (ctx.delRec conf _)
    · simp [named]
      rfl
    · simp only [delRec, new]
      intro ran
      obtain ⟨mid, trashed, bumped⟩ := bind_eq_ok.mp ran
      obtain ⟨mid', trashed', edits, mt, now, lookup⟩ :=
        trashEntry_ok sound there conf tsField (atoi subid)
      obtain rfl : mid' = mid := Except.ok.inj (trashed'.symm.trans trashed)
      obtain ⟨next', bumped', edits', now', -⟩ := bumpUpdates_ok edits.sound now
      obtain rfl : next' = next := Except.ok.inj (bumped'.symm.trans bumped)
      refine (all.edit edits there now ?_).same edits' now now' rfl
      intro key id found
      rw [lookup] at found
      split at found
      · cases found
      · exact .inl found
  | @mmeAr _ owner meids _ named owned fits =>
    apply parse (ctx.mmeRec .ample _ _ _)
    · simp [named, meidParser]
      rfl
    · simp only [mmeRec, new, if_true]
      intro ran
      obtain ⟨mid, put, bumped⟩ := bind_eq_ok.mp ran
      obtain ⟨mid', put', edits, now⟩ := parseMeidAr_ok sound there .ample owner meids
      obtain rfl : mid' = mid := Except.ok.inj (put'.symm.trans put)
      obtain ⟨next', bumped', edits', now', -⟩ := bumpMupdates_ok edits.sound now
      obtain rfl : next' = next := Except.ok.inj (bumped'.symm.trans bumped)
      exact (all.same edits there now rfl).same edits' now now' rfl
  | @mmeDel _ meids _ named fits =>
    apply parse (ctx.mmeRec .ample _ _ _)
    · simp [named, meidParser]
      rfl
    · simp only [mmeRec, new]
      intro ran
      obtain ⟨mid, deleted, bumped⟩ := bind_eq_ok.mp ran
      obtain ⟨mid', deleted', edits, now⟩ := parseMeidDel_ok sound there meids
      obtain rfl : mid' = mid := Except.ok.inj (deleted'.symm.trans deleted)
      obtain ⟨next', bumped', edits', now', -⟩ := bumpMupdates_ok edits.sound now
      obtain rfl : next' = next := Except.ok.inj (bumped'.symm.trans bumped)
      exact (all.same edits there now rfl).same edits' now now' rfl
  | empty =>
    apply parse (.ok ctx)
    · rfl
    · intro same
      obtain rfl := Except.ok.inj same
      exact all
  | comment named =>
    apply parse (.ok ctx)
    · rcases named with none_ | hash
      · simp only [none_]
        rfl
      · simp only [hash]
        rfl
    · intro same
      obtain rfl := Except.ok.inj same
      exact all

/-- So do all lines of a session, one after the other. -/
theorem AllYoung.lines {kind : TableKind} {routes : Int → Int → Option Entry}
    {owners : CStr → Option CStr} {count : Nat} {body : List CStr} {lines : List Line}
    (reads : List.Forall₂ (Reads conf) body lines) (builds : Builds ctx rt kind routes owners count)
    (all : AllYoung young ctx rt)
    (ran : ctx.parseRecs conf (body.map fun text => (text, .ample)) = .ok next) :
    AllYoung young next rt := by
  -- By induction on the lines, each of which starts from what those before have built.
  induction reads generalizing ctx routes owners count with
  | nil =>
    obtain rfl := Except.ok.inj ran
    exact all
  | @cons text line body lines first _ ih =>
    obtain ⟨mid, parsed, rest⟩ := foldlM_cons_ok.mp ran
    obtain ⟨mid', parsed', begun, -⟩ := builds.line first
    obtain rfl : mid' = mid := Except.ok.inj (parsed'.symm.trans parsed)
    obtain ⟨table, there, -⟩ := builds.holds
    exact ih begun (all.line first builds.idle.sound builds.new there parsed) rest

/-- The table that a full one makes active has no entry that was there before. -/
theorem session_young (ok : ctx.Idle) (session : Session conf) (full : session.kind = .newrt)
    (ran : ctx.parseRecs conf (session.texts.map fun text => (text, .ample)) = .ok next)
    (active : next.rtable = some rt) (there : next.tables rt = some table) :
    Young ctx.nextRte table := by
  obtain ⟨old, source, was, from_⟩ := ok.active_there
  obtain ⟨first, new, started, builds, -, fullrt⟩ :=
    start_builds conf ok was from_ session.starts (by rw [full]; nofun)
  -- The table is empty when it is started.
  have ends := parseRtRec_ends ok conf .ample session.start
  rw [started] at ends
  have advances : Advances ctx session.start first := ends
  have all : AllYoung ctx.nextRte first new := by
    refine ⟨advances.later.grows, ?_⟩
    intro table is sid mtype id sidFits mtypeFits found
    obtain ⟨table', there', -, -, -, routes⟩ := builds.holds
    obtain rfl : table' = table := Option.some.inj (there'.symm.trans is)
    have none_ := routes sid mtype sidFits mtypeFits
    rw [if_pos full, entryAt, found] at none_
    cases none_
  obtain ⟨mid, body, built, place⟩ := builds.lines session.reads
  have place : mid.fullrt = first.fullrt := by
    simp only [RtCtx.place, Prod.mk.injEq] at place
    exact place.2.2.2.2.2.2
  have counted : ∀ expected ∈ session.stopRest[0]?,
      atoi expected = toInt ((0 + session.lines.countP session.kind.counts : Nat) : Int) := by
    rw [Nat.zero_add]
    exact session.counted
  obtain ⟨last, stopped, rtable, tables, -⟩ :=
    built.stop conf session.stops counted (by rw [full]; nofun) .ample
  obtain rfl : last = next := by
    have ran' : ctx.parseRecs conf (session.texts.map fun text => (text, .ample)) = .ok last := by
      rw [Session.texts, List.map_append, List.map_cons, parseRecs]
      exact foldlM_append_ok.mpr ⟨mid, foldlM_cons_ok.mpr ⟨first, started, body⟩,
        foldlM_cons_ok.mpr ⟨last, stopped, rfl⟩⟩
    exact Except.ok.inj (ran'.symm.trans ran)
  obtain rfl : new = rt := Option.some.inj (rtable.symm.trans active)
  rw [tables] at there
  exact (all.lines session.reads builds body).2 table there

end RtCtx

end Rmr
