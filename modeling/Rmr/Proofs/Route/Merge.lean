import Rmr.Proofs.Route.Load

/-! A full table and its updates come to one full table with all their records. -/

namespace Rmr

/-- What is told last by lines and more lines. -/
theorem lastTold_append {α : Type} (told : Line → Option α) (lines more : List Line) (before : α) :
    lastTold told (lines ++ more) before = lastTold told more (lastTold told lines before) := by
  unfold lastTold
  rw [List.reverse_append, List.findSome?_append]
  cases more.reverse.findSome? told <;> rfl

/-- The records of a table and of those that came after it are read one by one. -/
theorem Session.merged_reads {conf : RtConf} (session : Session conf)
    (later : List (Session conf)) :
    List.Forall₂ (Reads conf) (session.body ++ later.flatMap Session.body)
      (session.lines ++ later.flatMap Session.lines) := by
  -- The induction follows the sessions, each of which brings its own readings.
  refine List.rel_append session.reads ?_
  induction later with
  | nil => exact .nil
  | cons next later ih => exact List.rel_append next.reads ih

/-- The records that a full table is put between here. -/
theorem merged_delimits : Delimits .newrt ['s', 't', 'a', 'r', 't'] [] "newrt|start".toList ∧
    Delimits .newrt ['e', 'n', 'd'] [] "newrt|end".toList :=
  ⟨⟨by decide +kernel, "newrt".toList, "start".toList, by decide +kernel⟩,
    ⟨by decide +kernel, "newrt".toList, "end".toList, by decide +kernel⟩⟩

/-- Where there is no count, each count is right. -/
theorem no_count (right : CStr → Prop) : ∀ count ∈ ([] : List CStr)[0]?, right count := by
  intro count given
  cases given

/-- A full table is no update. -/
theorem TableKind.newrt_ne_updatert : TableKind.newrt ≠ .updatert := by decide

/-- A full table is no map of managed elements. -/
theorem TableKind.newrt_ne_meidMap : TableKind.newrt ≠ .meidMap := by decide

/-- One full table with the records of a table and of those that came after it. -/
def Session.merged {conf : RtConf} (session : Session conf) (later : List (Session conf)) :
    Session conf where
  kind := .newrt
  start := "newrt|start".toList
  body := session.body ++ later.flatMap Session.body
  stop := "newrt|end".toList
  lines := session.lines ++ later.flatMap Session.lines
  startRest := []
  stopRest := []
  starts := merged_delimits.1
  reads := session.merged_reads later
  stops := merged_delimits.2
  counted := no_count _
  apart := fun map => absurd map TableKind.newrt_ne_meidMap

namespace RtCtx

variable {ctx next : RtCtx} {conf : RtConf}

/-- A table is active, and what it answers. -/
structure Shows (ctx : RtCtx) (rt : Nat) (routes : Int → Int → Option Entry)
    (owners : CStr → Option CStr) : Prop where
  active : ctx.rtable = some rt
  exactly : ∀ sid mtype, InInt sid → InInt mtype →
    ctx.answer rt sid mtype false = (routes mtype sid).map some
  withAlt : ∀ sid mtype, InInt sid → InInt mtype →
    ctx.answer rt sid mtype true = ((routes mtype sid).or
      (if sid = unsetSubid then none else routes mtype unsetSubid)).map some
  owned : ∀ meid, ctx.getMeidOwner rt meid = if meid = [] then none else owners meid

variable {routes : Int → Int → Option Entry} {owners : CStr → Option CStr} {rt : Nat}

/-- Tables that show the same answer the same. -/
theorem Shows.same (shows_ : ctx.Shows rt routes owners) {rt' : Nat}
    (shows' : next.Shows rt' routes owners) :
    (∀ sid mtype tryAlt, InInt sid → InInt mtype →
      ctx.answer rt sid mtype tryAlt = next.answer rt' sid mtype tryAlt) ∧
    ∀ meid, ctx.getMeidOwner rt meid = next.getMeidOwner rt' meid := by
  -- Both show the same routes, with and without the alternative, and the same owners.
  constructor
  · intro sid mtype tryAlt sidFits mtypeFits
    cases tryAlt with
    | false =>
      rw [shows_.exactly sid mtype sidFits mtypeFits, shows'.exactly sid mtype sidFits mtypeFits]
    | true =>
      rw [shows_.withAlt sid mtype sidFits mtypeFits, shows'.withAlt sid mtype sidFits mtypeFits]
  · intro meid
    rw [shows_.owned, shows'.owned]

/-- What a session shows that was processed on top of a table. -/
theorem Shows.load (shows_ : ctx.Shows rt routes owners) {session : Session conf} {old rt' : Nat}
    (active : ctx.rtable = some old) (loaded : Loaded session ctx next old rt') :
    next.Shows rt' (fun mtype sid => lastTold (·.route? conf mtype sid) session.lines
        (if session.kind = .newrt then none else routes mtype sid))
      (fun meid => lastTold (·.owner? meid) session.lines (owners meid)) := by
  obtain rfl : rt = old := Option.some.inj (shows_.active.symm.trans active)
  have found : ∀ sid mtype, InInt sid → InInt mtype → session.routes ctx rt mtype sid =
      lastTold (·.route? conf mtype sid) session.lines
        (if session.kind = .newrt then none else routes mtype sid) := by
    intro sid mtype sidFits mtypeFits
    -- A session reads the answers before it without the layer for entries that are not there.
    have join : (ctx.answer rt sid mtype false).join = routes mtype sid := by
      rw [shows_.exactly sid mtype sidFits mtypeFits]
      cases routes mtype sid <;> rfl
    rw [Session.routes, join]
  refine ⟨loaded.active, ?_, ?_, ?_⟩
  · intro sid mtype sidFits mtypeFits
    rw [loaded.exactly sid mtype sidFits mtypeFits, found sid mtype sidFits mtypeFits]
  · intro sid mtype sidFits mtypeFits
    rw [loaded.withAlt sid mtype sidFits mtypeFits, found sid mtype sidFits mtypeFits,
      found unsetSubid mtype (by decide) mtypeFits]
  · intro meid
    rw [loaded.owners, Session.owner, shows_.owned]
    split <;> rfl

/-- Whatever is active shows its own answers. -/
theorem Idle.shows (idle : ctx.Idle) (active : ctx.rtable = some rt) :
    ctx.Shows rt (fun mtype sid => (ctx.answer rt sid mtype false).join)
      (fun meid => ctx.getMeidOwner rt meid) := by
  obtain ⟨table, there⟩ := Option.ne_none_iff_exists'.mp ((idle.reached rt).mpr (.inl active))
  have read : ∀ sid mtype,
      ctx.answer rt sid mtype false = ((ctx.answer rt sid mtype false).join).map some := by
    intro sid mtype
    rw [answer_eq_entryAt there]
    exact idle.sound.entryAt_join there sid mtype
  refine ⟨active, fun sid mtype _ _ => read sid mtype, ?_, ?_⟩
  · intro sid mtype _ _
    rw [answer_alt there, ← answer_eq_entryAt there, ← answer_eq_entryAt there]
    -- There is nothing else to try for a lookup that has no subscription id.
    by_cases unset : sid = unsetSubid
    · rw [if_pos unset, if_pos unset, Option.or_none, Option.or_none]
      exact read sid mtype
    · rw [if_neg unset, if_neg unset]
      rw [read sid mtype, read unsetSubid mtype]
      cases (ctx.answer rt sid mtype false).join <;>
        cases (ctx.answer rt unsetSubid mtype false).join <;> rfl
  · intro meid
    split
    · rename_i empty
      simp [getMeidOwner, there, empty]
    · rfl

/-- The tables are rolled whether or not there was a full one. -/
theorem rollAndAck_fullrt (rolled : ctx.rollAndAck = .ok next) : next.fullrt = ctx.fullrt := by
  -- Neither branch of the roll looks at the mark of a full table.
  obtain ⟨mid, ran, is⟩ := bind_eq_ok.mp rolled
  obtain rfl := Except.ok.inj is
  unfold rollTables at ran
  split at ran
  · obtain rfl := Except.ok.inj ran
    rfl
  · obtain ⟨table, _, ran⟩ := bind_eq_ok.mp ran
    split at ran <;> obtain rfl := Except.ok.inj ran <;> rfl

/-- After the end of a full table there was one, and after another end there was one if there had
been one before; but where the count was wrong nothing was rolled in. -/
theorem stop_fullrt (ok : ctx.Ok) {kind : TableKind} {rest : List CStr} {text : CStr}
    (stops : Delimits kind ['e', 'n', 'd'] rest text) (progress : ctx.newRtable.isSome = true)
    (had : kind ≠ .newrt → ctx.fullrt = true) {mem : Mem}
    (parsed : ctx.parseRtRec conf mem text = .ok next) :
    next.rolls = ctx.rolls ∨ next.fullrt = true := by
  obtain ⟨rt, new⟩ := Option.isSome_iff_exists.mp progress
  obtain ⟨table, there⟩ := ok.new_there new
  obtain ⟨few, name, field, fields, named, what⟩ := stops
  -- Each end is dropped, or rolled in and noted.
  have ends : ∀ outcome : Except RtFault RtCtx, ctx.beginRec conf mem text = plainly outcome →
      (outcome = .ok next → next.rolls = ctx.rolls ∨ next.fullrt = true) →
      next.rolls = ctx.rolls ∨ next.fullrt = true := by
    intro outcome begins shows_
    exact shows_ ((parseRtRec_of_plainly begins).symm.trans parsed)
  have dropped : ∀ reason, (ctx.sendRtAck (some reason)).dropNew rt = .ok next →
      next.rolls = ctx.rolls := by
    intro reason ran
    have acked : (ctx.sendRtAck (some reason)).Ok := ok.congr rfl
    obtain ⟨next', dropped, _, _, _, rolls, _⟩ := dropNew_ok acked new
    obtain rfl := Except.ok.inj (dropped.symm.trans ran)
    exact rolls
  -- Which of the three ends it is decides what is noted.
  unfold beginRec at ends
  rw [tokens_eq_fields few, fields] at ends
  cases kind with
  | newrt =>
    apply ends (ctx.newrtEnd rest[0]?)
    · simp [named, TableKind.name, newrtRec, clipped, what, Bind.bind, Except.bind]
    · intro ran
      unfold newrtEnd at ran
      simp only [new, table_ok there, Bind.bind, Except.bind] at ran
      split at ran
      · exact .inl (dropped _ ran)
      · obtain ⟨mid, _, is⟩ := bind_eq_ok.mp ran
        obtain rfl := Except.ok.inj is
        exact .inr rfl
  | updatert =>
    apply ends (ctx.updatertEnd rest[0]?)
    · simp [named, TableKind.name, updatertRec, had (by decide), clipped, what, Bind.bind,
        Except.bind]
    · intro ran
      unfold updatertEnd at ran
      simp only [new, table_ok there, Bind.bind, Except.bind] at ran
      split at ran
      · exact .inl (dropped _ ran)
      · obtain ⟨mid, rolled, is⟩ := bind_eq_ok.mp ran
        obtain rfl := Except.ok.inj is
        exact .inr ((rollAndAck_fullrt rolled).trans (had (by decide)))
  | meidMap =>
    apply ends (ctx.meidMapEnd rest[0]?)
    · simp [named, TableKind.name, meidParser, meidMapRec, what]
    · intro ran
      unfold meidMapEnd at ran
      simp only [new, table_ok there, Bind.bind, Except.bind] at ran
      split at ran
      · exact .inl (dropped _ ran)
      · exact .inr ((rollAndAck_fullrt ran).trans (had (by decide)))

/-- A session that is loaded leaves a full table behind, where it is one or there was one. -/
theorem session_fullrt (ok : ctx.Idle) (session : Session conf)
    (had : session.kind ≠ .newrt → ctx.fullrt = true)
    (ran : ctx.parseRecs conf (session.texts.map fun text => (text, .ample)) = .ok next)
    (rolled : next.rolls = ctx.rolls + 1) : next.fullrt = true := by
  obtain ⟨old, source, active, from_⟩ := ok.active_there
  obtain ⟨first, rt, started, builds, rolls, fullrt⟩ :=
    start_builds conf ok active from_ session.starts (fun update => had (by rw [update]; decide))
  obtain ⟨mid, within, built, place⟩ := builds.lines session.reads
  simp only [RtCtx.place, Prod.mk.injEq] at place
  rw [Session.texts, List.map_append, List.map_cons, parseRecs] at ran
  -- The run is cut in front of the end record, where the table is built and not yet rolled in.
  obtain ⟨mid', before, last⟩ := foldlM_append_ok.mp ran
  obtain rfl : mid = mid' := by
    obtain ⟨first', started', within'⟩ := foldlM_cons_ok.mp before
    obtain rfl := Except.ok.inj (started.symm.trans started')
    exact Except.ok.inj (within.symm.trans within')
  obtain ⟨_, stopped, is⟩ := foldlM_cons_ok.mp last
  cases is
  have ends := stop_fullrt built.idle.toOk session.stops (by rw [built.new]; rfl)
    (fun other => by rw [place.2.2.2.2.2.2, fullrt, had other]) stopped
  rcases ends with same | full
  · rw [place.2.2.2.2.2.1, rolls] at same
    omega
  · exact full

/-- Sessions that all change a table leave one that shows what they told last. -/
theorem Shows.loads (shows_ : ctx.Shows rt routes owners) (ok : ctx.Idle) (full : ctx.fullrt = true)
    (later : List (Session conf)) (changes : ∀ session ∈ later, session.kind ≠ .newrt) :
    ∃ next rt', ctx.parseRecs conf ((later.flatMap Session.texts).map fun text => (text, .ample)) =
        .ok next ∧ next.rolls = ctx.rolls + later.length ∧
      next.Shows rt' (fun mtype sid =>
          lastTold (·.route? conf mtype sid) (later.flatMap Session.lines) (routes mtype sid))
        (fun meid => lastTold (·.owner? meid) (later.flatMap Session.lines) (owners meid)) := by
  -- The induction is on the sessions: what the first leaves active is what the others start from.
  induction later generalizing ctx rt routes owners with
  | nil => exact ⟨ctx, rt, rfl, rfl, shows_⟩
  | cons session later ih =>
    obtain ⟨change, changes⟩ := List.forall_mem_cons.mp changes
    obtain ⟨mid, rt', ran, loaded⟩ := session_loads ok shows_.active session fun _ => full
    have ends := parseRecs_keeps ok conf (session.texts.map fun text => (text, .ample))
    rw [ran] at ends
    have keeps : Keeps ctx mid := ends
    have shown := shows_.load shows_.active loaded
    simp only [if_neg change] at shown
    obtain ⟨next, last, rest, rolls, told⟩ := ih shown keeps.idle
      (session_fullrt ok session (fun _ => full) ran loaded.rolls) changes
    refine ⟨next, last, ?_, ?_, ?_⟩
    · rw [List.flatMap_cons, List.map_append, parseRecs]
      exact foldlM_append_ok.mpr ⟨mid, ran, rest⟩
    · rw [rolls, loaded.rolls, List.length_cons]
      omega
    · simp only [List.flatMap_cons, lastTold_append]
      exact told

/-- From whatever table is active, a full table and any number of updates and maps after it, each of
them rolled in on its own, leave a table that answers every lookup and has every owner as one full
table with all their records has it. -/
theorem updates_merge (conf : RtConf) (recs : List (CStr × Mem)) (ctx : RtCtx)
    (reached : RtCtx.init.parseRecs conf recs = .ok ctx) (session : Session conf)
    (full : session.kind = .newrt) (later : List (Session conf))
    (changes : ∀ change ∈ later, change.kind ≠ .newrt) :
    ∃ next rt one rt',
      ctx.parseRecs conf (((session :: later).flatMap Session.texts).map fun text =>
        (text, .ample)) =
        .ok next ∧
      ctx.parseRecs conf ((session.merged later).texts.map fun text => (text, .ample)) = .ok one ∧
      next.rtable = some rt ∧ one.rtable = some rt' ∧
      next.rolls = ctx.rolls + 1 + later.length ∧ one.rolls = ctx.rolls + 1 ∧
      (∀ sid mtype tryAlt, InInt sid → InInt mtype →
        next.answer rt sid mtype tryAlt = one.answer rt' sid mtype tryAlt) ∧
      ∀ meid, next.getMeidOwner rt meid = one.getMeidOwner rt' meid := by
  have ok := idle_of_parseRecs reached
  obtain ⟨old, active⟩ := Option.ne_none_iff_exists'.mp ok.active
  -- What is active is taken over by neither of them, but for the owners.
  obtain ⟨mid, first, ran, loaded⟩ := session_loads ok active session
    (fun update => absurd (full.symm.trans update) TableKind.newrt_ne_updatert)
  obtain ⟨one, rt', merged, wholly⟩ := session_loads ok active (session.merged later)
    (fun update => absurd (update : TableKind.newrt = .updatert) TableKind.newrt_ne_updatert)
  have ends := parseRecs_keeps ok conf (session.texts.map fun text => (text, .ample))
  rw [ran] at ends
  have keeps : Keeps ctx mid := ends
  have noted : mid.fullrt = true :=
    session_fullrt ok session (fun other => absurd full other) ran loaded.rolls
  have shown := (ok.shows active).load active loaded
  have atOnce := (ok.shows active).load active wholly
  simp only [if_pos full] at shown
  obtain ⟨next, rt, rest, rolls, shows_⟩ := shown.loads keeps.idle noted later changes
  -- Both show what all the lines tell last, from nothing on.
  have same : one.Shows rt' _ _ := atOnce
  simp only [Session.merged, if_true, lastTold_append] at same
  refine ⟨next, rt, one, rt', ?_, merged, shows_.active, wholly.active, ?_, wholly.rolls,
    shows_.same same⟩
  · rw [List.flatMap_cons, List.map_append, parseRecs]
    exact foldlM_append_ok.mpr ⟨mid, ran, rest⟩
  · rw [rolls, loaded.rolls]

/-- A table, and an update of it. -/
theorem updates_merge_two : ∃ next rt one rt',
    RtCtx.init.parseRecs confHere (([fullTable, earlyUpdate].flatMap Session.texts).map
      fun text => (text, .ample)) = .ok next ∧
    RtCtx.init.parseRecs confHere ((fullTable.merged [earlyUpdate]).texts.map
      fun text => (text, .ample)) = .ok one ∧
    next.rtable = some rt ∧ one.rtable = some rt' ∧ next.rolls = 2 ∧ one.rolls = 1 ∧
    (∀ sid mtype tryAlt, InInt sid → InInt mtype →
      next.answer rt sid mtype tryAlt = one.answer rt' sid mtype tryAlt) ∧
    ∀ meid, next.getMeidOwner rt meid = one.getMeidOwner rt' meid :=
  updates_merge confHere [] RtCtx.init rfl fullTable rfl [earlyUpdate]
    (by simp [earlyUpdate, oneRoute])

end RtCtx

end Rmr
