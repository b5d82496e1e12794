import Rmr.Proofs.Route.Told

/-! Loading a table: once its records were processed, lookups find what the last of them tells. -/

namespace Rmr

/-- What is told last is told by the first line or after it. -/
theorem lastTold_cons {α : Type} (told : Line → Option α) (line : Line) (lines : List Line)
    (before : α) :
    lastTold told (line :: lines) before = lastTold told lines ((told line).getD before) := by
  -- The last of the lines that tells something is in the rest, or else the first one is asked.
  unfold lastTold
  rw [List.reverse_cons, List.findSome?_append]
  cases lines.reverse.findSome? told with
  | none => cases is : told line <;> simp [is]
  | some value => rfl

/-- Counting one more is counting it before the conversion. -/
theorem toInt_toInt_add_one (count : Nat) :
    toInt (toInt count + 1) = toInt ((count + 1 : Nat) : Int) := by
  rw [toInt_toInt_add]
  norm_cast

namespace RtCtx

variable {ctx next : RtCtx} {rt srt : Nat} {table source : RouteTable} {conf : RtConf}

/-- A table in progress holds what it was told, and counted what it was told. -/
structure Builds (ctx : RtCtx) (rt : Nat) (kind : TableKind) (routes : Int → Int → Option Entry)
    (owners : CStr → Option CStr) (count : Nat) : Prop where
  idle : ctx.Idle
  new : ctx.newRtable = some rt
  holds : ∃ table, ctx.tables rt = some table ∧ table.error = false ∧
    counter kind table = toInt count ∧ (∀ meid, table.hash.me.lookup meid = owners meid) ∧
    ∀ sid mtype, InInt sid → InInt mtype →
      ctx.entryAt table sid mtype = (routes mtype sid).map some

variable {kind : TableKind} {routes : Int → Int → Option Entry} {owners : CStr → Option CStr}
  {count : Nat}

/-- A line that is counted is counted. -/
theorem Told.counter {line : Line} {table' : RouteTable}
    (told : Told conf line ctx table next table') (before : counter kind table = toInt count) :
    counter kind table' = toInt ((count + if kind.counts line then 1 else 0 : Nat) : Int) := by
  -- The kind says which of the two counters a line adds to.
  have updates := told.updates
  have mupdates := told.mupdates
  unfold RtCtx.counter at before ⊢
  by_cases map : kind = .meidMap
  · rw [if_pos map] at before ⊢
    subst map
    rw [mupdates]
    split
    · rw [before, toInt_toInt_add_one]
    · rw [before, Nat.add_zero]
  · rw [if_neg map] at before ⊢
    have same : kind.counts line = TableKind.newrt.counts line := by
      cases line <;> simp [TableKind.counts, map]
    rw [updates, same]
    split
    · rw [before, toInt_toInt_add_one]
    · rw [before, Nat.add_zero]

/-- One line more. -/
theorem Builds.line (builds : Builds ctx rt kind routes owners count) {text : CStr} {line : Line}
    (reads : Reads conf text line) :
    ∃ next, ctx.parseRtRec conf .ample text = .ok next ∧
      Builds next rt kind (fun mtype sid => (line.route? conf mtype sid).getD (routes mtype sid))
        (fun meid => (line.owner? meid).getD (owners meid))
        (count + if kind.counts line then 1 else 0) ∧
      next.place = ctx.place := by
  -- What the line tells goes before what was told of the same pair earlier.
  obtain ⟨table, there, error, counted, me, mt⟩ := builds.holds
  obtain ⟨next, table', parsed, edits, now, told⟩ :=
    line_processed reads builds.idle.sound builds.new there
  have ends := parseRtRec_ends builds.idle conf .ample text
  rw [parsed] at ends
  have place := edits.place
  simp only [RtCtx.place, Prod.mk.injEq] at place
  refine ⟨next, parsed, ⟨Advances.idle ends, place.2.2.1.trans builds.new, table', now, ?_, ?_, ?_,
    ?_⟩, edits.place⟩
  · rw [told.error, error]
  · exact told.counter counted
  · intro meid
    rw [told.owners, me]
  · intro sid mtype sidFits mtypeFits
    rw [told.routes sid mtype sidFits mtypeFits, mt sid mtype sidFits mtypeFits]
    cases line.route? conf mtype sid with
    | none => rfl
    | some entry => rfl

/-- All lines of a session, one after the other. -/
theorem Builds.lines {body : List CStr} {lines : List Line}
    (reads : List.Forall₂ (Reads conf) body lines)
    (builds : Builds ctx rt kind routes owners count) :
    ∃ next, ctx.parseRecs conf (body.map fun text => (text, .ample)) = .ok next ∧
      Builds next rt kind (fun mtype sid => lastTold (·.route? conf mtype sid) lines
        (routes mtype sid))
        (fun meid => lastTold (·.owner? meid) lines (owners meid))
        (count + lines.countP kind.counts) ∧
      next.place = ctx.place := by
  -- By induction on the lines, the first of which is told before the rest.
  induction reads generalizing ctx routes owners count with
  | nil => exact ⟨ctx, rfl, builds, rfl⟩
  | @cons text line body lines first _ ih =>
    obtain ⟨mid, parsed, begun, place⟩ := builds.line first
    obtain ⟨next, ran, done, place'⟩ := ih begun
    refine ⟨next, ?_, ?_, place'.trans place⟩
    · rw [List.map_cons, parseRecs]
      exact foldlM_cons_ok.mpr ⟨mid, parsed, ran⟩
    · have total : count + (line :: lines).countP kind.counts =
          count + (if kind.counts line then 1 else 0) + lines.countP kind.counts := by
        rw [List.countP_cons]
        omega
      rw [total]
      simp only [lastTold_cons]
      exact done

/-- Lines that come when no table is meant for them leave the active table alone. -/
theorem lines_keep {body : List CStr} {lines : List Line}
    (reads : List.Forall₂ (Reads conf) body lines) (ok : ctx.Idle) :
    ∃ next, ctx.parseRecs conf (body.map fun text => (text, .ample)) = .ok next ∧ next.Idle ∧
      next.rolls = ctx.rolls ∧ next.fullrt = ctx.fullrt := by
  -- By induction on the lines, which do what they tell to a table in progress, or nothing.
  induction reads generalizing ctx with
  | nil => exact ⟨ctx, rfl, ok, rfl, rfl⟩
  | @cons text line body lines first _ ih =>
    have one : ∃ mid, ctx.parseRtRec conf .ample text = .ok mid ∧ mid.rolls = ctx.rolls ∧
        mid.fullrt = ctx.fullrt := by
      cases new : ctx.newRtable with
      | none => exact ⟨ctx, line_ignored first new, rfl, rfl⟩
      | some rt =>
        obtain ⟨table, there⟩ := ok.new_there new
        obtain ⟨mid, _, parsed, edits, _⟩ := line_processed first ok.sound new there
        have place := edits.place
        simp only [RtCtx.place, Prod.mk.injEq] at place
        exact ⟨mid, parsed, place.2.2.2.2.2.1, place.2.2.2.2.2.2⟩
    obtain ⟨mid, parsed, rolls, fullrt⟩ := one
    have ends := parseRtRec_ends ok conf .ample text
    rw [parsed] at ends
    obtain ⟨next, ran, idle, rolls', fullrt'⟩ := ih (Advances.idle ends)
    refine ⟨next, ?_, idle, rolls'.trans rolls, fullrt'.trans fullrt⟩
    rw [List.map_cons, parseRecs]
    exact foldlM_cons_ok.mpr ⟨mid, parsed, ran⟩

/-- A start record forces out what is in progress, and starts its table. -/
theorem start_begins (conf : RtConf) (ok : ctx.Ok) {rest : List CStr} {text : CStr}
    (starts : Delimits kind ['s', 't', 'a', 'r', 't'] rest text)
    (full : kind = .updatert → ctx.fullrt = true) (mem : Mem) :
    ∃ mid, ctx.beginRec conf mem text = .ok (mid, some kind) ∧ Begins ctx mid ∧
      mid.newRtable = none ∧ mid.rtable = ctx.rtable ∧ mid.rolls = ctx.rolls ∧
      mid.fullrt = ctx.fullrt := by
  -- The three kinds of start; that of an update needs a full table before it.
  obtain ⟨few, name, field, fields, named, what⟩ := starts
  obtain ⟨next, forced, begins, rest'⟩ := forceOut_ok ok
  unfold beginRec
  rw [tokens_eq_fields few, fields]
  cases kind with
  | newrt =>
    refine ⟨{ next with tableId := rest[0]?.map clip }, ?_, begins.congr_right rfl, rest'⟩
    simp only [named, TableKind.name, List.head?_cons]
    simp [newrtRec, clipped, what, forced, Bind.bind, Except.bind, Pure.pure, Except.pure]
  | updatert =>
    refine ⟨{ next with tableId := rest[0]?.elim next.tableId fun id => some (clip id) }, ?_,
      begins.congr_right rfl, rest'⟩
    simp only [named, TableKind.name, List.head?_cons]
    cases rest <;> simp [updatertRec, full rfl, clipped, what, forced, Bind.bind, Except.bind,
      Pure.pure, Except.pure]
  | meidMap =>
    refine ⟨{ next with tableId := rest[0]?.map clip }, ?_, begins.congr_right rfl, rest'⟩
    simp only [named, TableKind.name, List.head?_cons]
    simp [meidParser, meidMapRec, what, forced, Bind.bind, Except.bind, Pure.pure, Except.pure]

/-- What a lookup without an alternative finds is the entry for the pair. -/
theorem answer_eq_entryAt (there : ctx.tables rt = some table) (sid mtype : Int) :
    ctx.answer rt sid mtype false = ctx.entryAt table sid mtype := by
  unfold answer utaGetRte entryAt
  simp only [there, Bind.bind, Option.bind_some]
  cases table.hash.mt.lookup (buildRtKey sid mtype) with
  | none => rfl
  | some id => rfl

/-- With an alternative, it is that or the entry for the message type alone. -/
theorem answer_alt (there : ctx.tables rt = some table) (sid mtype : Int) :
    ctx.answer rt sid mtype true = (ctx.entryAt table sid mtype).or
      (if sid = unsetSubid then none else ctx.entryAt table unsetSubid mtype) := by
  -- The alternative is asked for only where the first key finds nothing.
  unfold answer utaGetRte entryAt
  simp only [there, Bind.bind, Option.bind_some]
  cases table.hash.mt.lookup (buildRtKey sid mtype) with
  | none => by_cases unset : sid = unsetSubid <;> simp [unset]
  | some id => rfl

/-- The entries of a table that is there can be read. -/
theorem Sound.entryAt_join (sound : ctx.Sound) (there : ctx.tables rt = some table)
    (sid mtype : Int) :
    ctx.entryAt table sid mtype = (ctx.entryAt table sid mtype).join.map some := by
  -- An entry that is found is there, so that its being read never fails.
  unfold entryAt
  cases found : table.hash.mt.lookup (buildRtKey sid mtype) with
  | none => rfl
  | some id =>
    obtain ⟨rte, is, _⟩ := sound.found there found
    simp [is]

/-- A table that was just started holds what is kept of the active one. -/
theorem start_builds (conf : RtConf) (ok : ctx.Idle) (active : ctx.rtable = some srt)
    (from_ : ctx.tables srt = some source) {rest : List CStr} {text : CStr}
    (starts : Delimits kind ['s', 't', 'a', 'r', 't'] rest text)
    (full : kind = .updatert → ctx.fullrt = true) :
    ∃ next rt, ctx.parseRtRec conf .ample text = .ok next ∧
      Builds next rt kind
        (fun mtype sid => if kind = .newrt then none else (ctx.entryAt source sid mtype).join)
        (fun meid => source.hash.me.lookup meid) 0 ∧
      next.rolls = ctx.rolls ∧ next.fullrt = ctx.fullrt := by
  obtain ⟨mid, begun, begins, new, rtable, rolls, fullrt⟩ :=
    start_begins conf ok.toOk starts full .ample
  have idle : mid.Idle := ⟨begins.ok, begins.prep.trans ok.idle⟩
  have from' : mid.tables srt = some source := by
    rw [begins.others srt (ok.apart srt active).2.1, from_]
  have captures : Captures .ample := ⟨rfl, fun _ => rfl⟩
  obtain ⟨cleared, ran, clears, from'', started⟩ :=
    start_ok idle new (rtable.trans active) from' .ample kind
  obtain ⟨next, parsed, rt, starts⟩ := started.exists fun fault not => not.2 captures
  obtain ⟨table, there, _, reset, copies⟩ := starts.started
  obtain ⟨error, me, mt⟩ := copies captures
  have place := clears.place
  simp only [RtCtx.place, Prod.mk.injEq] at place
  have nextIdle : next.Idle := ⟨starts.ok, starts.prepRt⟩
  refine ⟨next, rt, ?_, ⟨nextIdle, starts.newRtable, table, there, error, ?_, me, ?_⟩, ?_, ?_⟩
  · unfold parseRtRec
    simp only [begun, Bind.bind, Except.bind, ran]
    exact parsed
  · unfold counter
    have zero : toInt ((0 : Nat) : Int) = 0 := toInt_natCast (by decide)
    rw [zero]
    split at reset
    · rename_i map
      rw [if_pos map]
      exact reset
    · rename_i other
      rw [if_neg other]
      exact reset
  · intro sid mtype _ _
    by_cases full : kind = .newrt
    · rw [if_pos full]
      unfold entryAt
      rw [mt, full]
      rfl
    · -- What is cloned is still what it was in the active table.
      rw [if_neg full, ← ok.sound.entryAt_join from_]
      have later : ctx.Later next := by
        have detached : mid.Later mid.prepDetach := ⟨Nat.le_refl _, (Later.refl mid).kept⟩
        exact ((begins.later.trans detached).trans clears.later).trans starts.later
      have same : table.hash.mt.lookup (buildRtKey sid mtype) =
          source.hash.mt.lookup (buildRtKey sid mtype) := by
        rw [mt, if_pos (by simpa using full)]
      unfold entryAt
      rw [same]
      cases found : source.hash.mt.lookup (buildRtKey sid mtype) with
      | none => rfl
      | some id =>
        obtain ⟨_, _, below⟩ := ok.sound.found from_ found
        obtain ⟨rte', is', _⟩ := starts.ok.sound.found there (same.trans found)
        obtain ⟨rte, is, equal⟩ := later.kept id below rte' is'
        simp [is, is', equal]
  · rw [starts.rolls, place.2.2.2.2.2.1]
    exact rolls
  · rw [starts.fullrt, place.2.2.2.2.2.2]
    exact fullrt

/-- The end of a table with a count that is right for it makes it the active one. -/
theorem Builds.stop (conf : RtConf) (builds : Builds ctx rt kind routes owners count)
    {rest : List CStr} {text : CStr} (stops : Delimits kind ['e', 'n', 'd'] rest text)
    (counted : ∀ expected ∈ rest[0]?, atoi expected = toInt count)
    (full : kind = .updatert → ctx.fullrt = true) (mem : Mem) :
    ∃ next, ctx.parseRtRec conf mem text = .ok next ∧ next.rtable = some rt ∧
      next.tables = ctx.tables ∧ next.rtes = ctx.rtes ∧ next.rolls = ctx.rolls + 1 := by
  -- The three kinds of end compare the same count, and then roll the table in.
  obtain ⟨few, name, field, fields, named, what⟩ := stops
  obtain ⟨table, there, error, counter, _⟩ := builds.holds
  have new := builds.new
  obtain ⟨next, rolled, begins, became⟩ := rollAndAck_ok builds.idle.toOk new there
  obtain ⟨rtable, tables, rtes⟩ := became error
  have rolls : next.rolls = ctx.rolls + 1 := by
    have inactive : ctx.rtable ≠ some rt := fun active => (builds.idle.apart rt active).2.1 new
    cases begins.moves with
    | stays _ same => exact absurd (same.symm.trans rtable) inactive
    | aside _ _ same => exact absurd (same.symm.trans rtable) inactive
    | rolls _ _ _ _ _ rolls => exact rolls
  have right : rest[0]?.filter
      (fun expected => RtCtx.counter kind table ≠ atoi expected) = none := by
    rw [Option.filter_eq_none_iff]
    intro expected given
    simp [counter, counted expected given]
  have begun : ∃ last, ctx.beginRec conf mem text = plainly (.ok last) ∧ last.rtable = next.rtable ∧
      last.tables = next.tables ∧ last.rtes = next.rtes ∧ last.rolls = next.rolls := by
    unfold beginRec
    rw [tokens_eq_fields few, fields]
    cases kind with
    | newrt =>
      refine ⟨{ next with rtableReady := true, fullrt := true }, ?_, rfl, rfl, rfl, rfl⟩
      have ended : ctx.newrtEnd rest[0]? =
          .ok { next with rtableReady := true, fullrt := true } := by
        unfold newrtEnd
        rw [new]
        cases given : rest[0]? with
        | none =>
          simp only [table_ok there, Bind.bind, Except.bind, Option.filter_none, rolled]
          rfl
        | some expected =>
          rw [given] at right
          have right : (some expected).filter (fun expected => table.updates ≠ atoi expected) =
            none := right
          simp only [table_ok there, Bind.bind, Except.bind, right, rolled]
          rfl
      rw [← ended]
      simp [named, TableKind.name, newrtRec, clipped, what, Bind.bind, Except.bind]
    | updatert =>
      refine ⟨{ next with rtableReady := true }, ?_, rfl, rfl, rfl, rfl⟩
      have right : rest[0]?.filter (fun expected => table.updates ≠ atoi expected) = none := right
      have ended : ctx.updatertEnd rest[0]? = .ok { next with rtableReady := true } := by
        unfold updatertEnd
        rw [new]
        simp only [table_ok there, Bind.bind, Except.bind, right, rolled]
        rfl
      rw [← ended]
      simp [named, TableKind.name, updatertRec, full rfl, clipped, what, Bind.bind, Except.bind]
    | meidMap =>
      refine ⟨next, ?_, rfl, rfl, rfl, rfl⟩
      have ended : ctx.meidMapEnd rest[0]? = .ok next := by
        unfold meidMapEnd
        rw [new]
        cases given : rest[0]? with
        | none => simp only [table_ok there, Bind.bind, Except.bind, Option.filter_none, rolled]
        | some expected =>
          rw [given] at right
          have right : (some expected).filter (fun expected => table.mupdates ≠ atoi expected) =
            none := right
          simp only [table_ok there, Bind.bind, Except.bind, right, rolled]
      rw [← ended]
      simp [named, TableKind.name, meidParser, meidMapRec, what]
  obtain ⟨last, plain, rtable', tables', rtes', rolls'⟩ := begun
  exact ⟨last, parseRtRec_of_plainly plain, rtable'.trans rtable, tables'.trans tables,
    rtes'.trans rtes, rolls'.trans rolls⟩

/-- The context with another number of updates in a table. -/
def recount (ctx : RtCtx) (rt : Nat) (updates : Int) : RtCtx :=
  { ctx with
    tables := Function.update ctx.tables rt
      ((ctx.tables rt).map fun table => { table with updates := updates }) }

/-- A table that is there is counted for by changing its number of updates. -/
theorem bumpUpdates_eq (there : ctx.tables rt = some table) :
    ctx.bumpUpdates rt = .ok (ctx.recount rt (toInt (table.updates + 1))) := by
  refine bind_eq_ok.mpr ⟨table, table_ok there, ?_⟩
  unfold recount setTable
  rw [there]
  rfl

/-- Entries do not depend on the number of updates. -/
theorem delRte_recount (ctx : RtCtx) (rt : Nat) (updates : Int) (id : Nat) :
    (ctx.recount rt updates).delRte id = (ctx.delRte id).map fun ctx => ctx.recount rt updates := by
  -- The entry is released or freed, neither of which looks at a table.
  unfold delRte RtCtx.rte
  cases is : ctx.rtes id with
  | none => simp only [recount, is]; rfl
  | some rte =>
    simp only [recount, is, Bind.bind, Except.bind]
    split
    · rfl
    · rfl

/-- The context with an entry that was just made, and is in no table yet. -/
def withRte (ctx : RtCtx) (rte : Rte) : RtCtx :=
  { ctx.setRte ctx.nextRte rte with nextRte := ctx.nextRte + 1 }

/-- The steps of `uta_add_rte` once the entry is made. -/
theorem utaAddRte_eq (there : ctx.tables rt = some table) {mem : Mem} (made : mem.rte = true)
    (key : UInt64) (nrrgroups : Int) :
    ctx.utaAddRte mem rt key nrrgroups =
      ((table.hash.mt.lookup key).elim Except.ok (fun old ctx => ctx.delRte old)
        (ctx.withRte ⟨⟨key, 0, List.replicate
          (if nrrgroups < 0 then 10 else nrrgroups.toNat) none⟩, 1⟩)).map fun after =>
        (after.setTable rt { table with hash.mt := table.hash.mt.insert key ctx.nextRte },
          some ctx.nextRte) := by
  -- The entry is filed under its key, after the old one there is given up.
  unfold utaAddRte
  rw [if_neg (by simp [made])]
  have read : (ctx.withRte ⟨⟨key, 0, List.replicate
      (if nrrgroups < 0 then 10 else nrrgroups.toNat) none⟩, 1⟩).table rt = .ok table :=
    table_ok there
  unfold withRte at read ⊢
  simp only [read, Bind.bind, Except.bind]
  cases table.hash.mt.lookup key with
  | none => rfl
  | some old =>
    simp only [Option.elim_some]
    generalize RtCtx.delRte _ old = deleted
    cases deleted with
    | error fault => rfl
    | ok after => rfl

/-- An entry is added whatever the number of updates is. -/
theorem utaAddRte_recount (there : ctx.tables rt = some table) (mem : Mem) (updates : Int)
    (key : UInt64) (nrrgroups : Int) :
    (ctx.recount rt updates).utaAddRte mem rt key nrrgroups =
      (ctx.utaAddRte mem rt key nrrgroups).map fun out => (out.1.recount rt updates, out.2) := by
  -- Filing an entry changes the table's entries only, so that it commutes with counting.
  cases made : mem.rte with
  | false =>
    simp only [utaAddRte, made, if_true]
    rfl
  | true =>
    have recounted : (ctx.recount rt updates).tables rt =
        some { table with updates := updates } := by
      simp [recount, there]
    have commute : ∀ after : RtCtx,
        (after.recount rt updates).setTable rt
            { table with updates := updates, hash.mt := table.hash.mt.insert key ctx.nextRte } =
          (after.setTable rt { table with hash.mt := table.hash.mt.insert key ctx.nextRte }).recount
            rt updates := by
      intro after
      simp [recount, setTable]
    have first : ∀ rte, (ctx.recount rt updates).withRte rte =
        (ctx.withRte rte).recount rt updates :=
      fun _ => rfl
    rw [utaAddRte_eq recounted made, utaAddRte_eq there made, first]
    cases table.hash.mt.lookup key with
    | none => exact congrArg (fun ctx => Except.ok (ctx, _)) (commute _)
    | some old =>
      simp only [Option.elim_some, delRte_recount]
      generalize RtCtx.delRte _ old = deleted
      cases deleted with
      | error fault => rfl
      | ok after => exact congrArg (fun ctx => Except.ok (ctx, _)) (commute after)

/-- `build_entry` and the count of updates do not depend on each other. -/
theorem buildEntry_recount (there : ctx.tables rt = some table) (conf : RtConf) (mem : Mem)
    (updates : Int) (tsField : Option CStr) (subid : Int) (rrField : Option CStr) :
    (ctx.recount rt updates).buildEntry conf mem rt tsField subid rrField =
      (ctx.buildEntry conf mem rt tsField subid rrField).map fun ctx => ctx.recount rt updates := by
  -- The branches of `build_entry`; each step of them commutes with counting.
  cases tsField with
  | none => rfl
  | some tsField =>
    cases rrField with
    | none => rfl
    | some rrField =>
      unfold buildEntry
      simp only [clipped, Bind.bind, Except.bind]
      split
      · split
        · rfl
        · rw [utaAddRte_recount there]
          generalize ctx.utaAddRte mem rt _ _ = added
          cases added with
          | error fault => rfl
          | ok out =>
            obtain ⟨mid, id⟩ := out
            cases id with
            | none => rfl
            | some id =>
              simp only [Except.map, RtCtx.rte]
              cases is : mid.rtes id with
              | none => simp only [recount, is]
              | some rte => simp only [recount, is]; rfl
      · rfl

/-- `build_entry` does not count. -/
theorem buildEntry_updates (sound : ctx.Sound) (there : ctx.tables rt = some table) {mem : Mem}
    {tsField rrField : CStr} {subid : Int}
    (built : ctx.buildEntry conf mem rt (some tsField) subid (some rrField) = .ok next) :
    ∃ table', next.tables rt = some table' ∧ table'.updates = table.updates := by
  -- A record that is skipped changes nothing; any other files one entry.
  by_cases skipped : ingests conf (clip tsField) = true → utaTokenise (clip rrField) 64 ';' = []
  · rw [buildEntry_skips skipped] at built
    cases built
    exact ⟨table, there, rfl⟩
  · obtain ⟨forUs, some_⟩ := Classical.not_imp.mp skipped
    obtain ⟨first, rest, groups⟩ := List.exists_cons_of_ne_nil some_
    cases made : mem.rte with
    | true =>
      obtain ⟨next', built', _, now, _⟩ := buildEntry_adds sound there made forUs groups subid
      rw [built'] at built
      cases built
      exact ⟨_, now, rfl⟩
    | false =>
      rw [buildEntry_faults made forUs groups] at built
      cases built

/-- An `rte` record of three fields is an `mse` record without a subscription id. -/
theorem rte_eq_mse (ok : ctx.Idle) (conf : RtConf) (mem : Mem) {text text' : CStr}
    {name name' tsField rrField subid : CStr} {rest : List CStr}
    (fields : fieldsOf text = [name, tsField, rrField])
    (named : clip name = ['r', 't', 'e'])
    (fields' : fieldsOf text' = name' :: tsField :: subid :: rrField :: rest)
    (few : (fieldsOf text').length ≤ 128) (named' : clip name' = ['m', 's', 'e'])
    (unset : atoi subid = unsetSubid) :
    ctx.parseRtRec conf mem text = ctx.parseRtRec conf mem text' := by
  have first : ctx.parseRtRec conf mem text = ctx.rteRec conf mem [tsField, rrField] := by
    apply parseRtRec_of_plainly
    unfold beginRec
    rw [tokens_eq_fields (by rw [fields]; simp), fields]
    simp only [named]
    rfl
  have second : ctx.parseRtRec conf mem text' =
      ctx.mseRec conf mem (tsField :: subid :: rrField :: rest) := by
    apply parseRtRec_of_plainly
    unfold beginRec
    rw [tokens_eq_fields few, fields']
    simp only [named']
    rfl
  rw [first, second]
  unfold rteRec mseRec
  cases new : ctx.newRtable with
  | none => rfl
  | some rt =>
    obtain ⟨table, there⟩ := ok.new_there new
    -- The record is counted before or after the entry is made, which is the same.
    have before := buildEntry_recount there conf mem (toInt (table.updates + 1)) (some tsField)
      unsetSubid (some rrField)
    have after : ∀ next, ctx.buildEntry conf mem rt (some tsField) unsetSubid
      (some rrField) = .ok next →
        next.bumpUpdates rt = .ok (next.recount rt (toInt (table.updates + 1))) := by
      intro next built
      obtain ⟨table', there', updates⟩ := buildEntry_updates ok.sound there built
      rw [bumpUpdates_eq there', updates]
    show (ctx.bumpUpdates rt >>= fun ctx =>
        ctx.buildEntry conf mem rt (some tsField) unsetSubid (some rrField)) =
      (ctx.buildEntry conf mem rt (some tsField) (atoi subid) (some rrField) >>= fun ctx =>
        ctx.bumpUpdates rt)
    rw [bumpUpdates_eq there, unset]
    simp only [Bind.bind, Except.bind]
    refine before.trans ?_
    cases built : ctx.buildEntry conf mem rt (some tsField) unsetSubid (some rrField) with
    | error fault => rfl
    | ok next => exact (after next built).symm

end RtCtx

/-- What a lookup is to find for a pair once a session was processed on top of a table. -/
def Session.routes {conf : RtConf} (session : Session conf) (ctx : RtCtx) (old : Nat)
    (mtype sid : Int) : Option Entry :=
  lastTold (·.route? conf mtype sid) session.lines
    (if session.kind = .newrt then none else (ctx.answer old sid mtype false).join)

/-- What the owner of a managed element is to be once a session was processed on top of a table. -/
def Session.owner {conf : RtConf} (session : Session conf) (ctx : RtCtx) (old : Nat)
    (meid : CStr) : Option CStr :=
  if meid = [] then none
  else lastTold (·.owner? meid) session.lines (ctx.getMeidOwner old meid)

/-- A map of managed elements tells nothing of routes. -/
theorem Session.routes_map {conf : RtConf} (session : Session conf)
    (map : session.kind = .meidMap) (ctx : RtCtx) (old : Nat) (mtype sid : Int) :
    session.routes ctx old mtype sid = (ctx.answer old sid mtype false).join := by
  -- The lines of a map are about owners, so that none of them tells a route.
  have silent : session.lines.reverse.findSome? (·.route? conf mtype sid) = none := by
    rw [List.findSome?_eq_none_iff]
    intro line among
    have uncounted := session.apart map line (List.mem_reverse.mp among)
    cases line with
    | route => simp [TableKind.counts] at uncounted
    | remove => simp [TableKind.counts] at uncounted
    | own => rfl
    | disown => rfl
    | blank => rfl
  unfold Session.routes lastTold
  rw [silent, map]
  rfl

namespace RtCtx

variable {ctx next : RtCtx} {conf : RtConf}

/-- What the table that a session made active is to answer. -/
structure Loaded (session : Session conf) (ctx next : RtCtx) (old rt : Nat) : Prop where
  active : next.rtable = some rt
  rolls : next.rolls = ctx.rolls + 1
  exactly : ∀ sid mtype, InInt sid → InInt mtype →
    next.answer rt sid mtype false = (session.routes ctx old mtype sid).map some
  withAlt : ∀ sid mtype, InInt sid → InInt mtype →
    next.answer rt sid mtype true = ((session.routes ctx old mtype sid).or
      (if sid = unsetSubid then none else session.routes ctx old mtype unsetSubid)).map some
  owners : ∀ meid, next.getMeidOwner rt meid = session.owner ctx old meid
  /-- A map of managed elements changes no route. -/
  mapOnly : session.kind = .meidMap → ∀ sid mtype, InInt sid → InInt mtype → ∀ tryAlt,
    next.answer rt sid mtype tryAlt = ctx.answer old sid mtype tryAlt

/-- A session whose table may be started loads it. -/
theorem session_loads (ok : ctx.Idle) {old : Nat} (active : ctx.rtable = some old)
    (session : Session conf) (full : session.kind = .updatert → ctx.fullrt = true) :
    ∃ next rt, ctx.parseRecs conf (session.texts.map fun text => (text, .ample)) = .ok next ∧
      Loaded session ctx next old rt := by
  -- The start clones the active table, the lines edit the clone, and the end rolls it in.
  obtain ⟨source, from_⟩ := Option.ne_none_iff_exists'.mp ((ok.reached old).mpr (.inl active))
  obtain ⟨first, rt, started, builds, rolls, fullrt⟩ :=
    start_builds conf ok active from_ session.starts full
  obtain ⟨mid, ran, built, place⟩ := builds.lines session.reads
  have place : mid.rolls = first.rolls ∧ mid.fullrt = first.fullrt := by
    simp only [RtCtx.place, Prod.mk.injEq] at place
    exact ⟨place.2.2.2.2.2.1, place.2.2.2.2.2.2⟩
  have counted : ∀ expected ∈ session.stopRest[0]?,
      atoi expected = toInt ((0 + session.lines.countP session.kind.counts : Nat) : Int) := by
    rw [Nat.zero_add]
    exact session.counted
  obtain ⟨next, stopped, rtable, tables, rtes, rolled⟩ :=
    built.stop conf session.stops counted
      (fun update => by rw [place.2, fullrt, full update]) .ample
  obtain ⟨table, there, _, _, me, mt⟩ := built.holds
  have now : next.tables rt = some table := by
    rw [tables, there]
  have found : ∀ sid mtype, InInt sid → InInt mtype →
      next.entryAt table sid mtype = (session.routes ctx old mtype sid).map some := by
    intro sid mtype sidFits mtypeFits
    have same : next.entryAt table sid mtype = mid.entryAt table sid mtype := by
      unfold entryAt
      rw [rtes]
    rw [same, mt sid mtype sidFits mtypeFits, Session.routes, answer_eq_entryAt from_]
  refine ⟨next, rt, ?_, rtable, by rw [rolled, place.1, rolls], ?_, ?_, ?_, ?_⟩
  · rw [Session.texts, List.map_append, List.map_cons, parseRecs]
    exact foldlM_append_ok.mpr ⟨mid, foldlM_cons_ok.mpr ⟨first, started, ran⟩,
      foldlM_cons_ok.mpr ⟨next, stopped, rfl⟩⟩
  · intro sid mtype sidFits mtypeFits
    rw [answer_eq_entryAt now, found sid mtype sidFits mtypeFits]
  · intro sid mtype sidFits mtypeFits
    rw [answer_alt now, found sid mtype sidFits mtypeFits]
    by_cases unset : sid = unsetSubid
    · rw [if_pos unset, if_pos unset]
      simp
    · have unsetFits : InInt unsetSubid := by decide
      rw [if_neg unset, if_neg unset, found unsetSubid mtype unsetFits mtypeFits]
      cases session.routes ctx old mtype sid <;> rfl
  · intro meid
    simp only [getMeidOwner, now, Session.owner, from_, Bind.bind, Option.bind_some, me]
    split <;> rfl
  · intro map sid mtype sidFits mtypeFits tryAlt
    have same : ∀ sid, InInt sid →
        next.entryAt table sid mtype = ctx.entryAt source sid mtype := by
      intro sid sidFits
      rw [found sid mtype sidFits mtypeFits, session.routes_map map, answer_eq_entryAt from_,
        ← ok.sound.entryAt_join from_]
    cases tryAlt with
    | false => rw [answer_eq_entryAt now, answer_eq_entryAt from_, same sid sidFits]
    | true => rw [answer_alt now, answer_alt from_, same sid sidFits, same unsetSubid (by decide)]

/-- An update that comes before any full table is not taken up. -/
theorem session_ignored (ok : ctx.Idle) (session : Session conf) (update : session.kind = .updatert)
    (early : ctx.fullrt = false) :
    ∃ next, ctx.parseRecs conf (session.texts.map fun text => (text, .ample)) = .ok next ∧
      next.rolls = ctx.rolls ∧ SameAnswers ctx next := by
  -- Before a full table both the start and the end of an update are left aside.
  have idles : ∀ {ctx : RtCtx} {what text : CStr} {rest : List CStr}, ctx.fullrt = false →
      Delimits session.kind what rest text → ctx.parseRtRec conf .ample text = .ok ctx := by
    rintro ctx what text rest early ⟨few, name, field, fields, named, _⟩
    apply parseRtRec_of_plainly
    unfold beginRec
    rw [tokens_eq_fields few, fields]
    simp [named, update, TableKind.name, updatertRec, early, Bind.bind, Except.bind, Pure.pure,
      Except.pure, plainly]
  obtain ⟨next, ran, idle, rolls, fullrt⟩ := lines_keep session.reads ok
  have run : ctx.parseRecs conf (session.texts.map fun text => (text, .ample)) = .ok next := by
    rw [Session.texts, List.map_append, List.map_cons, parseRecs]
    exact foldlM_append_ok.mpr ⟨next, foldlM_cons_ok.mpr ⟨ctx, idles early session.starts, ran⟩,
      foldlM_cons_ok.mpr ⟨next, idles (fullrt.trans early) session.stops, rfl⟩⟩
  have ends := parseRecs_keeps ok conf (session.texts.map fun text => (text, .ample))
  rw [run] at ends
  exact ⟨next, run, rolls, Keeps.answers ends ok rolls⟩

/-- From whatever table is active, each well formed session makes a table active that answers every
lookup with what the last record about it told; an update before the first full table is not taken
up and changes no answer. A record of three fields is one without a subscription id. -/
theorem table_load (conf : RtConf) (recs : List (CStr × Mem)) (ctx : RtCtx)
    (reached : RtCtx.init.parseRecs conf recs = .ok ctx) :
    (∀ session : Session conf, ∃ old next, ctx.rtable = some old ∧
      ctx.parseRecs conf (session.texts.map fun text => (text, .ample)) = .ok next ∧
      if session.kind = .updatert ∧ ctx.fullrt = false then
        next.rolls = ctx.rolls ∧ SameAnswers ctx next
      else ∃ rt, Loaded session ctx next old rt) ∧
    ∀ (mem : Mem) (text text' name name' tsField rrField subid : CStr) (rest : List CStr),
      fieldsOf text = [name, tsField, rrField] → clip name = ['r', 't', 'e'] →
      fieldsOf text' = name' :: tsField :: subid :: rrField :: rest →
      (fieldsOf text').length ≤ 128 → clip name' = ['m', 's', 'e'] → atoi subid = unsetSubid →
      ctx.parseRtRec conf mem text = ctx.parseRtRec conf mem text' := by
  -- The one case in which nothing is loaded is that of an update before a full table.
  have ok := idle_of_parseRecs reached
  constructor
  · intro session
    obtain ⟨old, active⟩ := Option.ne_none_iff_exists'.mp ok.active
    by_cases early : session.kind = .updatert ∧ ctx.fullrt = false
    · obtain ⟨next, ran, rolls, same⟩ := session_ignored ok session early.1 early.2
      refine ⟨old, next, active, ran, ?_⟩
      rw [if_pos early]
      exact ⟨rolls, same⟩
    · have full : session.kind = .updatert → ctx.fullrt = true := by
        intro update
        cases is : ctx.fullrt with
        | true => rfl
        | false => exact absurd ⟨update, is⟩ early
      obtain ⟨next, rt, ran, loaded⟩ := session_loads ok active session full
      refine ⟨old, next, active, ran, ?_⟩
      rw [if_neg early]
      exact ⟨rt, loaded⟩
  · intro mem text text' name name' tsField rrField subid rest fields named fields' few named' unset
    exact rte_eq_mse ok conf mem fields named fields' few named' unset

/-- A session with one route, of message type 1 to one endpoint. -/
def oneRoute (kind : TableKind) (start stop : CStr)
    (starts : Delimits kind ['s', 't', 'a', 'r', 't'] [] start)
    (stops : Delimits kind ['e', 'n', 'd'] [] stop) (routes : kind ≠ .meidMap) :
    Session confHere where
  kind := kind
  start := start
  body := ["rte|1|a:1".toList]
  stop := stop
  lines := [.route [] 1 unsetSubid (some [["a:1".toList]])]
  startRest := []
  stopRest := []
  starts := starts
  reads := by
    have fields : fieldsOf "rte|1|a:1".toList = ["rte".toList, "1".toList, "a:1".toList] := by
      decide +kernel
    have type_ : TypeFits (clip "1".toList) := ⟨by decide +kernel, by decide +kernel⟩
    have groups : GroupsFit confHere (clip "a:1".toList) :=
      ⟨by decide +kernel, by decide +kernel, by decide +kernel⟩
    have senders : sendersOf (clip "1".toList) = [] := by decide +kernel
    have mtype : atoi (clip "1".toList) = 1 := by decide +kernel
    have endpoints : groupsOf (clip "a:1".toList) = some [["a:1".toList]] := by decide +kernel
    have named : clip "rte".toList = ['r', 't', 'e'] := by decide +kernel
    have tells := Tells.rte named type_ groups
    rw [senders, mtype, endpoints, ← fields] at tells
    exact .cons ⟨by rw [fields]; decide, tells⟩ .nil
  stops := stops
  counted := by simp
  apart := fun map => absurd map routes

/-- A full table of one route. -/
def fullTable : Session confHere :=
  oneRoute .newrt "newrt|start".toList "newrt|end".toList
    ⟨by decide +kernel, "newrt".toList, "start".toList, by decide +kernel⟩
    ⟨by decide +kernel, "newrt".toList, "end".toList, by decide +kernel⟩ (by decide)

/-- An update of one route. -/
def earlyUpdate : Session confHere :=
  oneRoute .updatert "updatert|start".toList "updatert|end".toList
    ⟨by decide +kernel, "updatert".toList, "start".toList, by decide +kernel⟩
    ⟨by decide +kernel, "updatert".toList, "end".toList, by decide +kernel⟩ (by decide)

/-- A full table on top of the first one. -/
theorem table_load_full : ∃ old next rt, RtCtx.init.rtable = some old ∧
    RtCtx.init.parseRecs confHere (fullTable.texts.map fun text => (text, .ample)) = .ok next ∧
    Loaded fullTable RtCtx.init next old rt := by
  -- The table ends without a wrong count, so that it is loaded.
  obtain ⟨old, next, active, ran, loaded⟩ := (table_load confHere [] RtCtx.init rfl).1 fullTable
  rw [if_neg (by decide)] at loaded
  obtain ⟨rt, loaded⟩ := loaded
  exact ⟨old, next, rt, active, ran, loaded⟩

/-- An update on top of the first table makes no table active that has its route. -/
theorem update_before_full : ¬ ∃ old next rt, RtCtx.init.rtable = some old ∧
    RtCtx.init.parseRecs confHere (earlyUpdate.texts.map fun text => (text, .ample)) = .ok next ∧
    Loaded earlyUpdate RtCtx.init next old rt := by
  -- The run is evaluated: it does not roll, while a load does.
  rintro ⟨old, next, rt, active, ran, loaded⟩
  have yields : Yields (fun next : RtCtx => next.rolls = RtCtx.init.rolls)
      (RtCtx.init.parseRecs confHere (earlyUpdate.texts.map fun text => (text, .ample))) := by
    decide +kernel
  have rolls := loaded.rolls
  rw [yields.of_ok ran] at rolls
  omega

end RtCtx

end Rmr
