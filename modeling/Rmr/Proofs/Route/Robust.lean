import Rmr.Lib.Run
import Rmr.Proofs.Route.Active

/-! Records of any form: which of them the parser fails on, and that all others which it has no use
for change nothing. -/

namespace Rmr

/-- The name of a record and its other fields, as the parser splits them. -/
def recordOf (buf : CStr) : Option (CStr × List CStr) :=
  match utaTokenise (trimEnd (buf.dropWhile isspace)) 128 '|' with
  | [] => none
  | name :: fields => some (clip name, fields)

/-- What the second field of a record says. -/
def wordIs (fields : List CStr) (word : CStr) : Prop := fields[0]?.map clip = some word

instance (fields : List CStr) (word : CStr) : Decidable (wordIs fields word) :=
  inferInstanceAs (Decidable (_ = _))

/-- The second field of a map record starts a map. -/
def mapStarts (fields : List CStr) : Prop := (fields[0]?.map clip).bind (·.head?) = some 's'

instance (fields : List CStr) : Decidable (mapStarts fields) :=
  inferInstanceAs (Decidable (_ = _))

/-- A record of a kind that the parser knows, which it tells by the first letter or for an `m` by
the name, with as many fields as that kind needs. -/
def Understood (name : CStr) (fields : List CStr) : Prop :=
  match name.head? with
  | some 'd' => 2 ≤ fields.length
  | some 'n' => 1 ≤ fields.length
  | some 'r' => 2 ≤ fields.length
  | some 'u' => 1 ≤ fields.length
  | some 'm' =>
    if name = ['m', 's', 'e'] then 3 ≤ fields.length
    else if name = ['m', 'm', 'e', '_', 'a', 'r'] then 2 ≤ fields.length
    else if name = ['m', 'm', 'e', '_', 'd', 'e', 'l'] then 1 ≤ fields.length
    else name = ['m', 'e', 'i', 'd', '_', 'm', 'a', 'p'] ∧
      (mapStarts fields ∨ wordIs fields ['e', 'n', 'd'])
  | _ => False

/-- A record that starts a table: of the full table and the update, all but the end. -/
def StartsTable (name : CStr) (fields : List CStr) : Prop :=
  match name.head? with
  | some 'n' | some 'u' => 1 ≤ fields.length ∧ ¬ wordIs fields ['e', 'n', 'd']
  | some 'm' => name = ['m', 'e', 'i', 'd', '_', 'm', 'a', 'p'] ∧ mapStarts fields
  | _ => False

/-- A record that is malformed, or that comes when no table is in progress and starts none. -/
def Useless (ctx : RtCtx) (buf : CStr) : Prop :=
  ∀ name fields, recordOf buf = some (name, fields) →
    ¬ Understood name fields ∨ (ctx.newRtable = none ∧ ¬ StartsTable name fields)

/-- A record that makes the parser use a token or a new table that is not there. -/
def UsesNil (ctx : RtCtx) (name : CStr) (fields : List CStr) : Prop :=
  (name.head? = some 'n' ∧ (fields = [] ∨
    (wordIs fields ['e', 'n', 'd'] ∧ 2 ≤ fields.length ∧ ctx.newRtable = none))) ∨
  (name.head? = some 'u' ∧ fields = [] ∧ ctx.fullrt = true) ∨
  (name.head? = some 'r' ∧ fields.length < 2 ∧ ctx.newRtable ≠ none) ∨
  (name = ['m', 'e', 'i', 'd', '_', 'm', 'a', 'p'] ∧ wordIs fields ['e', 'n', 'd'] ∧
    2 ≤ fields.length ∧ ctx.newRtable = none)

instance (ctx : RtCtx) (name : CStr) (fields : List CStr) : Decidable (UsesNil ctx name fields) :=
  inferInstanceAs (Decidable (_ ∨ _))

/-- What the parser needs of a record and of the memory it asks for. -/
def Handled (ctx : RtCtx) (rec : CStr × Mem) : Prop :=
  (∀ record ∈ recordOf rec.1, ¬ UsesNil ctx record.1 record.2) ∧ RtCtx.Captures rec.2 ∧
    rec.2.rte = true

namespace RtCtx

variable {ctx next : RtCtx} {rt : Nat} {table : RouteTable} {conf : RtConf}

/-- An entry is built where there is a field for everything and memory for it. -/
theorem buildEntry_goes (sound : ctx.Sound) (there : ctx.tables rt = some table) (conf : RtConf)
    {mem : Mem} (made : mem.rte = true) (tsField : CStr) (subid : Int) (rrField : CStr) :
    ∃ next, ctx.buildEntry conf mem rt (some tsField) subid (some rrField) = .ok next ∧
      Edits ctx rt next := by
  -- A record that is skipped changes nothing; any other files one entry.
  have edits := buildEntry_edits sound there conf mem (some tsField) subid (some rrField)
  by_cases skipped : ingests conf (clip tsField) = true → utaTokenise (clip rrField) 64 ';' = []
  · rw [buildEntry_skips skipped] at edits ⊢
    exact ⟨ctx, rfl, edits⟩
  · obtain ⟨forUs, some_⟩ := Classical.not_imp.mp skipped
    obtain ⟨first, rest, groups⟩ := List.exists_cons_of_ne_nil some_
    obtain ⟨next, built, _⟩ := buildEntry_adds sound there made forUs groups subid
    rw [built] at edits ⊢
    exact ⟨next, rfl, edits⟩

/-- The end of a full table comes through, unless a count is compared with a table that is not
there. -/
theorem newrtEnd_goes (ok : ctx.Ok) {count : Option CStr}
    (known : count ≠ none → ctx.newRtable ≠ none) : ∃ next, ctx.newrtEnd count = .ok next := by
  -- Without a table in progress only a count is a fault; with one nothing is.
  unfold newrtEnd
  cases new : ctx.newRtable with
  | none =>
    cases count with
    | none => exact ⟨ctx, rfl⟩
    | some count => exact absurd new (known (by simp))
  | some rt =>
    obtain ⟨table, there⟩ := ok.new_there new
    have acked : ∀ reason, (ctx.sendRtAck reason).Ok := fun reason => ok.congr rfl
    have rolled : ∃ next, (do
        let ctx ← ctx.rollAndAck
        return { ctx with rtableReady := true, fullrt := true }) = Except.ok next := by
      obtain ⟨next, rolled, _⟩ := rollAndAck_ok ok new there
      exact ⟨_, bind_eq_ok.mpr ⟨next, rolled, rfl⟩⟩
    cases count with
    | none =>
      simp only [table_ok there, Bind.bind, Except.bind]
      exact rolled
    | some count =>
      simp only [table_ok there, Bind.bind, Except.bind]
      split
      · obtain ⟨next, dropped, _⟩ := dropNew_ok (acked (some (.missing _ table.updates))) new
        exact ⟨next, dropped⟩
      · exact rolled

/-- The end of an update always comes through. -/
theorem updatertEnd_goes (ok : ctx.Ok) (count : Option CStr) :
    ∃ next, ctx.updatertEnd count = .ok next := by
  -- Without a table in progress nothing is compared; with one it is there.
  unfold updatertEnd
  cases new : ctx.newRtable with
  | none => exact ⟨ctx, rfl⟩
  | some rt =>
    obtain ⟨table, there⟩ := ok.new_there new
    simp only [table_ok there, Bind.bind, Except.bind]
    split
    · have acked : (ctx.sendRtAck (some .unwritten)).Ok := ok.congr rfl
      obtain ⟨next, dropped, _⟩ := dropNew_ok acked new
      exact ⟨next, dropped⟩
    · obtain ⟨next, rolled, _⟩ := rollAndAck_ok ok new there
      rw [rolled]
      exact ⟨_, rfl⟩

/-- The end of a map comes through, unless a count is compared with a table that is not there. -/
theorem meidMapEnd_goes (ok : ctx.Ok) {count : Option CStr}
    (known : count ≠ none → ctx.newRtable ≠ none) : ∃ next, ctx.meidMapEnd count = .ok next := by
  -- Without a table in progress only a count is a fault; with one nothing is.
  unfold meidMapEnd
  cases new : ctx.newRtable with
  | none =>
    cases count with
    | none => exact ⟨ctx, rfl⟩
    | some count => exact absurd new (known (by simp))
  | some rt =>
    obtain ⟨table, there⟩ := ok.new_there new
    have acked : ∀ reason, (ctx.sendRtAck reason).Ok := fun reason => ok.congr rfl
    obtain ⟨rolled, isRolled, _⟩ := rollAndAck_ok ok new there
    cases count with
    | none =>
      simp only [table_ok there, Bind.bind, Except.bind]
      exact ⟨rolled, isRolled⟩
    | some count =>
      simp only [table_ok there, Bind.bind, Except.bind]
      split
      · obtain ⟨next, dropped, _⟩ := dropNew_ok (acked (some (.missing _ table.updates))) new
        exact ⟨next, dropped⟩
      · exact ⟨rolled, isRolled⟩

/-- A `del` record always comes through. -/
theorem delRec_goes (ok : ctx.Ok) (conf : RtConf) (fields : List CStr) :
    ∃ next, ctx.delRec conf fields = .ok next := by
  -- The entry is taken away, and the record is counted, in a table that is there.
  unfold delRec
  split
  · rename_i rt tsField subid rest new
    obtain ⟨table, there⟩ := ok.new_there new
    obtain ⟨mid, trashed, edits, _⟩ := trashEntry_ok ok.sound there conf tsField (atoi subid)
    obtain ⟨table', there'⟩ := edits.there
    obtain ⟨next, bumped, _⟩ := bumpUpdates_ok edits.sound there'
    exact ⟨next, bind_eq_ok.mpr ⟨mid, trashed, bumped⟩⟩
  · exact ⟨ctx, rfl⟩

/-- An `mse` record comes through where there is memory for its entry. -/
theorem mseRec_goes (ok : ctx.Ok) (conf : RtConf) {mem : Mem} (made : mem.rte = true)
    (fields : List CStr) : ∃ next, ctx.mseRec conf mem fields = .ok next := by
  -- The entry is built, and the record is counted, in a table that is there.
  unfold mseRec
  split
  · rename_i rt tsField subid rrField rest new
    obtain ⟨table, there⟩ := ok.new_there new
    obtain ⟨mid, built, edits⟩ :=
      buildEntry_goes ok.sound there conf made tsField (atoi subid) rrField
    obtain ⟨table', there'⟩ := edits.there
    obtain ⟨next, bumped, _⟩ := bumpUpdates_ok edits.sound there'
    exact ⟨next, bind_eq_ok.mpr ⟨mid, built, bumped⟩⟩
  · exact ⟨ctx, rfl⟩

/-- An `rte` record comes through where there is memory for its entry, unless a table is in progress
and one of its fields is missing. -/
theorem rteRec_goes (ok : ctx.Ok) (conf : RtConf) {mem : Mem} (made : mem.rte = true)
    {fields : List CStr} (whole : ctx.newRtable ≠ none → 2 ≤ fields.length) :
    ∃ next, ctx.rteRec conf mem fields = .ok next := by
  -- The record is counted before its fields are used, of which two are needed.
  unfold rteRec
  cases new : ctx.newRtable with
  | none => exact ⟨ctx, rfl⟩
  | some rt =>
    obtain ⟨table, there⟩ := ok.new_there new
    obtain ⟨mid, bumped, edits, there', _⟩ := bumpUpdates_ok ok.sound there
    have two := whole (by simp [new])
    match fields, two with
    | tsField :: rrField :: rest, _ =>
      obtain ⟨next, built, _⟩ := buildEntry_goes edits.sound there' conf made tsField
        (((tsField :: rrField :: rest)[2]?.map atoi).getD unsetSubid) rrField
      exact ⟨next, bind_eq_ok.mpr ⟨mid, bumped, built⟩⟩

/-- The other managed element records always come through. -/
theorem mmeRec_goes (ok : ctx.Ok) (mem : Mem) (name first : CStr) (fields : List CStr) :
    ∃ next, ctx.mmeRec mem name first fields = .ok next := by
  -- Each of these records tests for its fields before it uses them.
  unfold mmeRec
  cases new : ctx.newRtable with
  | none => exact ⟨ctx, rfl⟩
  | some rt =>
    obtain ⟨table, there⟩ := ok.new_there new
    dsimp only
    split
    · cases fields with
      | nil => exact ⟨ctx, rfl⟩
      | cons meidList rest =>
        obtain ⟨mid, owned, edits, there'⟩ := parseMeidAr_ok ok.sound there mem first meidList
        obtain ⟨next, bumped, _⟩ := bumpMupdates_ok edits.sound there'
        exact ⟨next, bind_eq_ok.mpr ⟨mid, owned, bumped⟩⟩
    · split
      · obtain ⟨mid, disowned, edits, there'⟩ := parseMeidDel_ok ok.sound there first
        obtain ⟨next, bumped, _⟩ := bumpMupdates_ok edits.sound there'
        exact ⟨next, bind_eq_ok.mpr ⟨mid, disowned, bumped⟩⟩
      · exact ⟨ctx, rfl⟩

/-- What comes through still does so for a record that starts no table. -/
theorem plainly_goes {outcome : Except RtFault RtCtx} (goes : ∃ next, outcome = .ok next) :
    ∃ out, plainly outcome = .ok out := by
  obtain ⟨next, is⟩ := goes
  rw [is]
  exact ⟨(next, none), rfl⟩

/-- A record of a full table comes through, if its second field is there and a count is compared
only with a table that is there. -/
theorem newrtRec_goes (ok : ctx.Ok) {what : CStr} {rest : List CStr}
    (known : clip what = ['e', 'n', 'd'] → rest ≠ [] → ctx.newRtable ≠ none) :
    ∃ out, ctx.newrtRec (what :: rest) = .ok out := by
  -- The second field is used without a test; the third only if it is there.
  unfold newrtRec
  simp only [clipped, List.getElem?_cons_zero, Bind.bind, Except.bind]
  split
  · rename_i ended
    apply plainly_goes
    apply newrtEnd_goes ok
    intro counted
    apply known ended
    rintro rfl
    exact counted rfl
  · obtain ⟨next, forced, _⟩ := forceOut_ok ok
    rw [forced]
    exact ⟨_, rfl⟩

/-- A record of an update comes through, if its second field is there or there was no full table. -/
theorem updatertRec_goes (ok : ctx.Ok) {fields : List CStr}
    (whole : ctx.fullrt = true → fields ≠ []) : ∃ out, ctx.updatertRec fields = .ok out := by
  -- Before a full table nothing is used; after one the second field is.
  unfold updatertRec
  split
  · exact ⟨_, rfl⟩
  · rename_i full
    cases fields with
    | nil => exact absurd rfl (whole (by simpa using full))
    | cons what rest =>
      simp only [clipped, List.getElem?_cons_zero, Bind.bind, Except.bind]
      split
      · exact plainly_goes (updatertEnd_goes ok _)
      · obtain ⟨next, forced, _⟩ := forceOut_ok ok
        rw [forced]
        exact ⟨_, rfl⟩

/-- A managed element record comes through, if a count is compared only with a table that is
there. -/
theorem meidParser_goes (ok : ctx.Ok) (mem : Mem) {name : CStr} {fields : List CStr}
    (known : name = ['m', 'e', 'i', 'd', '_', 'm', 'a', 'p'] → wordIs fields ['e', 'n', 'd'] →
      2 ≤ fields.length → ctx.newRtable ≠ none) :
    ∃ out, ctx.meidParser mem name fields = .ok out := by
  -- The record is tested for its fields; only the end of a map has a count to compare.
  unfold meidParser
  cases fields with
  | nil => exact ⟨_, rfl⟩
  | cons what rest =>
    dsimp only
    split
    · rename_i map
      unfold meidMapRec
      dsimp only
      split
      · obtain ⟨next, forced, _⟩ := forceOut_ok ok
        rw [forced]
        exact ⟨_, rfl⟩
      · split
        · rename_i ended
          apply plainly_goes
          apply meidMapEnd_goes ok
          intro counted
          refine known map (congrArg some ended) ?_
          cases rest with
          | nil => exact absurd rfl counted
          | cons count rest => simp
        · exact ⟨_, rfl⟩
    · exact plainly_goes (mmeRec_goes ok mem name what rest)

/-- A record that is handled begins, whatever it is. -/
theorem beginRec_goes (ok : ctx.Ok) (conf : RtConf) {mem : Mem} (made : mem.rte = true) {buf : CStr}
    (handled : ∀ record ∈ recordOf buf, ¬ UsesNil ctx record.1 record.2) :
    ∃ out, ctx.beginRec conf mem buf = .ok out := by
  unfold beginRec
  cases tokens : utaTokenise (trimEnd (buf.dropWhile isspace)) 128 '|' with
  | nil => exact ⟨_, rfl⟩
  | cons name fields =>
    have there : recordOf buf = some (clip name, fields) := by
      unfold recordOf
      rw [tokens]
    have fine : ¬ UsesNil ctx (clip name) fields := handled _ there
    unfold UsesNil at fine
    push Not at fine
    obtain ⟨full, update, route, map⟩ := fine
    dsimp only
    -- One case for each letter that a record may begin with.
    split
    · exact plainly_goes (delRec_goes ok conf fields)
    · rename_i letter
      obtain ⟨some_, known⟩ := full letter
      cases fields with
      | nil => exact absurd rfl some_
      | cons what rest =>
        apply newrtRec_goes ok
        intro ended counted
        refine known (congrArg some ended) ?_
        cases rest with
        | nil => exact absurd rfl counted
        | cons count rest => simp
    · split
      · exact plainly_goes (mseRec_goes ok conf made fields)
      · exact meidParser_goes ok mem map
    · rename_i letter
      apply plainly_goes
      apply rteRec_goes ok conf made
      intro new
      by_contra short
      exact new (route letter (by omega))
    · rename_i letter
      apply updatertRec_goes ok
      intro seen none
      exact absurd seen (by simpa using update letter none)
    · exact ⟨_, rfl⟩

/-- A record that is handled comes through. -/
theorem parseRtRec_goes (ok : ctx.Idle) (conf : RtConf) {rec : CStr × Mem}
    (handled : Handled ctx rec) :
    ∃ next, ctx.parseRtRec conf rec.2 rec.1 = .ok next ∧ next.Idle := by
  obtain ⟨fine, captures, made⟩ := handled
  have ends := parseRtRec_ends ok conf rec.2 rec.1
  obtain ⟨⟨mid, start⟩, begun⟩ := beginRec_goes ok.toOk conf made fine
  have goes : ∃ next, ctx.parseRtRec conf rec.2 rec.1 = .ok next := by
    unfold parseRtRec
    have first := beginRec_ends ok.toOk conf rec.2 rec.1
    rw [begun] at first ⊢
    simp only [Bind.bind, Except.bind]
    cases start with
    | none => exact ⟨mid, rfl⟩
    | some kind =>
      -- With memory for it, the table that the record asks for is started.
      have advances := first.begins.advances ok first.rolled
      obtain ⟨srt, source, active, from_⟩ := advances.idle.toOk.active_there
      obtain ⟨cleared, ran, _, _, starts⟩ := start_ok advances.idle (first.starts (by simp)) active
        from_ rec.2 kind
      obtain ⟨next, started, _⟩ := starts.exists fun fault is => is.2 captures
      have ran : mid.prepDetach.prepClear = .ok cleared := ran
      dsimp only
      rw [ran]
      exact ⟨next, started⟩
  obtain ⟨next, parsed⟩ := goes
  rw [parsed] at ends
  exact ⟨next, parsed, Advances.idle ends⟩

/-- A record that the parser has no use for changes nothing. -/
theorem beginRec_useless (conf : RtConf) (mem : Mem) {buf : CStr}
    (fine : ∀ record ∈ recordOf buf, ¬ UsesNil ctx record.1 record.2) (useless : Useless ctx buf) :
    ctx.beginRec conf mem buf = .ok (ctx, none) := by
  unfold beginRec
  cases tokens : utaTokenise (trimEnd (buf.dropWhile isspace)) 128 '|' with
  | nil => rfl
  | cons name fields =>
    have there : recordOf buf = some (clip name, fields) := by
      unfold recordOf
      rw [tokens]
    have fine : ¬ UsesNil ctx (clip name) fields := fine _ there
    have useless := useless _ _ there
    unfold UsesNil at fine
    push Not at fine
    obtain ⟨full, update, route, map⟩ := fine
    unfold Understood StartsTable at useless
    dsimp only
    split
    · -- Without a table, or with a field missing, nothing is deleted.
      rename_i letter
      simp only [letter] at useless
      unfold delRec
      split
      · rename_i rt tsField subid rest new
        simp [new] at useless
      · rfl
    · rename_i letter
      obtain ⟨some_, known⟩ := full letter
      simp only [letter] at useless
      cases fields with
      | nil => exact absurd rfl some_
      | cons what rest =>
        -- What is not malformed here is the end of a table that is not in progress.
        obtain ⟨new, unstarted⟩ := useless.resolve_left (by simp)
        have ended : clip what = ['e', 'n', 'd'] := by
          by_contra other
          exact unstarted ⟨by simp, fun is => other (Option.some.inj is)⟩
        cases rest with
        | nil => simp [newrtRec, clipped, ended, newrtEnd, new, plainly, Bind.bind, Except.bind,
            Pure.pure, Except.pure]
        | cons count rest => exact absurd new (known (congrArg some ended) (by simp))
    · rename_i letter
      simp only [letter] at useless
      split
      · rename_i entry
        rw [if_pos entry] at useless
        unfold mseRec
        split
        · rename_i rt tsField subid rrField rest new
          simp [new] at useless
        · rfl
      · rename_i other
        rw [if_neg other] at useless
        unfold meidParser
        cases fields with
        | nil => rfl
        | cons what rest =>
          dsimp only
          split
          · rename_i isMap
            rw [if_neg (by rw [isMap]; decide), if_neg (by rw [isMap]; decide)] at useless
            unfold meidMapRec
            dsimp only
            split
            · rename_i starts
              simp [isMap, mapStarts, starts] at useless
            · split
              · rename_i ended
                have known := map isMap (congrArg some ended)
                have new : ctx.newRtable = none := by
                  rcases useless with malformed | ⟨new, _⟩
                  · exact absurd ⟨isMap, Or.inr (congrArg some ended)⟩ malformed
                  · exact new
                cases rest with
                | nil => simp [meidMapEnd, new, plainly, Bind.bind, Except.bind, Pure.pure,
                    Except.pure]
                | cons count rest => exact absurd new (known (by simp))
              · rfl
          · rename_i notMap
            unfold mmeRec
            cases new : ctx.newRtable with
            | none => rfl
            | some rt =>
              -- With a table in progress, the record is malformed.
              have malformed := useless.resolve_right (by simp [new])
              dsimp only
              split
              · rename_i ar
                rw [if_pos ar] at malformed
                cases rest with
                | nil => rfl
                | cons meidList rest => simp at malformed
              · rename_i notAr
                rw [if_neg notAr] at malformed
                split
                · rename_i del
                  rw [if_pos del] at malformed
                  simp at malformed
                · rfl
    · rename_i letter
      simp only [letter] at useless
      unfold rteRec
      cases new : ctx.newRtable with
      | none => rfl
      | some rt =>
        have short := useless.resolve_right (by simp [new])
        exact absurd (route letter (by omega)) (by simp [new])
    · rename_i letter
      simp only [letter] at useless
      unfold updatertRec
      split
      · rfl
      · rename_i seen
        have seen : ctx.fullrt = true := by simpa using seen
        cases fields with
        | nil => exact absurd seen (by simpa using update letter rfl)
        | cons what rest =>
          obtain ⟨new, unstarted⟩ := useless.resolve_left (by simp)
          have ended : clip what = ['e', 'n', 'd'] := by
            by_contra other
            exact unstarted ⟨by simp, fun is => other (Option.some.inj is)⟩
          simp [clipped, ended, updatertEnd, new, plainly, Bind.bind, Except.bind, Pure.pure,
            Except.pure]
    · rfl

/-- However records follow each other, as long as none of them has the parser use what is not there
and there is memory, all of them come through, and those that the parser has no use for leave the
context as it is. -/
theorem parseRecs_robust (conf : RtConf) (earlier recs : List (CStr × Mem)) (ctx : RtCtx)
    (reached : RtCtx.init.parseRecs conf earlier = .ok ctx)
    (handled : Along (fun ctx rec => ctx.parseRtRec conf rec.2 rec.1) Handled ctx recs) :
    (∃ last, ctx.parseRecs conf recs = .ok last) ∧
      Along (fun ctx rec => ctx.parseRtRec conf rec.2 rec.1)
        (fun mid rec => Useless mid rec.1 → mid.parseRtRec conf rec.2 rec.1 = .ok mid)
          ctx recs := by
  -- A step lemma takes each record through; what is useless is left out by the same run.
  have ok := idle_of_parseRecs reached
  constructor
  · obtain ⟨last, ran, _⟩ := handled.goes (fun idle meets => parseRtRec_goes idle conf meets) ok
    exact ⟨last, ran⟩
  · apply handled.imp ?_ ?_ ok
    · intro mid rec next idle meets parsed
      obtain ⟨next', parsed', idle'⟩ := parseRtRec_goes idle conf meets
      rw [parsed] at parsed'
      cases parsed'
      exact idle'
    · intro mid rec idle meets useless
      unfold parseRtRec
      rw [beginRec_useless conf rec.2 meets.1 useless]
      rfl

instance (mem : Mem) : Decidable (Captures mem) :=
  decidable_of_iff (mem.table 0 = true ∧ mem.capture .mt = .all ∧ mem.capture .me = .all)
    ⟨fun ⟨table, mt, me⟩ => ⟨table, fun space => by cases space <;> assumption⟩,
      fun ⟨table, all⟩ => ⟨table, all .mt, all .me⟩⟩

instance (ctx : RtCtx) (rec : CStr × Mem) : Decidable (Handled ctx rec) :=
  inferInstanceAs (Decidable (_ ∧ _))

/-- Records out of order and records with fields missing, around a table of one route. -/
def untidy : List (CStr × Mem) :=
  ["rte|1|a:1", "newrt|end", "newrt|start", "del|1", "rte|1|a:1", "mme_ar|b:1", "newrt|end|1",
    "mse|1|2", "updatert|end|7", "what|is|this"].map fun text => (text.toList, .ample)

/-- None of them has the parser use what is not there. -/
theorem parseRecs_robust_untidy :
    (∃ last, RtCtx.init.parseRecs confHere untidy = .ok last) ∧
      Along (fun ctx rec => ctx.parseRtRec confHere rec.2 rec.1)
        (fun mid rec => Useless mid rec.1 → mid.parseRtRec confHere rec.2 rec.1 = .ok mid)
        RtCtx.init untidy :=
  parseRecs_robust confHere [] untidy RtCtx.init rfl (by decide +kernel)

/-- The end of a full table with a count, when none was started, uses the table that is not there.
-/
theorem end_without_start_uses_nil :
    ¬ ∃ last, RtCtx.init.parseRecs confHere [("newrt|end|3".toList, .ample)] = .ok last := by
  -- The record is parsed to a fault, and not to a context.
  rintro ⟨last, ran⟩
  have fails : ¬ Yields (fun _ => True)
      (RtCtx.init.parseRecs confHere [("newrt|end|3".toList, .ample)]) := by
    decide +kernel
  exact fails (Yields.intro ran trivial)

end RtCtx

end Rmr
