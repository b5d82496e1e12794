import Rmr.Proofs.Route.Alike
import Rmr.Proofs.Route.Groups

/-! The records that add an entry have the same effect exactly when the same entry is read of them.
-/

namespace Rmr

open RtCtx

variable {conf : RtConf} {mem : Mem} {fields fields' : List CStr}

/-- One round robin group, by the names that are added to it. -/
def fillNames (conf : RtConf) (mem : Mem) (filling : Filling) (names : List (CStr × Nat) × Nat) :
    Filling :=
  let filling := names.1.foldl (fillEp conf mem names.2) filling
  if filling.hasEp then { filling with cgidx := filling.cgidx + 1, hasEp := false } else filling

/-- The name of the process is passed over. -/
theorem foldl_fillEp_others (grp : Nat) (toks : List (CStr × Nat)) (filling : Filling) :
    toks.foldl (fillEp conf mem grp) filling =
      (toks.filter fun tok => tok.1 ≠ conf.myName).foldl (fillEp conf mem grp) filling := by
  -- By induction on the tokens; the name of this process leaves the filling as it is.
  induction toks generalizing filling with
  | nil => rfl
  | cons tok toks ih =>
    by_cases own : tok.1 = conf.myName
    · have passed : fillEp conf mem grp filling tok = filling := by rw [fillEp, if_pos own]
      rw [List.foldl_cons, passed, List.filter_cons_of_neg (by simpa using own), ih]
    · rw [List.filter_cons_of_pos (by simpa using own), List.foldl_cons, List.foldl_cons, ih]

/-- Only the names that are added to a group matter. -/
theorem fillGroup_names (filling : Filling) (fresh : filling.hasEp = false) (gtok : CStr)
    (grp : Nat) :
    fillGroup conf mem filling (gtok, grp) =
      fillNames conf mem filling (addedNames conf gtok, grp) := by
  -- What is left of the tokens is what is filled in, and without any no endpoint is.
  unfold fillGroup fillNames addedNames
  dsimp only
  rw [foldl_fillEp_others]
  cases tokens : utaRmipTokenise gtok conf.ipList 64 ',' with
  | nil => simp [fresh]
  | cons tok toks => simp

/-- A group is done with before the next one. -/
theorem fillNames_fresh (filling : Filling) (names : List (CStr × Nat) × Nat) :
    (fillNames conf mem filling names).hasEp = false := by
  -- A group with an endpoint moves on to the next slot; one without leaves its mark as it was.
  unfold fillNames
  dsimp only
  split
  · rfl
  · rename_i none_
    simpa using none_

/-- Only the names that are added to the groups matter. -/
theorem foldl_fillGroup (gtokens : List CStr) (start : Nat) (filling : Filling)
    (fresh : filling.hasEp = false) :
    (gtokens.zipIdx start).foldl (fillGroup conf mem) filling =
      ((gtokens.map (addedNames conf)).zipIdx start).foldl (fillNames conf mem) filling := by
  -- By induction on the groups, each of which starts without an endpoint.
  induction gtokens generalizing start filling with
  | nil => rfl
  | cons gtok gtokens ih =>
    rw [List.map_cons, List.zipIdx_cons, List.zipIdx_cons, List.foldl_cons, List.foldl_cons,
      fillGroup_names filling fresh, ih _ _ (fillNames_fresh _ _)]

namespace RtCtx

/-- `build_entry`, by what is read of the entry. -/
def addEntry (ctx : RtCtx) (conf : RtConf) (mem : Mem) (rt : Nat) :
    Option EntryReading → Except RtFault RtCtx
  | none => .ok ctx
  | some read => do
    let (ctx, id) ← ctx.utaAddRte mem rt read.key read.groups.length
    match id with
    | none => .error .nil
    | some id =>
      let rte ← ctx.rte id
      let filling := read.groups.zipIdx.foldl (fillNames conf mem)
        ⟨ctx.ephash, rte.entry.rrgroups, 0, false⟩
      return { ctx.setRte id { rte with entry := { rte.entry with
          mtype := read.mtype
          rrgroups := filling.rrgroups } } with ephash := filling.ephash }

end RtCtx

/-- The entry that is read of some fields. -/
theorem entryReading_of_cons {tsField rrField first : CStr} {rest : List CStr}
    (forUs : ingests conf (clip tsField) = true)
    (groups : utaTokenise (clip rrField) 64 ';' = first :: rest) (subid : Int) :
    entryReading conf tsField subid rrField =
      some ⟨buildRtKey subid (atoi (clip tsField)), atoi (clip tsField),
        (groupTokens first rest).map (addedNames conf)⟩ := by
  rw [entryReading, if_pos forUs, groups]
  rfl

/-- No entry is read of a record that is not for this process, or has no groups. -/
theorem entryReading_of_nil {tsField rrField : CStr}
    (skipped : ingests conf (clip tsField) = true → utaTokenise (clip rrField) 64 ';' = [])
    (subid : Int) : entryReading conf tsField subid rrField = none := by
  -- The record is for others, or has no groups for an entry.
  unfold entryReading
  split
  · rename_i forUs
    rw [skipped forUs]
  · rfl

/-- What is read of an entry is all that matters. -/
theorem buildEntry_eq (ctx : RtCtx) (rt : Nat) (tsField rrField : CStr) (subid : Int) :
    ctx.buildEntry conf mem rt (some tsField) subid (some rrField) =
      ctx.addEntry conf mem rt (entryReading conf tsField subid rrField) := by
  -- A record that is skipped reads nothing; any other one reads its key and its groups.
  by_cases skipped : ingests conf (clip tsField) = true → utaTokenise (clip rrField) 64 ';' = []
  · rw [buildEntry_skips skipped, entryReading_of_nil skipped]
    rfl
  · obtain ⟨forUs, some_⟩ := Classical.not_imp.mp skipped
    obtain ⟨first, rest, groups⟩ := List.exists_cons_of_ne_nil some_
    rw [entryReading_of_cons forUs groups]
    unfold buildEntry
    simp only [clipped, ok_bind, if_pos forUs, groups, addEntry, List.length_map]
    refine congrArg (Bind.bind _) (funext fun added => ?_)
    obtain ⟨ctx, id⟩ := added
    cases id with
    | none => rfl
    | some id =>
      refine congrArg (Bind.bind _) (funext fun rte => ?_)
      have same := @foldl_fillGroup conf mem (groupTokens first rest) 0
        ⟨ctx.ephash, rte.entry.rrgroups, 0, false⟩ rfl
      unfold groupTokens at same ⊢
      rw [← same]

/-- The places of the names that are added rise. -/
theorem addedNames_rise (conf : RtConf) (gtok : CStr) :
    (addedNames conf gtok).Pairwise fun tok later => tok.2 < later.2 := by
  -- Tokens are numbered in order, and leaving some out keeps the order.
  refine List.Pairwise.filter _ ?_
  generalize utaRmipTokenise gtok conf.ipList 64 ',' = toks
  have general : ∀ start, (toks.zipIdx start).Pairwise fun tok later => tok.2 < later.2 := by
    induction toks with
    | nil => intro start; simp
    | cons tok toks ih =>
      intro start
      rw [List.zipIdx_cons, List.pairwise_cons]
      refine ⟨fun later among => ?_, ih (start + 1)⟩
      have behind := List.le_snd_of_mem_zipIdx among
      exact behind
  exact general 0

/-- Names that are added in the same places are the same list. -/
theorem addedNames_ext {gtok gtok' : CStr}
    (same : ∀ tok, tok ∈ addedNames conf gtok' ↔ tok ∈ addedNames conf gtok) :
    addedNames conf gtok' = addedNames conf gtok := by
  -- The places rise in both lists, and with the same members there is one such list only.
  have apart : ∀ gtok, (addedNames conf gtok).Nodup := fun gtok =>
    (addedNames_rise conf gtok).imp fun before is => by
      rw [is] at before
      exact lt_irrefl _ before
  refine List.Perm.eq_of_pairwise ?_ (addedNames_rise conf gtok') (addedNames_rise conf gtok)
    ((List.perm_ext_iff_of_nodup (apart gtok') (apart gtok)).mpr same)
  intro tok later _ _ before after
  omega

/-- The allocation of groups only succeeds for one token of one group. -/
def Mem.onlyGroup (grp token : Nat) : Mem :=
  { Mem.ample with group := fun grp' token' => grp' = grp ∧ token' = token }

/-- Names in one group are found from that token on, and those in others are lost. -/
theorem landedNames_only (grp token : Nat) (gtok : CStr × Nat) :
    (landedNames conf (.onlyGroup grp token) gtok).head? =
      if gtok.2 = grp then (addedNames conf gtok.1).find? fun tok => tok.2 = token else none := by
  -- By induction on the names: those in front of the token are dropped, as are all of other groups.
  unfold landedNames
  generalize addedNames conf gtok.1 = names
  induction names with
  | nil => simp
  | cons name names ih =>
    by_cases here : gtok.2 = grp ∧ name.2 = token
    · simp [Mem.onlyGroup, here]
    · rw [List.dropWhile_cons_of_pos (by
        simpa [Mem.onlyGroup, imp_iff_not_or] using here), ih]
      by_cases own : gtok.2 = grp
      · have other : name.2 ≠ token := fun is => here ⟨own, is⟩
        rw [if_pos own, if_pos own, List.find?_cons_of_neg (by simpa using other)]
      · rw [if_neg own, if_neg own]

/-- Names have different endpoints. -/
theorem endpointOf_injective : Function.Injective endpointOf := by
  -- Only the empty name has no endpoint.
  intro name other same
  unfold endpointOf at same
  split at same
  · split at same
    · simp_all
    · cases same
  · split at same
    · cases same
    · exact Option.some.inj same

/-- The group that is made has the endpoint of the token first that it was made for. -/
theorem slotOf_only (grp token : Nat) (ephash : List CStr) (gtok : CStr × Nat) :
    ((slotOf conf (.onlyGroup grp token) ephash gtok).bind fun rrg => rrg.epts.head?) =
      (landedNames conf (.onlyGroup grp token) gtok).head?.map fun tok => endpointOf tok.1 := by
  -- The first name that is left after the drop is the first to get an endpoint.
  unfold slotOf
  cases landedNames conf (.onlyGroup grp token) gtok with
  | nil => rfl
  | cons tok later =>
    rw [if_neg (List.cons_ne_nil _ _)]
    exact congrArg some (rtEnsureEp_made ephash tok.1)

/-- The groups of an entry tell the name in a place, when only the group for it can be made. -/
theorem filled_only (gtokens : List CStr) (grp token : Nat) (ephash : List CStr) (name : CStr) :
    (∃ rrg, some rrg ∈ (filled conf (.onlyGroup grp token) ephash gtokens).rrgroups ∧
      rrg.epts.head? = some (endpointOf name)) ↔
      ∃ gtok, gtokens[grp]? = some gtok ∧ (name, token) ∈ addedNames conf gtok := by
  obtain ⟨more, slots⟩ := filled_slots conf (.onlyGroup grp token) ephash gtokens
  constructor
  · intro found
    obtain ⟨rrg, among, head⟩ := found
    rw [slots, List.mem_append] at among
    have slot := among.resolve_right fun is => by
      have none_ := List.eq_of_mem_replicate is
      cases none_
    obtain ⟨before, gtok, after, all, -, is⟩ := (mem_slotsOf _ _ _ _ _).mp slot
    have first := @slotOf_only conf grp token 
      (ensureAll ephash (askedBy conf (.onlyGroup grp token) before)).1 gtok
    rw [← is, landedNames_only] at first
    simp only [Option.bind_some, head] at first
    by_cases own : gtok.2 = grp
    · rw [if_pos own] at first
      obtain ⟨tok, tokIs, same⟩ := Option.map_eq_some_iff.mp first.symm
      have place := List.find?_some tokIs
      have listed := List.mem_of_find?_eq_some tokIs
      have name_ := endpointOf_injective same
      have at_ : gtok ∈ gtokens.zipIdx := by
        rw [all]
        simp
      refine ⟨gtok.1, ?_, ?_⟩
      · rw [← own]
        exact List.mem_zipIdx_iff_getElem?.mp at_
      · rw [← name_, ← show tok.2 = token by simpa using place]
        exact listed
    · rw [if_neg own] at first
      cases first
  · intro found
    obtain ⟨gtok, at_, listed⟩ := found
    have among : (gtok, grp) ∈ gtokens.zipIdx := List.mk_mem_zipIdx_iff_getElem?.mpr at_
    obtain ⟨before, after, all⟩ := List.append_of_mem among
    obtain ⟨ephash', ephashIs⟩ : ∃ ephash', ephash' =
      (ensureAll ephash (askedBy conf (.onlyGroup grp token) before)).1 := ⟨_, rfl⟩
    have first := @slotOf_only conf grp token ephash' (gtok, grp)
    rw [landedNames_only, if_pos rfl] at first
    -- There is only one name in a place.
    have only : (addedNames conf gtok).find? (fun tok => tok.2 = token) = some (name, token) := by
      have at' : ∀ tok ∈ addedNames conf gtok, (utaRmipTokenise gtok conf.ipList 64 ',')[tok.2]? =
          some tok.1 := fun tok added =>
        List.mem_zipIdx_iff_getElem?.mp (List.mem_of_mem_filter added)
      have some_ : ((addedNames conf gtok).find? fun tok => tok.2 = token).isSome = true :=
        List.find?_isSome.mpr ⟨_, listed, by simp⟩
      obtain ⟨tok, tokIs⟩ := Option.isSome_iff_exists.mp some_
      have place : tok.2 = token := by simpa using List.find?_some tokIs
      have same := at' tok (List.mem_of_find?_eq_some tokIs)
      rw [place, at' _ listed] at same
      exact tokIs.trans (congrArg some (Prod.ext (Option.some.inj same).symm place))
    rw [only] at first
    obtain ⟨rrg, rrgIs, head⟩ := Option.bind_eq_some_iff.mp first
    refine ⟨rrg, ?_, head⟩
    rw [slots]
    refine List.mem_append_left _
      ((mem_slotsOf _ _ _ _ _).mpr ⟨before, (gtok, grp), after, all, ?_, ?_⟩)
    · exact List.ne_nil_of_mem listed
    · rw [← ephashIs, rrgIs]

/-- A group that is filled is one of as many as before. -/
theorem length_fillNames (filling : Filling) (names : List (CStr × Nat) × Nat) :
    (fillNames conf mem filling names).rrgroups.length = filling.rrgroups.length := by
  -- Every branch of filling in a name sets a slot that is there, or none.
  have one : ∀ (filling : Filling) (tok : CStr × Nat),
      (fillEp conf mem names.2 filling tok).rrgroups.length = filling.rrgroups.length := by
    intro filling tok
    unfold fillEp utaAddEp
    split
    · rfl
    · dsimp only
      split
      · rfl
      · split
        · rfl
        · split
          · exact List.length_set
          · exact List.length_set
  have all : ∀ (toks : List (CStr × Nat)) (filling : Filling),
      (toks.foldl (fillEp conf mem names.2) filling).rrgroups.length = filling.rrgroups.length := by
    intro toks
    induction toks with
    | nil => exact fun _ => rfl
    | cons tok toks ih =>
      intro filling
      rw [List.foldl_cons, ih, one]
  unfold fillNames
  dsimp only
  split
  · exact all _ _
  · exact all _ _

/-- There are as many groups as were asked for, whether they are filled or not. -/
theorem length_filled (mem : Mem) (ephash : List CStr) (gtokens : List CStr) :
    (filled conf mem ephash gtokens).rrgroups.length = gtokens.length := by
  -- By induction on the groups, each of which keeps the number of slots.
  have all : ∀ (groups : List (List (CStr × Nat) × Nat)) (filling : Filling),
      (groups.foldl (fillNames conf mem) filling).rrgroups.length = filling.rrgroups.length := by
    intro groups
    induction groups with
    | nil => exact fun _ => rfl
    | cons names groups ih =>
      intro filling
      rw [List.foldl_cons, ih, length_fillNames]
  unfold filled
  rw [foldl_fillGroup _ _ _ rfl, all]
  exact List.length_replicate

/-- The groups that are filled tell the names that are added to each of them. -/
theorem groups_of_filled {gtokens gtokens' : List CStr}
    (same : ∀ mem : Mem, mem.rte = true →
      (filled conf mem [] gtokens').rrgroups = (filled conf mem [] gtokens).rrgroups) :
    gtokens'.map (addedNames conf) = gtokens.map (addedNames conf) := by
  have lengths := congrArg List.length (same .ample rfl)
  rw [length_filled, length_filled] at lengths
  refine List.ext_getElem (by simpa using lengths) fun grp inside inside' => ?_
  rw [List.length_map] at inside inside'
  rw [List.getElem_map, List.getElem_map]
  -- Each name is told by the group that is made for it only.
  refine addedNames_ext fun tok => ?_
  have only := @filled_only conf gtokens grp tok.2 [] tok.1
  rw [← same (.onlyGroup grp tok.2) rfl, filled_only] at only
  simpa [List.getElem?_eq_getElem inside, List.getElem?_eq_getElem inside'] using only

/-- The first entry of a context, for what is read of it. -/
def stored (conf : RtConf) (mem : Mem) (gtokens : List CStr) (read : EntryReading) : Rte :=
  ⟨⟨read.key, read.mtype, (filled conf mem [] gtokens).rrgroups⟩, 1⟩

/-- The entries that are stored tell what was read. -/
theorem reading_of_stored {read read' : Option EntryReading} {gtokens gtokens' : List CStr}
    (groups : ∀ entry ∈ read, entry.groups = gtokens.map (addedNames conf))
    (groups' : ∀ entry ∈ read', entry.groups = gtokens'.map (addedNames conf))
    (same : ∀ mem : Mem, mem.rte = true →
      read'.map (stored conf mem gtokens') = read.map (stored conf mem gtokens)) :
        read' = read := by
  -- The key and the groups are told by what is stored with ample and with limited memory.
  cases read with
  | none => exact Option.map_eq_none_iff.mp (same .ample rfl)
  | some entry =>
    cases read' with
    | none => cases same .ample rfl
    | some entry' =>
      have parts := fun mem made => Option.some.inj (same mem made)
      simp only [stored, Rte.mk.injEq, Entry.mk.injEq, and_true] at parts
      obtain ⟨key, mtype, -⟩ := parts .ample rfl
      have names := groups_of_filled fun mem made => (parts mem made).2.2
      rw [← groups entry rfl, ← groups' entry' rfl] at names
      obtain ⟨key_, mtype_, groups_⟩ := entry
      obtain ⟨key', mtype', groups''⟩ := entry'
      simp_all

/-- What is read of an entry is stored, in a context that had none. -/
theorem addEntry_stored {ctx : RtCtx} {rt : Nat} {table : RouteTable} (sound : ctx.Sound)
    (there : ctx.tables rt = some table) (first : ctx.nextRte = 0) (unnamed : ctx.ephash = [])
    (empty : ctx.rtes 0 = none) (tsField rrField : CStr) (subid : Int) :
    ∃ gtokens, (∀ entry ∈ entryReading conf tsField subid rrField,
        entry.groups = gtokens.map (addedNames conf)) ∧
      ∀ mem : Mem, mem.rte = true → ∃ next,
        ctx.addEntry conf mem rt (entryReading conf tsField subid rrField) = .ok next ∧
        Edits ctx rt next ∧ (∃ mt, next.tables rt = some { table with hash.mt := mt }) ∧
        next.rtes 0 = (entryReading conf tsField subid rrField).map (stored conf mem gtokens) := by
  -- Nothing is under the key yet, so that the new entry is at the first address.
  by_cases skipped : ingests conf (clip tsField) = true → utaTokenise (clip rrField) 64 ';' = []
  · rw [entryReading_of_nil skipped]
    refine ⟨[], ?_, fun mem _ => ⟨ctx, rfl, Edits.refl sound there, ⟨_, there⟩, empty⟩⟩
    intro entry is
    cases is
  · obtain ⟨forUs, some_⟩ := Classical.not_imp.mp skipped
    obtain ⟨head, rest, groups⟩ := List.exists_cons_of_ne_nil some_
    refine ⟨groupTokens head rest, ?_, fun mem made => ?_⟩
    · intro entry is
      rw [entryReading_of_cons forUs groups] at is
      cases is
      rfl
    · obtain ⟨next, built, edits, now, entry⟩ := buildEntry_adds sound there made forUs groups subid
      rw [first, unnamed] at entry
      refine ⟨next, ?_, edits, ⟨_, now⟩, ?_⟩
      · rw [← buildEntry_eq]
        exact built
      · rw [entry, entryReading_of_cons forUs groups]
        rfl

namespace RtCtx

/-- An `mse` record, by what is read of it. -/
def mseRead (ctx : RtCtx) (conf : RtConf) (mem : Mem) :
    Option (Option EntryReading) → Except RtFault RtCtx
  | none => .ok ctx
  | some read =>
    match ctx.newRtable with
    | none => .ok ctx
    | some rt => do
      let ctx ← ctx.addEntry conf mem rt read
      ctx.bumpUpdates rt

/-- An `rte` record, by what is read of it. -/
def rteRead (ctx : RtCtx) (conf : RtConf) (mem : Mem) (read : Option (Option EntryReading)) :
    Except RtFault RtCtx :=
  match ctx.newRtable with
  | none => .ok ctx
  | some rt => do
    let ctx ← ctx.bumpUpdates rt
    match read with
    | none => .error .nil
    | some read => ctx.addEntry conf mem rt read

end RtCtx

/-- What is read of an `mse` record is all that matters. -/
theorem run_mse (ctx : RtCtx) (mem : Mem) :
    RecKind.mse.run conf fields ctx mem = ctx.mseRead conf mem (mseReading conf fields) := by
  -- The cases are those of the number of fields, as the parser reads three of them.
  have ran : RecKind.mse.run conf fields ctx mem = ctx.mseRec conf mem fields :=
    plainly_finish (ctx.mseRec conf mem fields)
  rw [ran]
  unfold mseRec
  match fields with
  | [] => cases ctx.newRtable <;> rfl
  | [tsField] => cases ctx.newRtable <;> rfl
  | [tsField, subid] => cases ctx.newRtable <;> rfl
  | tsField :: subid :: rrField :: rest =>
    simp only [mseReading, mseRead]
    cases ctx.newRtable with
    | none => rfl
    | some rt => simp only [buildEntry_eq]

/-- What is read of an `rte` record is all that matters. -/
theorem run_rte (ctx : RtCtx) (mem : Mem) :
    RecKind.rte.run conf fields ctx mem = ctx.rteRead conf mem (rteReading conf fields) := by
  -- The cases are those of the number of fields, of which two are used without a test.
  have ran : RecKind.rte.run conf fields ctx mem = ctx.rteRec conf mem fields :=
    plainly_finish (ctx.rteRec conf mem fields)
  rw [ran]
  unfold rteRec rteRead
  cases ctx.newRtable with
  | none => rfl
  | some rt =>
    refine congrArg (Bind.bind _) (funext fun ctx => ?_)
    match fields with
    | [] => rfl
    | [tsField] => rfl
    | tsField :: rrField :: rest =>
      have subid : (tsField :: rrField :: rest)[2]? = rest[0]? := rfl
      simp only [rteReading, subid, List.getElem?_cons_zero, List.getElem?_cons_succ]
      exact buildEntry_eq ctx rt tsField rrField _

/-- A context with an empty table in progress. -/
theorem inProgress_sound : (inProgress .empty).Sound :=
  Sound.congr init_idle.sound rfl rfl rfl fun _ => rfl

/-- What can be read of an entry. -/
def Readable (conf : RtConf) (read : Option (Option EntryReading)) : Prop :=
  ∀ entry ∈ read, ∃ tsField subid rrField, entry = entryReading conf tsField subid rrField

/-- What is read of an `mse` record is what can be read of an entry. -/
theorem mseReading_readable (conf : RtConf) (fields : List CStr) :
    Readable conf (mseReading conf fields) := by
  -- The cases are those of the number of fields.
  intro entry is
  match fields with
  | [] => cases is
  | [tsField] => cases is
  | [tsField, subid] => cases is
  | tsField :: subid :: rrField :: rest =>
    cases is
    exact ⟨tsField, atoi subid, rrField, rfl⟩

/-- So is what is read of an `rte` record. -/
theorem rteReading_readable (conf : RtConf) (fields : List CStr) :
    Readable conf (rteReading conf fields) := by
  -- The cases are those of the number of fields.
  intro entry is
  match fields with
  | [] => cases is
  | [tsField] => cases is
  | tsField :: rrField :: rest =>
    cases is
    exact ⟨tsField, _, rrField, rfl⟩

/-- The count of the first table, and the first entry. -/
def Seen.first (seen : Seen) : Option Int × Option Rte :=
  ((seen.tables 0).map fun table => table.updates, seen.rest.rtes 0)

/-- The count of the table in progress and its entry tell what is read of an `mse` record. -/
theorem inProgress_mseRead {read : Option (Option EntryReading)} (readable : Readable conf read) :
    ∃ gtokens, (∀ entry ∈ read.join, entry.groups = gtokens.map (addedNames conf)) ∧
      ∀ mem : Mem, mem.rte = true →
        ((inProgress .empty).mseRead conf mem read).map (fun next => (next.seen []).first) =
          .ok (some (if read = none then 0 else 1), read.join.map (stored conf mem gtokens)) := by
  -- The table in progress is empty, so that its only entry is the one read.
  cases read with
  | none =>
    refine ⟨[], ?_, fun mem _ => rfl⟩
    intro entry is
    cases is
  | some read =>
    obtain ⟨tsField, subid, rrField, rfl⟩ := readable read rfl
    have there : (inProgress .empty).tables 0 = some RouteTable.empty := rfl
    obtain ⟨gtokens, groups, stores⟩ :=
      @addEntry_stored conf _ 0 _ inProgress_sound there rfl rfl rfl
      tsField rrField subid
    refine ⟨gtokens, groups, fun mem made => ?_⟩
    obtain ⟨next, added, -, ⟨mt, now⟩, entry⟩ := stores mem made
    have one : toInt (0 + 1) = 1 := toInt_of_inInt (by decide)
    have new : (inProgress .empty).newRtable = some 0 := rfl
    simp only [mseRead, new, added, ok_bind, bumpUpdates_table now]
    simp only [Except.map, Seen.first, seen, setTable, Function.update_self, Option.map_some, entry,
      RouteTable.view, RouteTable.empty, one]
    rfl

/-- The same for an `rte` record, which must have both of its first fields. -/
theorem inProgress_rteRead {read : Option (Option EntryReading)} (readable : Readable conf read) :
    ∃ gtokens, (∀ entry ∈ read.join, entry.groups = gtokens.map (addedNames conf)) ∧
      ∀ mem : Mem, mem.rte = true →
        ((inProgress .empty).rteRead conf mem read).map (fun next => (next.seen []).first) =
          if read = none then .error .nil
          else .ok (some 1, read.join.map (stored conf mem gtokens)) := by
  -- The record is counted before its fields are used, which changes no entry.
  have there : (inProgress .empty).tables 0 = some RouteTable.empty := rfl
  have new : (inProgress .empty).newRtable = some 0 := rfl
  have one : toInt (0 + 1) = 1 := toInt_of_inInt (by decide)
  obtain ⟨bumped, counts, edits, now, rtes, nextRte, ephash⟩ :=
    bumpUpdates_ok inProgress_sound there
  cases read with
  | none =>
    refine ⟨[], ?_, fun mem _ => ?_⟩
    · intro entry is
      cases is
    · simp only [rteRead, new, counts, ok_bind]
      rfl
  | some read =>
    obtain ⟨tsField, subid, rrField, rfl⟩ := readable read rfl
    obtain ⟨gtokens, groups, stores⟩ := @addEntry_stored conf _ 0 _ edits.sound now nextRte ephash
      (congrFun rtes 0) tsField rrField subid
    refine ⟨gtokens, groups, fun mem made => ?_⟩
    obtain ⟨next, added, -, ⟨mt, then_⟩, entry⟩ := stores mem made
    simp only [rteRead, new, counts, ok_bind, added]
    simp only [Except.map, Seen.first, seen, then_, Option.map_some, entry, RouteTable.view,
      RouteTable.empty, one]
    rfl

/-- What is read is told by whether it is there, and what entry it is. -/
theorem eq_of_join {α : Type} {read read' : Option (Option α)} (there : read' = none ↔ read = none)
    (same : read'.join = read.join) : read' = read := by
  -- The cases are those of the two readings: none, or one with or without an entry.
  cases read with
  | none => exact there.mpr rfl
  | some entry =>
    cases read' with
    | none => cases there.mp rfl
    | some entry' => exact congrArg some same

/-- Two `mse` records have the same effect exactly when the same entry is read of them. -/
theorem mse_alike_iff : Alike (RecKind.mse.run conf fields) (RecKind.mse.run conf fields') ↔
    mseReading conf fields' = mseReading conf fields := by
  -- The probe is an empty table in progress, with each memory that makes an entry.
  constructor
  · intro alike
    obtain ⟨gtokens, groups, tells⟩ := inProgress_mseRead (mseReading_readable conf fields)
    obtain ⟨gtokens', groups', tells'⟩ := inProgress_mseRead (mseReading_readable conf fields')
    have probes : ∀ mem : Mem, mem.rte = true →
        (if mseReading conf fields' = none then (0 : Int) else 1) =
            (if mseReading conf fields = none then 0 else 1) ∧
          (mseReading conf fields').join.map (stored conf mem gtokens') =
            (mseReading conf fields).join.map (stored conf mem gtokens) := by
      intro mem made
      have same := alike.sees Seen.first (inProgress .empty) mem
      rw [run_mse, run_mse, tells mem made, tells' mem made] at same
      simpa using same
    refine eq_of_join ?_ (reading_of_stored groups groups' fun mem made => (probes mem made).2)
    have counted := (probes .ample rfl).1
    constructor
    · intro few
      by_contra some_
      rw [if_pos few, if_neg some_] at counted
      cases counted
    · intro few
      by_contra some_
      rw [if_pos few, if_neg some_] at counted
      cases counted
  · intro same
    refine Alike.of_eq fun ctx mem => ?_
    rw [run_mse, run_mse, same]

/-- Two `rte` records have the same effect exactly when the same entry is read of them. -/
theorem rte_alike_iff : Alike (RecKind.rte.run conf fields) (RecKind.rte.run conf fields') ↔
    rteReading conf fields' = rteReading conf fields := by
  constructor
  · intro alike
    obtain ⟨gtokens, groups, tells⟩ := inProgress_rteRead (rteReading_readable conf fields)
    obtain ⟨gtokens', groups', tells'⟩ := inProgress_rteRead (rteReading_readable conf fields')
    have probes := fun (mem : Mem) (made : mem.rte = true) => alike.sees Seen.first
      (inProgress .empty)
      mem
    simp only [run_rte] at probes
    by_cases few : rteReading conf fields = none
    · -- A record that has too few fields is a fault.
      have fault := probes .ample rfl
      rw [tells _ rfl, tells' _ rfl, if_pos few] at fault
      by_contra some_
      rw [few] at some_
      rw [if_neg some_] at fault
      cases fault
    · have enough : rteReading conf fields' ≠ none := by
        intro few'
        have fault := probes .ample rfl
        rw [tells _ rfl, tells' _ rfl, if_pos few', if_neg few] at fault
        cases fault
      refine eq_of_join (iff_of_false enough few)
        (reading_of_stored groups groups' fun mem made => ?_)
      have same := probes mem made
      rw [tells _ made, tells' _ made, if_neg few, if_neg enough] at same
      exact (Prod.mk.inj (Except.ok.inj same)).2
  · intro same
    refine Alike.of_eq fun ctx mem => ?_
    rw [run_rte, run_rte, same]

end Rmr
