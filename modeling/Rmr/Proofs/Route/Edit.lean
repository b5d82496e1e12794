import Rmr.Proofs.Route.Sound
import Rmr.Route.Parse

/-! What the records between the start and the end of a table do: they change that table only. -/

namespace Rmr

/-- Giving up one entry takes one reference from it. -/
theorem release_one {ι κ : Type*} [DecidableEq ι] [DecidableEq κ] {objs : ι → Option (κ × Int)}
    {key : κ} {id : ι} {refs : Int} (live : objs id = some (key, refs)) :
    release objs (Function.update (fun _ => none) key (some id)) =
      Function.update objs id (if 0 < refs - 1 then some (key, refs - 1) else none) := by
  rw [← release_first live (Function.update_self key (some id) (fun _ => none)) rfl
    fun other different => Function.update_of_ne different _ _]
  -- Giving up nothing changes nothing.
  generalize Function.update objs id (if 0 < refs - 1 then some (key, refs - 1) else none) = left
  funext other
  cases is : left other with
  | none => rw [release, is, Option.bind_none]
  | some obj => simp [release, is]

namespace RtCtx

/-- Where the tables of a context are, and what was seen of them. -/
def place (ctx : RtCtx) : Option Nat × Option Nat × Option Nat × Option Nat × Nat × Nat × Bool :=
  (ctx.rtable, ctx.oldRtable, ctx.newRtable, ctx.prepRt, ctx.nextTable, ctx.rolls, ctx.fullrt)

/-- What is done to one table leaves everything else as it was. -/
structure Edits (ctx : RtCtx) (rt : Nat) (next : RtCtx) : Prop where
  sound : next.Sound
  later : ctx.Later next
  others : ∀ other, other ≠ rt → next.tables other = ctx.tables other
  edited : ∃ table table', ctx.tables rt = some table ∧ next.tables rt = some table' ∧
    table'.refCount = table.refCount
  place : next.place = ctx.place

variable {ctx mid next : RtCtx} {rt : Nat} {table table' : RouteTable}

/-- Doing nothing leaves everything as it was. -/
theorem Edits.refl (sound : ctx.Sound) (there : ctx.tables rt = some table) : Edits ctx rt ctx :=
  ⟨sound, .refl ctx, fun _ _ => rfl, ⟨table, table, there, there, rfl⟩, rfl⟩

/-- What is done to one table in two steps leaves everything else as it was. -/
theorem Edits.trans (first : Edits ctx rt mid) (second : Edits mid rt next) :
    Edits ctx rt next := by
  -- The table in the middle is the same one, and the later steps of both meet there.
  obtain ⟨one, two, oneIs, twoIs, oneCount⟩ := first.edited
  obtain ⟨two', three, twoIs', threeIs, twoCount⟩ := second.edited
  rw [twoIs] at twoIs'
  cases twoIs'
  refine ⟨second.sound, first.later.trans second.later, ?_, ?_, second.place.trans first.place⟩
  · intro other different
    rw [second.others other different, first.others other different]
  · exact ⟨one, three, oneIs, threeIs, twoCount.trans oneCount⟩

/-- The table that is edited is still there. -/
theorem Edits.there (edits : Edits ctx rt next) : ∃ table', next.tables rt = some table' := by
  obtain ⟨_, table', _, is, _⟩ := edits.edited
  exact ⟨table', is⟩

/-- A table of which other parts than the entries change. -/
theorem edits_setTable (sound : ctx.Sound) (there : ctx.tables rt = some table)
    (ephash : List CStr) (mt : table'.hash.mt = table.hash.mt)
    (count : table'.refCount = table.refCount) :
    Edits ctx rt { ctx.setTable rt table' with ephash := ephash } := by
  -- The entries are those of before, so that keys and counts are too.
  have changed := sound.setTable there mt
  refine ⟨changed.congr rfl rfl rfl fun _ => rfl, ⟨Nat.le_refl _, (Later.refl ctx).kept⟩,
    ?_, ?_, rfl⟩
  · intro other different
    simp [setTable, different]
  · exact ⟨table, table', there, by simp [setTable], count⟩

/-- A table gives up the entry that it has under one key. -/
theorem Sound.giveUpOne (sound : ctx.Sound) (there : ctx.tables rt = some table) {key : UInt64}
    {id : Nat} {refs : Int} (found : table.hash.mt.lookup key = some id)
    (was : ctx.objs id = some (key, refs))
    (objs : next.objs = Function.update ctx.objs id
      (if 0 < refs - 1 then some (key, refs - 1) else none))
    (nextRte : next.nextRte = ctx.nextRte) (nextTable : next.nextTable = ctx.nextTable)
    (tables : next.tables = Function.update ctx.tables rt
      (some { table with hash.mt := table.hash.mt.erase key })) : next.Sound := by
  -- The part that is given up is the one key, which holds the entry found.
  rw [← release_one was] at objs
  refine sound.giveUp there ?_ objs nextRte nextTable tables ?_
  · intro other id' is
    by_cases same : other = key
    · subst same
      rw [Function.update_self] at is
      rw [found, is]
    · rw [Function.update_of_ne same] at is
      cases is
  · intro other
    by_cases same : other = key
    · subst same
      simp [without]
    · rw [AList.lookup_erase_ne same, without, Function.update_of_ne same, if_pos rfl]

/-- `uta_add_rte` puts an entry that was not there into the table. -/
theorem utaAddRte_ok (sound : ctx.Sound) (there : ctx.tables rt = some table) {mem : Mem}
    (made : mem.rte = true) (key : UInt64) (nrrgroups : Int) :
    ∃ next, ctx.utaAddRte mem rt key nrrgroups = .ok (next, some ctx.nextRte) ∧
      Edits ctx rt next ∧
      next.tables rt =
        some { table with hash.mt := table.hash.mt.insert key ctx.nextRte } ∧
      next.nextRte = ctx.nextRte + 1 ∧ next.ephash = ctx.ephash ∧
      next.rtes ctx.nextRte = some ⟨⟨key, 0, List.replicate
        (if nrrgroups < 0 then 10 else nrrgroups.toNat) none⟩, 1⟩ := by
  -- The context once the entry is made, but not yet put into the table.
  obtain ⟨rte, rteIs⟩ : ∃ rte : Rte, rte = ⟨⟨key, 0, List.replicate
    (if nrrgroups < 0 then 10 else nrrgroups.toNat) none⟩, 1⟩ := ⟨_, rfl⟩
  obtain ⟨mid, midIs⟩ : ∃ mid, mid =
    { ctx.setRte ctx.nextRte rte with nextRte := ctx.nextRte + 1 } := ⟨_, rfl⟩
  have midObjs : mid.objs = Function.update ctx.objs ctx.nextRte (some (key, 1)) := by
    have update := objs_update ctx ctx.nextRte (some rte)
    rw [Option.map_some, show rte.obj = (key, 1) by rw [rteIs]; rfl] at update
    rw [midIs]
    exact update
  have midThere : mid.table rt = .ok table := by
    rw [midIs]
    simp [RtCtx.table, setRte, there]
  have midLater : ctx.Later mid := by
    refine ⟨by rw [midIs]; exact Nat.le_succ _, fun id below rte' is => ⟨rte', ?_, rfl⟩⟩
    rw [midIs] at is
    have is : Function.update ctx.rtes ctx.nextRte (some rte) id = some rte' := is
    rwa [Function.update_of_ne (by omega)] at is
  have midNew : mid.rtes ctx.nextRte = some rte := by
    rw [midIs]
    simp [setRte]
  have inserted : ∀ other, (table.hash.mt.insert key ctx.nextRte).lookup other =
      Function.update (fun other => table.hash.mt.lookup other) key (some ctx.nextRte) other := by
    intro other
    by_cases same : other = key
    · subst same
      simp
    · rw [AList.lookup_insert_ne same, Function.update_of_ne same]
  cases found : table.hash.mt.lookup key with
  | none =>
    refine ⟨mid.setTable rt { table with hash.mt := table.hash.mt.insert key ctx.nextRte }, ?_,
      ⟨?_, ?_, ?_, ?_, ?_⟩, ?_, ?_, ?_, ?_⟩
    · unfold utaAddRte
      rw [if_neg (by simp [made])]
      rw [midIs, rteIs] at midThere ⊢
      refine bind_eq_ok.mpr ⟨table, midThere, ?_⟩
      simp only [found]
      rfl
    · exact Sound.fresh sound there found midObjs (by rw [midIs]; rfl) (by rw [midIs]; rfl)
        (by rw [midIs]; rfl) inserted
    · exact ⟨midLater.grows, midLater.kept⟩
    · intro other different
      rw [midIs]
      simp [setTable, setRte, different]
    · exact ⟨table, _, there, Function.update_self _ _ _, rfl⟩
    · rw [midIs]
      rfl
    · simp [setTable]
    · rw [midIs]
      rfl
    · rw [midIs]
      rfl
    · rw [← rteIs]
      exact midNew
  | some old =>
    -- The entry that was there before is given up first.
    obtain ⟨refs, was⟩ := sound.held there found
    have different : old ≠ ctx.nextRte := by
      intro equal
      rw [equal, sound.objs_next] at was
      cases was
    have live : mid.objs old = some (key, refs) := by
      rw [midObjs, Function.update_of_ne different]
      exact was
    obtain ⟨rtes, deleted, objs, later⟩ := delRte_ok live
    have newKept : rtes ctx.nextRte = some rte := by
      have equal := congrFun objs ctx.nextRte
      rw [Function.update_of_ne different.symm, RtCtx.objs, RtCtx.objs, midNew] at equal
      obtain ⟨rte', is, obj⟩ := Option.map_eq_some_iff.mp equal
      have below : ctx.nextRte < mid.nextRte := by
        rw [midIs]
        exact Nat.lt_succ_self _
      obtain ⟨rte'', was, same⟩ := later.kept ctx.nextRte below rte' is
      rw [midNew] at was
      cases was
      have refs : rte'.refs = rte.refs := congrArg Prod.snd obj
      rw [show rte = rte' by cases rte; cases rte'; simp_all]
      exact is
    -- The context in which the table has neither the old entry nor the new one.
    obtain ⟨gone, goneIs⟩ : ∃ gone, gone = RtCtx.setTable { ctx with
        rtes := Function.update rtes ctx.nextRte none } rt
      { table with hash.mt := table.hash.mt.erase key } := ⟨_, rfl⟩
    have goneNext : gone.nextRte = ctx.nextRte := by
      rw [goneIs]
      rfl
    have goneObjs : gone.objs = Function.update ctx.objs old
        (if 0 < refs - 1 then some (key, refs - 1) else none) := by
      have update := objs_update { mid with rtes := rtes } ctx.nextRte none
      rw [objs, midObjs, Option.map_none, Function.update_comm different.symm,
        Function.update_idem] at update
      rw [goneIs]
      refine Eq.trans update (Function.update_eq_self_iff.mpr ?_)
      rw [Function.update_of_ne different.symm, sound.objs_next]
    have goneSound : gone.Sound := sound.giveUpOne there found was goneObjs goneNext
      (by rw [goneIs]; rfl) (by rw [goneIs]; rfl)
    refine ⟨RtCtx.setTable { mid with rtes := rtes } rt
      { table with hash.mt := table.hash.mt.insert key ctx.nextRte }, ?_,
      ⟨?_, ?_, ?_, ?_, ?_⟩, ?_, ?_, ?_, ?_⟩
    · unfold utaAddRte
      rw [if_neg (by simp [made])]
      rw [midIs, rteIs] at midThere deleted ⊢
      refine bind_eq_ok.mpr ⟨table, midThere, ?_⟩
      simp only [found]
      exact bind_eq_ok.mpr ⟨_, deleted, rfl⟩
    · have goneThere : gone.tables rt =
          some { table with hash.mt := table.hash.mt.erase key } := by
        rw [goneIs]
        simp [setTable]
      have tables : Function.update mid.tables rt
            (some { table with hash.mt := table.hash.mt.insert key ctx.nextRte }) =
          Function.update gone.tables rt
            (some { table with hash.mt := table.hash.mt.insert key ctx.nextRte }) := by
        rw [goneIs, midIs]
        simp [setTable, setRte]
      refine goneSound.fresh goneThere (AList.lookup_erase key _) ?_ (by rw [goneIs, midIs]; rfl)
        (by rw [goneIs, midIs]; rfl) tables ?_
      · rw [goneObjs, goneNext, Function.update_comm different, ← midObjs]
        exact objs
      · intro other
        by_cases same : other = key
        · subst same
          simp [goneNext]
        · rw [AList.lookup_insert_ne same, Function.update_of_ne same, AList.lookup_erase_ne same]
    · have both := midLater.trans later
      exact ⟨both.grows, both.kept⟩
    · intro other different
      rw [midIs]
      simp [setTable, setRte, different]
    · exact ⟨table, _, there, Function.update_self _ _ _, rfl⟩
    · rw [midIs]
      rfl
    · simp [setTable]
    · rw [midIs]
      rfl
    · rw [midIs]
      rfl
    · rw [← rteIs]
      exact newKept

/-- The groups of an entry, unless the managed element id finds the endpoint. -/
def groupTokens (first : CStr) (rest : List CStr) : List CStr :=
  if first = ['%', 'm', 'e', 'i', 'd'] then [] else first :: rest

/-- What the loops of `build_entry` fill for an entry with some groups. -/
def filled (conf : RtConf) (mem : Mem) (ephash : List CStr) (gtokens : List CStr) : Filling :=
  gtokens.zipIdx.foldl (fillGroup conf mem) ⟨ephash, List.replicate gtokens.length none, 0, false⟩

/-- `build_entry` puts an entry into the table, for a record that is for this process. -/
theorem buildEntry_adds (sound : ctx.Sound) (there : ctx.tables rt = some table) {conf : RtConf}
    {mem : Mem} (made : mem.rte = true) {tsField rrField first : CStr} {rest : List CStr}
    (forUs : ingests conf (clip tsField) = true)
    (groups : utaTokenise (clip rrField) 64 ';' = first :: rest) (subid : Int) :
    ∃ next, ctx.buildEntry conf mem rt (some tsField) subid (some rrField) = .ok next ∧
      Edits ctx rt next ∧
      next.tables rt = some { table with
        hash.mt := table.hash.mt.insert (buildRtKey subid (atoi (clip tsField))) ctx.nextRte } ∧
      next.rtes ctx.nextRte = some ⟨⟨buildRtKey subid (atoi (clip tsField)), atoi (clip tsField),
        (filled conf mem ctx.ephash (groupTokens first rest)).rrgroups⟩, 1⟩ := by
  obtain ⟨mid, added, edits, tables, nextRte, ephash, new⟩ := utaAddRte_ok sound there made
    (buildRtKey subid (atoi (clip tsField))) (groupTokens first rest).length
  have count : (if ((groupTokens first rest).length : Int) < 0 then 10
      else ((groupTokens first rest).length : Int).toNat) = (groupTokens first rest).length := by
    rw [if_neg (by omega)]
    exact Int.toNat_natCast _
  rw [count] at new
  -- The entry is made first, and then its groups are filled in place.
  obtain ⟨rte, rteIs⟩ : ∃ rte : Rte, rte = ⟨⟨buildRtKey subid (atoi (clip tsField)),
    atoi (clip tsField), (filled conf mem ctx.ephash (groupTokens first rest)).rrgroups⟩, 1⟩ :=
    ⟨_, rfl⟩
  refine ⟨{ mid.setRte ctx.nextRte rte with
    ephash := (filled conf mem ctx.ephash (groupTokens first rest)).ephash }, ?_,
      ⟨?_, ?_, ?_, ?_, ?_⟩,
    tables, ?_⟩
  · unfold buildEntry
    refine bind_eq_ok.mpr ⟨clip tsField, rfl, bind_eq_ok.mpr ⟨clip rrField, rfl, ?_⟩⟩
    rw [if_pos forUs]
    simp only [groups]
    refine bind_eq_ok.mpr ⟨(mid, some ctx.nextRte), added, ?_⟩
    refine bind_eq_ok.mpr ⟨_, rte_ok new, ?_⟩
    rw [rteIs, ephash]
    rfl
  · -- Filling an entry changes neither its key nor its count.
    refine Sound.congr edits.sound ?_ rfl rfl fun _ => rfl
    refine (objs_update mid ctx.nextRte (some rte)).trans ?_
    apply Function.update_eq_self_iff.mpr
    rw [objs, new, rteIs]
    rfl
  · refine ⟨edits.later.grows, fun id below rte' is => edits.later.kept id below rte' ?_⟩
    have is : Function.update mid.rtes ctx.nextRte (some rte) id = some rte' := is
    rwa [Function.update_of_ne (by omega)] at is
  · exact edits.others
  · exact edits.edited
  · exact edits.place
  · rw [← rteIs]
    simp [setRte]

/-- `build_entry` does nothing with a record that is not for this process, or has no groups. -/
theorem buildEntry_skips {conf : RtConf} {mem : Mem} {tsField rrField : CStr} {subid : Int}
    (skipped : ingests conf (clip tsField) = true → utaTokenise (clip rrField) 64 ';' = []) :
    ctx.buildEntry conf mem rt (some tsField) subid (some rrField) = .ok ctx := by
  -- The two ways past the body of `build_entry`: another process's record, and one without groups.
  unfold buildEntry
  refine bind_eq_ok.mpr ⟨clip tsField, rfl, bind_eq_ok.mpr ⟨clip rrField, rfl, ?_⟩⟩
  by_cases forUs : ingests conf (clip tsField) = true
  · rw [if_pos forUs]
    simp only [skipped forUs]
    rfl
  · rw [if_neg forUs]
    rfl

/-- `build_entry` uses an entry that could not be made. -/
theorem buildEntry_faults {conf : RtConf} {mem : Mem} {tsField rrField first : CStr}
    {rest : List CStr} {subid : Int} (unmade : mem.rte = false)
    (forUs : ingests conf (clip tsField) = true)
    (groups : utaTokenise (clip rrField) 64 ';' = first :: rest) :
    ctx.buildEntry conf mem rt (some tsField) subid (some rrField) = .error .nil := by
  unfold buildEntry
  simp only [clipped, Bind.bind, Except.bind, forUs, groups, utaAddRte, unmade, if_true]
  rfl

/-- `build_entry` changes the table only. -/
theorem buildEntry_edits (sound : ctx.Sound) (there : ctx.tables rt = some table) (conf : RtConf)
    (mem : Mem) (tsField : Option CStr) (subid : Int) (rrField : Option CStr) :
    Ends (· = RtFault.nil) (Edits ctx rt)
      (ctx.buildEntry conf mem rt tsField subid rrField) := by
  -- Missing fields are the only fault; a record is skipped, or its groups make an entry.
  cases tsField with
  | none => exact rfl
  | some tsField =>
    cases rrField with
    | none => exact rfl
    | some rrField =>
      by_cases skipped : ingests conf (clip tsField) = true → utaTokenise (clip rrField) 64 ';' = []
      · rw [buildEntry_skips skipped]
        exact Edits.refl sound there
      · obtain ⟨forUs, some_⟩ := Classical.not_imp.mp skipped
        obtain ⟨first, rest, groups⟩ := List.exists_cons_of_ne_nil some_
        cases made : mem.rte with
        | true =>
          obtain ⟨next, built, edits, _⟩ := buildEntry_adds sound there made forUs groups subid
          rw [built]
          exact edits
        | false =>
          rw [buildEntry_faults made forUs groups]
          exact rfl

/-- `trash_entry` takes an entry from the table, if it is there and the record is for this process.
-/
theorem trashEntry_ok (sound : ctx.Sound) (there : ctx.tables rt = some table) (conf : RtConf)
    (tsField : CStr) (subid : Int) :
    ∃ next, ctx.trashEntry conf rt tsField subid = .ok next ∧ Edits ctx rt next ∧
      ∃ mt, next.tables rt = some { table with hash.mt := mt } ∧ ∀ key, mt.lookup key =
        if ingests conf (clip tsField) = true ∧
        key = buildRtKey subid (atoi (clip tsField)) then none
        else table.hash.mt.lookup key := by
  -- The cases: a record for another process, an entry that is not there, and one that is given up.
  have same := Edits.refl sound there
  by_cases forUs : ingests conf (clip tsField) = true
  · have read := table_ok there
    unfold trashEntry
    rw [if_pos forUs]
    cases found : table.hash.mt.lookup (buildRtKey subid (atoi (clip tsField))) with
    | none =>
      refine ⟨ctx, bind_eq_ok.mpr ⟨table, read, by simp only [found]; rfl⟩, same,
        table.hash.mt, there, ?_⟩
      intro key
      split
      · rename_i both
        rw [both.2, found]
      · rfl
    | some id =>
      obtain ⟨refs, was⟩ := sound.held there found
      obtain ⟨mid, midIs⟩ : ∃ mid, mid = ctx.setTable rt { table with
        hash.mt := table.hash.mt.erase (buildRtKey subid (atoi (clip tsField))) } := ⟨_, rfl⟩
      have midObjs : mid.objs = ctx.objs := by
        rw [midIs]
        rfl
      obtain ⟨rtes, deleted, objs, later⟩ := delRte_ok (by rw [midObjs]; exact was)
      rw [midObjs] at objs
      have midThere : mid.tables rt = some { table with
          hash.mt := table.hash.mt.erase (buildRtKey subid (atoi (clip tsField))) } := by
        rw [midIs]
        exact Function.update_self _ _ _
      refine ⟨{ mid with rtes := rtes }, ?_, ⟨?_, ?_, ?_, ?_, ?_⟩, _, midThere, ?_⟩
      · refine bind_eq_ok.mpr ⟨table, read, ?_⟩
        simp only [found]
        rw [← midIs]
        exact deleted
      · exact sound.giveUpOne there found was objs (by rw [midIs]; rfl) (by rw [midIs]; rfl)
          (by rw [midIs]; rfl)
      · have start : ctx.Later mid := by
          rw [midIs]
          exact ⟨Nat.le_refl _, (Later.refl ctx).kept⟩
        exact start.trans later
      · intro other different
        rw [midIs]
        simp [setTable, different]
      · exact ⟨table, _, there, midThere, rfl⟩
      · rw [midIs]
        rfl
      · intro key
        by_cases own : key = buildRtKey subid (atoi (clip tsField))
        · rw [if_pos ⟨forUs, own⟩, own]
          exact AList.lookup_erase _ _
        · rw [if_neg (fun both => own both.2)]
          exact AList.lookup_erase_ne own
  · refine ⟨ctx, ?_, same, table.hash.mt, there, ?_⟩
    · unfold trashEntry
      rw [if_neg forUs]
      rfl
    · intro key
      rw [if_neg (fun both => forUs both.1)]

/-- `parse_meid_ar` changes the managed element ids of the table only. -/
theorem parseMeidAr_ok (sound : ctx.Sound) (there : ctx.tables rt = some table) (mem : Mem)
    (owner meidList : CStr) :
    ∃ next, ctx.parseMeidAr mem rt owner meidList = .ok next ∧ Edits ctx rt next ∧
      next.tables rt = some { table with
        hash.me := ((utaTokenise (clip meidList) 128 ' ').zipIdx.foldl (ownMeid mem (clip owner))
          (ctx.ephash, table.hash.me)).2 } := by
  -- The table is read, and put back with the managed elements of the list.
  refine ⟨_, bind_eq_ok.mpr ⟨table, table_ok there, rfl⟩, ?_, ?_⟩
  · exact edits_setTable sound there _ rfl rfl
  · exact Function.update_self _ _ _

/-- `parse_meid_del` changes the managed element ids of the table only. -/
theorem parseMeidDel_ok (sound : ctx.Sound) (there : ctx.tables rt = some table)
    (meidList : CStr) :
    ∃ next, ctx.parseMeidDel rt meidList = .ok next ∧ Edits ctx rt next ∧
      next.tables rt = some { table with
        hash.me := (utaTokenise (clip meidList) 128 ' ').foldl (fun me tok => me.erase tok)
          table.hash.me } := by
  refine ⟨_, bind_eq_ok.mpr ⟨table, table_ok there, rfl⟩, ?_, ?_⟩
  · exact edits_setTable sound there ctx.ephash rfl rfl
  · exact Function.update_self _ _ _

/-- A record is counted in the table only. -/
theorem bumpUpdates_ok (sound : ctx.Sound) (there : ctx.tables rt = some table) :
    ∃ next, ctx.bumpUpdates rt = .ok next ∧ Edits ctx rt next ∧
      next.tables rt = some { table with updates := toInt (table.updates + 1) } ∧
      next.rtes = ctx.rtes ∧ next.nextRte = ctx.nextRte ∧ next.ephash = ctx.ephash := by
  refine ⟨_, bind_eq_ok.mpr ⟨table, table_ok there, rfl⟩, ?_, ?_, rfl, rfl, rfl⟩
  · exact edits_setTable sound there ctx.ephash rfl rfl
  · exact Function.update_self _ _ _

/-- A managed element record is counted in the table only. -/
theorem bumpMupdates_ok (sound : ctx.Sound) (there : ctx.tables rt = some table) :
    ∃ next, ctx.bumpMupdates rt = .ok next ∧ Edits ctx rt next ∧
      next.tables rt = some { table with mupdates := toInt (table.mupdates + 1) } ∧
      next.rtes = ctx.rtes := by
  refine ⟨_, bind_eq_ok.mpr ⟨table, table_ok there, rfl⟩, ?_, ?_, rfl⟩
  · exact edits_setTable sound there ctx.ephash rfl rfl
  · exact Function.update_self _ _ _

end RtCtx

end Rmr
