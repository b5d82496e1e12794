import Rmr.Proofs.Route.Spaces
import Rmr.Proofs.Route.Told

/-! What has the same effect from every state: records as their handlers, and the records that take
something away or that are about managed elements. -/

namespace Rmr

open RtCtx

variable {conf : RtConf} {mem : Mem} {fields fields' : List CStr}

/-- A record of some kind, up to the point where a start record prepares a new table. -/
def RecKind.handle (conf : RtConf) (fields : List CStr) (ctx : RtCtx) (mem : Mem) :
    RecKind → Except RtFault (RtCtx × Option TableKind)
  | .other => .ok (ctx, none)
  | .del => plainly (ctx.delRec conf fields)
  | .newrt => ctx.newrtRec fields
  | .updatert => ctx.updatertRec fields
  | .rte => plainly (ctx.rteRec conf mem fields)
  | .mse => plainly (ctx.mseRec conf mem fields)
  | .meidMap => ctx.meidParser mem ['m', 'e', 'i', 'd', '_', 'm', 'a', 'p'] fields
  | .mmeAr => ctx.meidParser mem ['m', 'm', 'e', '_', 'a', 'r'] fields
  | .mmeDel => ctx.meidParser mem ['m', 'm', 'e', '_', 'd', 'e', 'l'] fields

/-- What is left to do for a start record. -/
def finish (mem : Mem) : RtCtx × Option TableKind → Except RtFault RtCtx
  | (ctx, none) => .ok ctx
  | (ctx, some kind) => do
    let ctx ← ctx.prepDetach.prepClear
    ctx.startTable mem kind

/-- A record of some kind. -/
def RecKind.run (conf : RtConf) (fields : List CStr) (kind : RecKind) (ctx : RtCtx) (mem : Mem) :
    Except RtFault RtCtx := do
  finish mem (← kind.handle conf fields ctx mem)

/-- Nothing is left to do for a record that starts no table. -/
theorem plainly_finish (done : Except RtFault RtCtx) : plainly done >>= finish mem = done := by
  cases done with
  | error fault => rfl
  | ok ctx => rfl

/-- A record without a name does nothing. -/
theorem parseRtRec_of_nil {ctx : RtCtx} {buf : CStr}
    (none_ : utaTokenise (trimmed buf) 128 '|' = []) : ctx.parseRtRec conf mem buf = .ok ctx := by
  -- Without a token the record is over before its kind is looked at.
  have begins : ctx.beginRec conf mem buf = .ok (ctx, none) := by
    unfold beginRec
    rw [show utaTokenise (trimEnd (buf.dropWhile isspace)) 128 '|' = [] from none_]
  rw [parseRtRec, begins]
  rfl

/-- A managed element record with another name does nothing. -/
theorem meidParser_other {ctx : RtCtx} {name : CStr}
    (map : name ≠ ['m', 'e', 'i', 'd', '_', 'm', 'a', 'p'])
    (ar : name ≠ ['m', 'm', 'e', '_', 'a', 'r'])
    (del : name ≠ ['m', 'm', 'e', '_', 'd', 'e', 'l']) :
    ctx.meidParser mem name fields = .ok (ctx, none) := by
  -- The names of the two kinds of record are compared in turn, and neither is it.
  unfold meidParser
  cases fields with
  | nil => rfl
  | cons first rest =>
    simp only [map, if_false, mmeRec, ar, del]
    cases ctx.newRtable with
    | none => rfl
    | some rt => rfl

/-- The managed element records do what their names tell. -/
theorem meidParser_handle {ctx : RtCtx} (name : CStr) :
    ctx.meidParser mem name fields = RecKind.handle conf fields ctx mem
      (if name = ['m', 'e', 'i', 'd', '_', 'm', 'a', 'p'] then .meidMap
      else if name = ['m', 'm', 'e', '_', 'a', 'r'] then .mmeAr
      else if name = ['m', 'm', 'e', '_', 'd', 'e', 'l'] then .mmeDel
      else .other) := by
  -- The three names are compared in turn, as the parser does.
  split
  · rename_i is
    rw [is]
    rfl
  · split
    · rename_i is
      rw [is]
      rfl
    · split
      · rename_i is
        rw [is]
        rfl
      · exact meidParser_other ‹_› ‹_› ‹_›

/-- A record does what its kind does with its fields. -/
theorem parseRtRec_of_cons {ctx : RtCtx} {buf name : CStr}
    (tokens : utaTokenise (trimmed buf) 128 '|' = name :: fields) :
    ctx.parseRtRec conf mem buf = (kindOf buf).run conf fields ctx mem := by
  have begins : ctx.beginRec conf mem buf = (kindOf buf).handle conf fields ctx mem := by
    rw [← kindOf_of_cons tokens]
    unfold beginRec
    rw [show utaTokenise (trimEnd (buf.dropWhile isspace)) 128 '|' = name :: fields from tokens]
    dsimp only
    unfold recKind
    -- The first letter decides, for the parser as for the kind.
    by_cases del : (clip name).head? = some 'd'
    · rw [del]
      rfl
    by_cases newrt : (clip name).head? = some 'n'
    · rw [newrt]
      rfl
    by_cases managed : (clip name).head? = some 'm'
    · rw [managed]
      change (if clip name = ['m', 's', 'e'] then plainly (ctx.mseRec conf mem fields)
        else ctx.meidParser mem (clip name) fields) = RecKind.handle conf fields ctx mem
          (if clip name = ['m', 's', 'e'] then .mse else _)
      by_cases mse : clip name = ['m', 's', 'e']
      · rw [if_pos mse, if_pos mse]
        rfl
      · rw [if_neg mse, if_neg mse]
        exact meidParser_handle _
    by_cases rte : (clip name).head? = some 'r'
    · rw [rte]
      rfl
    by_cases update : (clip name).head? = some 'u'
    · rw [update]
      rfl
    cases head : (clip name).head? with
    | none => rfl
    | some c =>
      -- None of the letters.
      simp only [head, Option.some.injEq] at del newrt managed rte update
      simp only [Option.some.injEq, del, newrt, managed, rte, update, imp_self]
      rfl
  rw [parseRtRec, begins]
  rfl

/-- What is done has the same effect, from whatever state of the parser. -/
def Alike (done done' : RtCtx → Mem → Except RtFault RtCtx) : Prop :=
  ∀ (ctx : RtCtx) (mem : Mem) (wbuf : CStr),
    (done' ctx mem).map (seen wbuf) = (done ctx mem).map (seen wbuf)

/-- Records of one kind have the same effect when the kind does the same with their fields. -/
theorem sameEffect_iff {rec other name name' : CStr} (same : kindOf other = kindOf rec)
    (tokens : utaTokenise (trimmed rec) 128 '|' = name :: fields)
    (tokens' : utaTokenise (trimmed other) 128 '|' = name' :: fields') :
    SameEffect conf rec other ↔
      Alike ((kindOf rec).run conf fields) ((kindOf rec).run conf fields') := by
  unfold SameEffect Alike
  simp only [parseRtRec_of_cons tokens, parseRtRec_of_cons tokens', same]

/-- Whatever is seen of the effect is the same. -/
theorem Alike.sees {α : Type} {done done' : RtCtx → Mem → Except RtFault RtCtx}
    (alike : Alike done done') (look : Seen → α) (ctx : RtCtx) (mem : Mem) :
    (done' ctx mem).map (fun next => look (next.seen [])) =
      (done ctx mem).map fun next => look (next.seen []) := by
  -- Both fail in the same way, or what is seen of them is the same.
  have same := congrArg (Except.map look) (alike ctx mem [])
  revert same
  cases done' ctx mem <;> cases done ctx mem <;> exact id

/-- What is done in the same way has the same effect. -/
theorem Alike.of_eq {done done' : RtCtx → Mem → Except RtFault RtCtx}
    (same : ∀ ctx mem, done' ctx mem = done ctx mem) : Alike done done' := by
  intro ctx mem wbuf
  rw [same]

/-- A context with a table in progress. -/
def inProgress (table : RouteTable) : RtCtx :=
  { RtCtx.init with
    tables := Function.update (fun _ => none) 0 (some table)
    newRtable := some 0
    tableId := some []
    fullrt := true }

namespace RtCtx

/-- The table in progress refers to an entry no more, if there is a key. -/
def dropKey (ctx : RtCtx) (rt : Nat) : Option UInt64 → Except RtFault RtCtx
  | none => .ok ctx
  | some key => do
    let table ← ctx.table rt
    match table.hash.mt.lookup key with
    | some id => (ctx.setTable rt { table with hash.mt := table.hash.mt.erase key }).delRte id
    | none => return ctx

/-- A `del` record, by what is read of it. -/
def delRead (ctx : RtCtx) : Option (Option UInt64) → Except RtFault RtCtx
  | none => .ok ctx
  | some key =>
    match ctx.newRtable with
    | none => .ok ctx
    | some rt => do
      let ctx ← ctx.dropKey rt key
      ctx.bumpUpdates rt

end RtCtx

/-- What is read of a `del` record is all that matters. -/
theorem run_del (ctx : RtCtx) (mem : Mem) :
    RecKind.del.run conf fields ctx mem = ctx.delRead (delReading conf fields) := by
  -- Without enough fields, or with no table in progress, nothing is dropped.
  have ran : RecKind.del.run conf fields ctx mem = ctx.delRec conf fields :=
    plainly_finish (ctx.delRec conf fields)
  rw [ran]
  unfold delRec
  cases new : ctx.newRtable with
  | none =>
    unfold delRead
    cases delReading conf fields with
    | none => rfl
    | some key => simp only [new]
  | some rt =>
    match fields with
    | [] => rfl
    | [tsField] => rfl
    | tsField :: subid :: rest =>
      simp only [delReading, delRead, new, trashEntry]
      split
      · rfl
      · rfl

namespace RtCtx

variable {ctx : RtCtx} {rt : Nat} {table : RouteTable}

/-- Counting a record, of a table that is there. -/
theorem bumpUpdates_table (there : ctx.tables rt = some table) :
    ctx.bumpUpdates rt =
      .ok (ctx.setTable rt { table with updates := toInt (table.updates + 1) }) := by
  rw [bumpUpdates, table_ok there]
  rfl

/-- Nothing is dropped that is not there. -/
theorem dropKey_absent (there : ctx.tables rt = some table) {key : UInt64}
    (absent : table.hash.mt.lookup key = none) : ctx.dropKey rt (some key) = .ok ctx := by
  rw [dropKey, table_ok there, ok_bind, absent]
  rfl

/-- An entry that other tables refer to as well is there no more in this one. -/
theorem dropKey_shared (there : ctx.tables rt = some table) {key : UInt64} {id : Nat} {rte : Rte}
    (found : table.hash.mt.lookup key = some id) (is : ctx.rtes id = some rte)
    (shared : 0 < rte.refs - 1) :
    ctx.dropKey rt (some key) =
      .ok ((ctx.setTable rt { table with hash.mt := table.hash.mt.erase key }).setRte id
        { rte with refs := rte.refs - 1 }) := by
  -- The entry has other owners, so that its count is one less and it stays.
  have read :
      (ctx.setTable rt { table with hash.mt := table.hash.mt.erase key }).rte id = .ok rte :=
    rte_ok is
  rw [dropKey, table_ok there, ok_bind, found]
  show delRte _ id = _
  rw [delRte, read, ok_bind, if_pos shared]
  rfl

end RtCtx

/-- A context with an entry in the table in progress, which is in other tables as well. -/
def holding (key : UInt64) : RtCtx :=
  { inProgress
      { RouteTable.empty with hash.mt := (∅ : AList fun _ : UInt64 => Nat).insert key 0 } with
    rtes := fun _ => some ⟨⟨key, 0, []⟩, 2⟩ }

/-- The count of the table, and whether it still has the entry, tell what was read. -/
theorem holding_delRead (key : UInt64) (read : Option (Option UInt64)) :
    ((holding key).delRead read).map (fun next =>
      ((next.seen []).tables 0).map fun table => (table.updates, table.mt key)) =
      .ok (some (if read = none then 0 else 1,
        if read = some (some key) then none else some 0)) := by
  obtain ⟨table, tableIs⟩ : ∃ table, table = { RouteTable.empty with
    hash.mt := (∅ : AList fun _ : UInt64 => Nat).insert key 0 } := ⟨_, rfl⟩
  have there : (holding key).tables 0 = some table := by
    rw [tableIs]
    rfl
  have count : table.updates = 0 := by
    rw [tableIs]
    rfl
  have held : table.hash.mt.lookup key = some 0 := by
    rw [tableIs]
    exact AList.lookup_insert _
  have one : toInt 1 = 1 := toInt_of_inInt (by decide)
  cases read with
  | none => simp [delRead, Except.map, seen, there, RouteTable.view, count, held]
  | some read =>
    have new : (holding key).newRtable = some 0 := rfl
    cases read with
    | none =>
      simp only [delRead, new, dropKey, ok_bind, bumpUpdates_table there, Except.map]
      simp [seen, setTable, RouteTable.view, count, held, one]
    | some other =>
      by_cases same : other = key
      · -- The table gives up its reference, and the other tables keep theirs.
        subst same
        have dropped := dropKey_shared there held rfl Int.zero_lt_one
        simp only [delRead, new, dropped, ok_bind]
        rw [@bumpUpdates_table _ 0 { table with hash.mt := table.hash.mt.erase other }
          (by simp [setTable, setRte])]
        simp [Except.map, seen, setTable, setRte, RouteTable.view, count, one]
      · have absent : table.hash.mt.lookup other = none := by
          rw [tableIs]
          exact AList.lookup_insert_ne same
        simp only [delRead, new, dropKey_absent there absent, ok_bind, bumpUpdates_table there]
        simp [Except.map, seen, setTable, RouteTable.view, count, held, one, same]

/-- Two `del` records have the same effect exactly when the same is read of them. -/
theorem del_alike_iff : Alike (RecKind.del.run conf fields) (RecKind.del.run conf fields') ↔
    delReading conf fields' = delReading conf fields := by
  constructor
  · intro alike
    -- The probe for each key.
    have probes : ∀ key, (if delReading conf fields' = none then (0 : Int) else 1) =
        (if delReading conf fields = none then 0 else 1) ∧
        ((if delReading conf fields' = some (some key) then none else some 0) =
          if delReading conf fields = some (some key) then none else some 0) := by
      intro key
      have same := alike.sees (fun seen =>
        (seen.tables 0).map fun table => (table.updates, table.mt key)) (holding key) .ample
      rw [run_del, run_del, holding_delRead, holding_delRead] at same
      simpa using same
    cases read : delReading conf fields with
    | none =>
      have few := (probes 0).1
      rw [read] at few
      by_contra some_
      simp [some_] at few
    | some key =>
      cases read' : delReading conf fields' with
      | none =>
        have few := (probes 0).1
        simp [read, read'] at few
      | some key' =>
        cases key with
        | none =>
          cases key' with
          | none => rfl
          | some key' =>
            have gone := (probes key').2
            simp [read, read'] at gone
        | some key =>
          have gone := (probes key).2
          rw [read, read', if_pos rfl] at gone
          by_contra other
          rw [if_neg other] at gone
          cases gone
  · intro same
    refine Alike.of_eq fun ctx mem => ?_
    rw [run_del, run_del, same]

/-- Tables that look the same are seen as the same. -/
theorem seen_setTable {ctx : RtCtx} {rt : Nat} {table table' : RouteTable}
    (same : table'.view = table.view) (wbuf : CStr) :
    (ctx.setTable rt table').seen wbuf = (ctx.setTable rt table).seen wbuf := by
  -- The table is the one that was set, which looks the same, or another one.
  have tables : ((ctx.setTable rt table').seen wbuf).tables =
      ((ctx.setTable rt table).seen wbuf).tables := by
    funext other
    by_cases own : other = rt
    · subst own
      simp [seen, setTable, same]
    · simp [seen, setTable, own]
  unfold seen at tables ⊢
  simp only [Seen.mk.injEq] at tables ⊢
  exact ⟨tables, rfl, rfl⟩

namespace RtCtx

variable {ctx : RtCtx} {rt : Nat} {table : RouteTable}

/-- Counting a managed element record, of a table that is there. -/
theorem bumpMupdates_table (there : ctx.tables rt = some table) :
    ctx.bumpMupdates rt =
      .ok (ctx.setTable rt { table with mupdates := toInt (table.mupdates + 1) }) := by
  rw [bumpMupdates, table_ok there]
  rfl

/-- What is put in a table twice is there as it was put last. -/
theorem setTable_setTable (first second : RouteTable) :
    (ctx.setTable rt first).setTable rt second = ctx.setTable rt second := by
  unfold setTable
  rw [Function.update_idem]

end RtCtx

/-- An `mme_del` record for a table that is there. -/
theorem run_mmeDel {ctx : RtCtx} {rt : Nat} {table : RouteTable} (new : ctx.newRtable = some rt)
    (there : ctx.tables rt = some table) (meidList : CStr) (rest : List CStr) :
    RecKind.mmeDel.run conf (meidList :: rest) ctx mem =
      .ok (ctx.setTable rt { table with
        hash.me := (utaTokenise (clip meidList) 128 ' ').foldl (fun me tok => me.erase tok)
          table.hash.me
        mupdates := toInt (table.mupdates + 1) }) := by
  -- The ids are erased one by one, and then the record is counted.
  have ran : RecKind.mmeDel.run conf (meidList :: rest) ctx mem =
      ctx.parseMeidDel rt meidList >>= fun ctx => ctx.bumpMupdates rt := by
    refine Eq.trans ?_ (@plainly_finish mem _)
    simp only [RecKind.run, RecKind.handle, meidParser, mmeRec, new]
    rfl
  have deleted : ctx.parseMeidDel rt meidList = .ok (ctx.setTable rt { table with
      hash.me := (utaTokenise (clip meidList) 128 ' ').foldl (fun me tok => me.erase tok)
        table.hash.me }) := by
    rw [parseMeidDel, table_ok there]
    rfl
  rw [ran, deleted, ok_bind, bumpMupdates_table (Function.update_self _ _ _), setTable_setTable]

/-- Where no table is in progress, or it is not there, an `mme_del` record does the same whatever it
lists. -/
theorem run_mmeDel_of_none {ctx : RtCtx} (none_ : ∀ rt table, ctx.newRtable = some rt →
    ctx.tables rt ≠ some table) (meidList meidList' : CStr) (rest rest' : List CStr) :
    RecKind.mmeDel.run conf (meidList' :: rest') ctx mem =
      RecKind.mmeDel.run conf (meidList :: rest) ctx mem := by
  -- Without the table both records end with the same fault before their ids are looked at.
  simp only [RecKind.run, RecKind.handle, meidParser, mmeRec]
  cases new : ctx.newRtable with
  | none => rfl
  | some rt =>
    have gone : ctx.table rt = .error .freed := by
      unfold RtCtx.table
      cases there : ctx.tables rt with
      | none => rfl
      | some table => exact absurd there (none_ rt table new)
    simp only [parseMeidDel, gone]
    rfl

/-- A context with a table in progress that has one managed element. -/
def owning (meid : CStr) : RtCtx :=
  inProgress { RouteTable.empty with hash.me := (∅ : AList fun _ : CStr => CStr).insert meid [] }

/-- The count of the table, and whether the managed element still has an owner, tell what is listed.
-/
theorem owning_mmeDel (meid : CStr) (fields : List CStr) :
    (RecKind.mmeDel.run conf fields (owning meid) .ample).map (fun next =>
      ((next.seen []).tables 0).map fun table => (table.mupdates, table.me meid)) =
      .ok (some (if mmeDelReading fields = none then 0 else 1,
        if (mmeDelReading fields).map (fun meids => meids meid) = some true then none
        else some [])) := by
  -- The table has one owner, which is still there exactly where the id is not listed.
  obtain ⟨table, tableIs⟩ : ∃ table, table = { RouteTable.empty with
    hash.me := (∅ : AList fun _ : CStr => CStr).insert meid [] } := ⟨_, rfl⟩
  have there : (owning meid).tables 0 = some table := by
    rw [tableIs]
    rfl
  have count : table.mupdates = 0 := by
    rw [tableIs]
    rfl
  have held : table.hash.me.lookup meid = some [] := by
    rw [tableIs]
    exact AList.lookup_insert _
  cases fields with
  | nil =>
    have ran : RecKind.mmeDel.run conf [] (owning meid) .ample = .ok (owning meid) := rfl
    simp [ran, Except.map, seen, there, RouteTable.view, count, held, mmeDelReading]
  | cons meidList rest =>
    have one : toInt 1 = 1 := toInt_of_inInt (by decide)
    have erased := eraseMeids_lookup (utaTokenise (clip meidList) 128 ' ') table.hash.me meid
    rw [run_mmeDel (show (owning meid).newRtable = some 0 from rfl) there]
    simp [Except.map, seen, setTable, RouteTable.view, count, one, erased, held, mmeDelReading]

/-- Two `mme_del` records have the same effect exactly when they list the same. -/
theorem mmeDel_alike_iff :
    Alike (RecKind.mmeDel.run conf fields) (RecKind.mmeDel.run conf fields') ↔
      mmeDelReading fields' = mmeDelReading fields := by
  constructor
  · intro alike
    have probes := fun meid => alike.sees (fun seen =>
      (seen.tables 0).map fun table => (table.mupdates, table.me meid)) (owning meid) .ample
    simp only [owning_mmeDel, Except.ok.injEq, Option.some.injEq, Prod.mk.injEq] at probes
    cases read : mmeDelReading fields with
    | none =>
      have few := (probes []).1
      rw [read] at few
      by_contra some_
      simp [some_] at few
    | some meids =>
      cases read' : mmeDelReading fields' with
      | none =>
        have few := (probes []).1
        simp [read, read'] at few
      | some meids' =>
        refine congrArg some (funext fun meid => ?_)
        have gone := (probes meid).2
        rw [read, read'] at gone
        cases listed : meids meid <;> cases listed' : meids' meid <;>
          simp [listed, listed'] at gone ⊢
  · intro same
    cases fields with
    | nil =>
      cases fields' with
      | nil => exact Alike.of_eq fun ctx mem => rfl
      | cons meidList' rest' => cases same
    | cons meidList rest =>
      cases fields' with
      | nil => cases same
      | cons meidList' rest' =>
        -- Both list the same managed elements.
        have listed : ∀ meid, meid ∈ utaTokenise (clip meidList') 128 ' ' ↔
            meid ∈ utaTokenise (clip meidList) 128 ' ' := by
          intro meid
          have both := congrFun (Option.some.inj same) meid
          simpa using both
        intro ctx mem wbuf
        by_cases there : ∃ rt table, ctx.newRtable = some rt ∧ ctx.tables rt = some table
        · obtain ⟨rt, table, new, there⟩ := there
          rw [run_mmeDel new there, run_mmeDel new there]
          refine congrArg Except.ok (seen_setTable ?_ wbuf)
          have erased : ∀ meid, ((utaTokenise (clip meidList') 128 ' ').foldl
              (fun me tok => me.erase tok) table.hash.me).lookup meid =
              ((utaTokenise (clip meidList) 128 ' ').foldl
                (fun me tok => me.erase tok) table.hash.me).lookup meid := by
            intro meid
            rw [eraseMeids_lookup, eraseMeids_lookup]
            simp only [listed]
          unfold RouteTable.view
          simp only [TableView.mk.injEq, true_and, and_true]
          exact funext erased
        · rw [run_mmeDel_of_none fun rt table new is => there ⟨rt, table, new, is⟩]

/-- One managed element for an owner that has an endpoint already. -/
theorem ownMeid_known {owner : CStr} (owned : owner ≠ []) {ephash : List CStr}
    (known : owner ∈ ephash) (me : AList fun _ : CStr => CStr) (tok : CStr × Nat) :
    ownMeid mem owner (ephash, me) tok = (ephash, me.insert tok.1 owner) := by
  simp only [ownMeid, rtEnsureEp, if_neg owned, if_pos known]

/-- An owner that has an endpoint already gets all managed elements in a list. -/
theorem ownMeids_known {owner : CStr} (owned : owner ≠ []) {ephash : List CStr}
    (known : owner ∈ ephash) (toks : List (CStr × Nat)) (me : AList fun _ : CStr => CStr) :
    (toks.foldl (ownMeid mem owner) (ephash, me)).1 = ephash ∧
      ∀ meid, (toks.foldl (ownMeid mem owner) (ephash, me)).2.lookup meid =
        if meid ∈ toks.map Prod.fst then some owner else me.lookup meid := by
  -- By induction on the list; no endpoint is made, as the owner has one.
  induction toks generalizing me with
  | nil => exact ⟨rfl, fun meid => by simp⟩
  | cons tok toks ih =>
    rw [List.foldl_cons, ownMeid_known owned known]
    refine ⟨(ih _).1, fun meid => ?_⟩
    rw [(ih _).2, List.map_cons]
    by_cases later : meid ∈ toks.map Prod.fst
    · rw [if_pos later, if_pos (List.mem_cons_of_mem _ later)]
    · rw [if_neg later]
      by_cases own : meid = tok.1
      · subst own
        rw [AList.lookup_insert, if_pos List.mem_cons_self]
      · rw [AList.lookup_insert_ne own, if_neg]
        intro among
        rcases List.mem_cons.mp among with is | is
        · exact own is
        · exact later is

/-- A managed element without an owner to name is not added. -/
theorem ownMeids_unnamed (toks : List (CStr × Nat)) (ephash : List CStr)
    (me : AList fun _ : CStr => CStr) :
    toks.foldl (ownMeid mem []) (ephash, me) = (ephash, me) := by
  -- By induction on the managed elements, none of which is added.
  induction toks with
  | nil => rfl
  | cons tok toks ih => exact ih

/-- One managed element for an owner without an endpoint. -/
theorem ownMeid_unknown {owner : CStr} (owned : owner ≠ []) {ephash : List CStr}
    (new : owner ∉ ephash) (me : AList fun _ : CStr => CStr) (tok : CStr × Nat) :
    ownMeid mem owner (ephash, me) tok =
      if mem.ep 0 tok.2 = true then (ephash ++ [owner], me.insert tok.1 owner)
        else (ephash, me) := by
  simp only [ownMeid, rtEnsureEp, if_neg owned, if_neg new]
  cases mem.ep 0 tok.2 <;> rfl

/-- Where two lists of managed elements lead to the same. -/
def SameOwners (mem : Mem) (owner : CStr) (start : Nat) (toks toks' : List CStr)
    (state : List CStr × AList fun _ : CStr => CStr) : Prop :=
  ((toks'.zipIdx start).foldl (ownMeid mem owner) state).1 =
      ((toks.zipIdx start).foldl (ownMeid mem owner) state).1 ∧
    ((toks'.zipIdx start).foldl (ownMeid mem owner) state).2.lookup =
      ((toks.zipIdx start).foldl (ownMeid mem owner) state).2.lookup

/-- Once the owner has an endpoint only the members of the lists matter. -/
theorem sameOwners_known {owner : CStr} (owned : owner ≠ []) {toks toks' : List CStr}
    (same : ∀ meid, meid ∈ toks' ↔ meid ∈ toks) {ephash : List CStr} (known : owner ∈ ephash)
    (me : AList fun _ : CStr => CStr) (start : Nat) :
    SameOwners mem owner start toks toks' (ephash, me) := by
  -- The endpoint of the owner is there, so that only who is in the lists is added.
  refine ⟨?_, funext fun meid => ?_⟩
  · rw [(ownMeids_known owned known _ _).1, (ownMeids_known owned known _ _).1]
  · rw [(ownMeids_known owned known _ _).2, (ownMeids_known owned known _ _).2,
      List.zipIdx_map_fst, List.zipIdx_map_fst]
    simp only [same]

/-- Two lists of managed elements are given to an owner in the same way when they have the same from
each place on. -/
theorem sameOwners_of_drop {owner : CStr} (owned : owner ≠ []) {toks toks' : List CStr}
    (same : ∀ place meid, meid ∈ toks'.drop place ↔ meid ∈ toks.drop place) (ephash : List CStr)
    (me : AList fun _ : CStr => CStr) (start : Nat) :
    SameOwners mem owner start toks toks' (ephash, me) := by
  by_cases has : owner ∈ ephash
  · exact sameOwners_known owned (same 0) has me start
  · induction toks generalizing toks' start with
    | nil =>
      cases toks' with
      | nil => exact ⟨rfl, rfl⟩
      | cons tok' toks' =>
        have first := (same 0 tok').mp List.mem_cons_self
        cases first
    | cons tok toks ih =>
      cases toks' with
      | nil =>
        have first := (same 0 tok).mpr List.mem_cons_self
        cases first
      | cons tok' toks' =>
        cases makes : mem.ep 0 start with
        | true =>
          -- The endpoint is made for the first one of both lists, as if it had been there before.
          have knows : owner ∈ ephash ++ [owner] := List.mem_append_right _ List.mem_cons_self
          have all := @sameOwners_known mem _ owned _ _ (same 0) _ knows me start
          unfold SameOwners at all ⊢
          simp only [List.drop_zero, List.zipIdx_cons, List.foldl_cons, ownMeid_known owned knows,
            ownMeid_unknown owned has, makes, if_true] at all ⊢
          exact all
        | false =>
          have rest := ih (fun place meid => same (place + 1) meid) (start + 1)
          unfold SameOwners at rest ⊢
          simp only [List.zipIdx_cons, List.foldl_cons, ownMeid_unknown owned has, makes,
            Bool.false_eq_true, if_false]
          exact rest

/-- Whatever is read of two lists in the same way is given to the owner in the same way. -/
theorem ownMeids_of_reading {owner owner' : CStr} {toks toks' : List CStr}
    (same : ∀ place meid,
      (if owner' ≠ [] ∧ meid ∈ toks'.drop place then some owner' else none) =
        if owner ≠ [] ∧ meid ∈ toks.drop place then some owner else none)
    (ephash : List CStr) (me : AList fun _ : CStr => CStr) :
    (toks'.zipIdx.foldl (ownMeid mem owner') (ephash, me)).1 =
        (toks.zipIdx.foldl (ownMeid mem owner) (ephash, me)).1 ∧
      (toks'.zipIdx.foldl (ownMeid mem owner') (ephash, me)).2.lookup =
        (toks.zipIdx.foldl (ownMeid mem owner) (ephash, me)).2.lookup := by
  -- A list that nothing is read of does nothing.
  have idle : ∀ {owner : CStr} {toks : List CStr},
      (∀ meid, (if owner ≠ [] ∧ meid ∈ toks.drop 0 then some owner else none) = none) →
      toks.zipIdx.foldl (ownMeid mem owner) (ephash, me) = (ephash, me) := by
    intro owner toks nothing
    by_cases owned : owner = []
    · rw [owned, ownMeids_unnamed]
    · cases toks with
      | nil => rfl
      | cons tok toks =>
        have first := nothing tok
        rw [if_pos ⟨owned, List.mem_cons_self⟩] at first
        cases first
  by_cases nothing : ∀ meid, (if owner ≠ [] ∧ meid ∈ toks.drop 0 then some owner else none) = none
  · rw [idle nothing, idle fun meid => (same 0 meid).trans (nothing meid)]
    exact ⟨rfl, rfl⟩
  · -- The owner is the same, and so is the list from each place on.
    obtain ⟨meid, listed⟩ := not_forall.mp nothing
    have first := same 0 meid
    have both : owner ≠ [] ∧ meid ∈ toks.drop 0 := by
      by_contra out
      exact listed (if_neg out)
    rw [if_pos both] at first
    have owner_ : owner' = owner := by
      by_contra other
      split at first
      · exact other (Option.some.inj first)
      · cases first
    subst owner_
    refine sameOwners_of_drop both.1 (fun place meid => ?_) ephash me 0
    have there := same place meid
    by_cases among : meid ∈ toks.drop place
    · by_cases among' : meid ∈ toks'.drop place
      · exact iff_of_true among' among
      · rw [if_neg (fun is => among' is.2), if_pos ⟨both.1, among⟩] at there
        cases there
    · by_cases among' : meid ∈ toks'.drop place
      · rw [if_pos ⟨both.1, among'⟩, if_neg (fun is => among is.2)] at there
        cases there
      · exact iff_of_false among' among

/-- The allocation of one endpoint only succeeds: that for some place in the list. -/
def Mem.onlyEp (place : Nat) : Mem := { Mem.ample with ep := fun _ token => token = place }

/-- When an endpoint for the owner can be made at one place only, the owner gets the managed
elements from there on. -/
theorem ownMeids_from {owner : CStr} (owned : owner ≠ []) (toks : List CStr)
    (me : AList fun _ : CStr => CStr) (start place : Nat) (meid : CStr) :
    ((toks.zipIdx start).foldl (ownMeid (.onlyEp (start + place)) owner) ([], me)).2.lookup meid =
      if meid ∈ toks.drop place then some owner else me.lookup meid := by
  -- By induction on the list: before the place no endpoint can be made, and none behind it needs
  -- one.
  have new : owner ∉ ([] : List CStr) := List.not_mem_nil
  induction toks generalizing start place with
  | nil => simp
  | cons tok toks ih =>
    cases place with
    | zero =>
      have makes : (Mem.onlyEp (start + 0)).ep 0 start = true := by simp [Mem.onlyEp]
      have knows : owner ∈ ([] : List CStr) ++ [owner] := by simp
      have all := (@ownMeids_known (.onlyEp (start + 0)) _ owned _ knows
        ((tok :: toks).zipIdx start) me).2 meid
      rw [List.zipIdx_map_fst] at all
      simp only [List.zipIdx_cons, List.foldl_cons, ownMeid_known owned knows] at all
      simp only [List.zipIdx_cons, List.foldl_cons, ownMeid_unknown owned new, makes, if_true,
        List.drop_zero]
      exact all
    | succ place =>
      have fails : (Mem.onlyEp (start + (place + 1))).ep 0 start = false := by
        simp [Mem.onlyEp]
      have rest := ih (start + 1) place
      rw [show start + 1 + place = start + (place + 1) by omega] at rest
      simp only [List.zipIdx_cons, List.foldl_cons, ownMeid_unknown owned new, fails,
        Bool.false_eq_true, if_false, List.drop_succ_cons]
      exact rest

/-- An `mme_ar` record for a table that is there. -/
theorem run_mmeAr {ctx : RtCtx} {rt : Nat} {table : RouteTable} (new : ctx.newRtable = some rt)
    (there : ctx.tables rt = some table) (owner meidList : CStr) (rest : List CStr) :
    RecKind.mmeAr.run conf (owner :: meidList :: rest) ctx mem =
      .ok (RtCtx.setTable { ctx with
          ephash := ((utaTokenise (clip meidList) 128 ' ').zipIdx.foldl (ownMeid mem (clip owner))
            (ctx.ephash, table.hash.me)).1 } rt { table with
        hash.me := ((utaTokenise (clip meidList) 128 ' ').zipIdx.foldl (ownMeid mem (clip owner))
          (ctx.ephash, table.hash.me)).2
        mupdates := toInt (table.mupdates + 1) }) := by
  -- The owners are put in one by one, and then the record is counted.
  have ran : RecKind.mmeAr.run conf (owner :: meidList :: rest) ctx mem =
      ctx.parseMeidAr mem rt owner meidList >>= fun ctx => ctx.bumpMupdates rt := by
    refine Eq.trans ?_ (@plainly_finish mem _)
    simp only [RecKind.run, RecKind.handle, meidParser, mmeRec, new]
    rfl
  have put : ctx.parseMeidAr mem rt owner meidList = .ok { ctx.setTable rt { table with
      hash.me := ((utaTokenise (clip meidList) 128 ' ').zipIdx.foldl (ownMeid mem (clip owner))
        (ctx.ephash, table.hash.me)).2 } with
      ephash := ((utaTokenise (clip meidList) 128 ' ').zipIdx.foldl (ownMeid mem (clip owner))
        (ctx.ephash, table.hash.me)).1 } := by
    rw [parseMeidAr, table_ok there]
    rfl
  rw [ran, put, ok_bind, bumpMupdates_table (Function.update_self _ _ _)]
  simp only [setTable, Function.update_idem]

/-- Where no table is in progress, or it is not there, an `mme_ar` record does the same whatever it
lists. -/
theorem run_mmeAr_of_none {ctx : RtCtx} (none_ : ∀ rt table, ctx.newRtable = some rt →
    ctx.tables rt ≠ some table) (owner owner' meidList meidList' : CStr) (rest rest' : List CStr) :
    RecKind.mmeAr.run conf (owner' :: meidList' :: rest') ctx mem =
      RecKind.mmeAr.run conf (owner :: meidList :: rest) ctx mem := by
  -- Without the table both records end with the same fault before their ids are looked at.
  simp only [RecKind.run, RecKind.handle, meidParser, mmeRec]
  cases new : ctx.newRtable with
  | none => rfl
  | some rt =>
    have gone : ctx.table rt = .error .freed := by
      unfold RtCtx.table
      cases there : ctx.tables rt with
      | none => rfl
      | some table => exact absurd there (none_ rt table new)
    simp only [parseMeidAr, gone]
    rfl

/-- An `mme_ar` record with too few fields does nothing. -/
theorem run_mmeAr_few {ctx : RtCtx} (few : mmeArReading fields = none) :
    RecKind.mmeAr.run conf fields ctx mem = .ok ctx := by
  -- The cases are those of the fields: none, an owner alone, and one with a list.
  cases fields with
  | nil => rfl
  | cons owner rest =>
    cases rest with
    | nil =>
      simp only [RecKind.run, RecKind.handle, meidParser, mmeRec]
      cases ctx.newRtable with
      | none => rfl
      | some rt => rfl
    | cons meidList rest => cases few

/-- The fields of an `mme_ar` record that are read. -/
theorem mmeArReading_eq_some {owners : Nat → CStr → Option CStr}
    (read : mmeArReading fields = some owners) : ∃ owner meidList rest,
      fields = owner :: meidList :: rest ∧ ∀ place meid, owners place meid =
        if clip owner ≠ [] ∧ meid ∈ (utaTokenise (clip meidList) 128 ' ').drop place then
          some (clip owner) else none := by
  -- The cases are those of the fields: none, an owner alone, and one with a list.
  cases fields with
  | nil => cases read
  | cons owner rest =>
    cases rest with
    | nil => cases read
    | cons meidList rest =>
      cases read
      exact ⟨owner, meidList, rest, rfl, fun _ _ => rfl⟩

/-- The count of the table in progress, and the owner of a managed element when an endpoint can be
made at one place only, tell what is listed. -/
theorem inProgress_mmeAr (place : Nat) (meid : CStr) (fields : List CStr) :
    (RecKind.mmeAr.run conf fields (inProgress .empty) (.onlyEp place)).map (fun next =>
      ((next.seen []).tables 0).map fun table => (table.mupdates, table.me meid)) =
      .ok (some (if mmeArReading fields = none then 0 else 1,
        (mmeArReading fields).bind fun owners => owners place meid)) := by
  -- The table has no owners, so that the one found is the one that the record gives.
  obtain ⟨table, tableIs⟩ : ∃ table, table = RouteTable.empty := ⟨_, rfl⟩
  rw [← tableIs]
  have there : (inProgress table).tables 0 = some table := rfl
  have count : table.mupdates = 0 := by
    rw [tableIs]
    rfl
  have unowned : table.hash.me.lookup meid = none := by
    rw [tableIs]
    rfl
  cases read : mmeArReading fields with
  | none =>
    rw [run_mmeAr_few read]
    simp [Except.map, seen, there, RouteTable.view, count, unowned]
  | some owners =>
    obtain ⟨owner, meidList, rest, rfl, owners⟩ := mmeArReading_eq_some read
    have one : toInt 1 = 1 := toInt_of_inInt (by decide)
    have ephash : (inProgress table).ephash = [] := rfl
    rw [run_mmeAr (show (inProgress table).newRtable = some 0 from rfl) there, ephash]
    by_cases owned : clip owner = []
    · simp [Except.map, seen, setTable, RouteTable.view, count, unowned, owned, one, owners,
        ownMeids_unnamed]
    · have from_ := ownMeids_from owned (utaTokenise (clip meidList) 128 ' ') table.hash.me
        0 place meid
      rw [Nat.zero_add] at from_
      simp [Except.map, seen, setTable, RouteTable.view, count, unowned, owned, one, owners, from_]

/-- Two `mme_ar` records have the same effect exactly when they list the same for the same owner. -/
theorem mmeAr_alike_iff :
    Alike (RecKind.mmeAr.run conf fields) (RecKind.mmeAr.run conf fields') ↔
      mmeArReading fields' = mmeArReading fields := by
  -- The probes are tables without owners, in which an endpoint can be made at one place.
  constructor
  · intro alike
    have probes := fun place meid => alike.sees (fun seen =>
      (seen.tables 0).map fun table => (table.mupdates, table.me meid)) (inProgress .empty)
      (.onlyEp place)
    simp only [inProgress_mmeAr, Except.ok.injEq, Option.some.injEq, Prod.mk.injEq] at probes
    cases read : mmeArReading fields with
    | none =>
      have few := (probes 0 []).1
      rw [read] at few
      by_contra some_
      simp [some_] at few
    | some owners =>
      cases read' : mmeArReading fields' with
      | none =>
        have few := (probes 0 []).1
        simp [read, read'] at few
      | some owners' =>
        refine congrArg some (funext fun place => funext fun meid => ?_)
        have owned := (probes place meid).2
        rw [read, read'] at owned
        exact owned
  · intro same
    cases read : mmeArReading fields with
    | none =>
      rw [read] at same
      exact Alike.of_eq fun ctx mem => by rw [run_mmeAr_few read, run_mmeAr_few same]
    | some owners =>
      rw [read] at same
      obtain ⟨owner, meidList, rest, rfl, owners_⟩ := mmeArReading_eq_some read
      obtain ⟨owner', meidList', rest', rfl, owners'⟩ := mmeArReading_eq_some same
      intro ctx mem wbuf
      by_cases there : ∃ rt table, ctx.newRtable = some rt ∧ ctx.tables rt = some table
      · obtain ⟨rt, table, new, there⟩ := there
        have both := @ownMeids_of_reading mem _ _ _ _
          (fun place meid => (owners' place meid).symm.trans (owners_ place meid)) ctx.ephash
          table.hash.me
        rw [run_mmeAr new there, run_mmeAr new there, both.1]
        refine congrArg Except.ok (seen_setTable ?_ wbuf)
        unfold RouteTable.view
        simp only [TableView.mk.injEq, true_and, and_true]
        exact both.2
      · rw [run_mmeAr_of_none fun rt table new is => there ⟨rt, table, new, is⟩]

end Rmr
