import Rmr.Proofs.Route.Alike

/-! The records that start and end tables have the same effect exactly when the same is read of
them. -/

namespace Rmr

open RtCtx

variable {conf : RtConf} {mem : Mem} {fields fields' : List CStr}

/-- The part of a reason that any state message shows. -/
theorem take_reason (text : CStr) {shown : Nat} (most : shown ≤ ackMax - 5) :
    (text.take 1023 ++ ['\n']).take shown = ((text ++ ['\n']).take (ackMax - 5)).take shown := by
  rw [List.take_take, Nat.min_eq_left most]
  have limit : ackMax - 5 = 1017 := rfl
  by_cases short : text.length ≤ 1023
  · rw [List.take_of_length_le short]
  · -- What is cut off is not shown.
    rw [List.take_append_of_le_length (by rw [List.length_take]; omega),
      List.take_append_of_le_length (by omega), List.take_take, Nat.min_eq_left (by omega)]

/-- What stands in front of the reason in a state message. -/
def front (tableId : Option CStr) : CStr :=
  "ERR ".toList ++ tableId.getD "<id-missing>".toList ++ [' ']

/-- A state message for two counts that differ, by what is shown of the reason. -/
theorem payload_missing (tableId : Option CStr) (count : CStr) (got : Int) (wbuf : CStr) :
    RtAck.payload ⟨tableId, some (.missing count got)⟩ wbuf = (front tableId).take ackMax ++
      ((missingText count got ++ ['\n']).take (ackMax - 5)).take
        (ackMax - (front tableId).length) := by
  -- The text starts with the id, so that it is the reason behind that which is cut.
  have whole : tableState false tableId ((missingText count got).take 1023) =
      front tableId ++ ((missingText count got).take 1023 ++ ['\n']) := by
    simp [tableState, front]
  have long : 5 ≤ (front tableId).length := by
    simp [front]
  show (tableState false tableId ((missingText count got).take 1023)).take ackMax = _
  rw [whole, List.take_append, take_reason _ (by omega)]

/-- Counts that are shown in the same way are shown so whatever the id of the table is. -/
theorem payload_of_denial {count count' : CStr} {counted got : Int}
    (same : denial count' counted got = denial count counted got) (differs : counted ≠ atoi count)
    (tableId : Option CStr) (wbuf : CStr) :
    RtAck.payload ⟨tableId, some (.missing count' got)⟩ wbuf =
      RtAck.payload ⟨tableId, some (.missing count got)⟩ wbuf := by
  unfold denial at same
  rw [if_neg differs] at same
  split at same
  · cases same
  · rw [payload_missing, payload_missing, Option.some.inj same]

namespace RtCtx

/-- The context with other state messages. -/
def withAcks (acks : List RtAck) (ctx : RtCtx) : RtCtx := { ctx with acks := acks }

variable {ctx : RtCtx} {rt : Nat} {table : RouteTable}

/-- Giving up entries has nothing to do with state messages. -/
theorem delRte_withAcks (acks : List RtAck) (ctx : RtCtx) (id : Nat) :
    (ctx.withAcks acks).delRte id = (ctx.delRte id).map (withAcks acks) := by
  -- The entry is kept or freed by its count alone.
  have same : (ctx.withAcks acks).rte id = ctx.rte id := rfl
  unfold delRte
  rw [same]
  cases ctx.rte id with
  | error fault => rfl
  | ok rte =>
    simp only [ok_bind]
    split
    · rfl
    · rfl

/-- Dropping references does not look at the state messages. -/
theorem delRtes_withAcks (acks : List RtAck) (ctx : RtCtx) (mt : AList fun _ : UInt64 => Nat) :
    (ctx.withAcks acks).delRtes mt = (ctx.delRtes mt).map (withAcks acks) := by
  -- By induction on the entries, none of which is looked up in a state message.
  unfold delRtes
  generalize mt.entries = things
  induction things generalizing ctx with
  | nil => rfl
  | cons thing things ih =>
    rw [List.foldlM_cons, List.foldlM_cons, delRte_withAcks]
    cases ctx.delRte thing.2 with
    | error fault => rfl
    | ok mid => exact ih mid

/-- A table is dropped whatever was told before. -/
theorem dropNew_withAcks (acks : List RtAck) (ctx : RtCtx) (rt : Nat) :
    (ctx.withAcks acks).dropNew rt = (ctx.dropNew rt).map (withAcks acks) := by
  -- The table is read, its entries are dropped, and it is freed, each without a look at them.
  have same : (ctx.withAcks acks).table rt = ctx.table rt := rfl
  unfold dropNew utaRtDrop
  rw [same]
  cases ctx.table rt with
  | error fault => rfl
  | ok table =>
    simp only [ok_bind, delRtes_withAcks]
    cases ctx.delRtes table.hash.mt with
    | error fault => rfl
    | ok mid => rfl

/-- A table is given up with the same effect when the state message is the same. -/
theorem reject_alike {reason reason' : NackReason} {wbuf : CStr}
    (same : RtAck.payload ⟨ctx.tableId, some reason'⟩ wbuf =
      RtAck.payload ⟨ctx.tableId, some reason⟩ wbuf) :
    ((ctx.sendRtAck (some reason')).dropNew rt).map (seen wbuf) =
      ((ctx.sendRtAck (some reason)).dropNew rt).map (seen wbuf) := by
  -- The two contexts differ in their last state message only, which reads the same.
  have told : ∀ reason, (ctx.sendRtAck (some reason)).dropNew rt =
      (ctx.dropNew rt).map (withAcks (ctx.acks ++ [⟨ctx.tableId, some reason⟩])) := by
    intro reason
    exact dropNew_withAcks _ ctx rt
  rw [told, told]
  cases ctx.dropNew rt with
  | error fault => rfl
  | ok mid =>
    refine congrArg Except.ok ?_
    simp only [seen, withAcks, List.map_append, List.map_cons, List.map_nil, same]

/-- The end of a table, whose count is compared with `counted`, and `got` is told. -/
def judge (ctx : RtCtx) (rt : Nat) (counted got : Int) (taken : Except RtFault RtCtx)
    (count : Option CStr) : Except RtFault RtCtx :=
  match count.filter (fun count => counted ≠ atoi count) with
  | some count => (ctx.sendRtAck (some (.missing count got))).dropNew rt
  | none => taken

/-- Counts that are shown in the same way when they are wrong have the same effect. -/
theorem judge_alike {taken : Except RtFault RtCtx} {counted got : Int} {count count' : Option CStr}
    {wbuf : CStr}
    (same : (count'.bind fun count => denial count counted got) =
      count.bind fun count => denial count counted got) :
    (ctx.judge rt counted got taken count').map (seen wbuf) =
      (ctx.judge rt counted got taken count).map (seen wbuf) := by
  -- A count is wrong exactly when something is shown of it.
  have right : ∀ {count : Option CStr}, (count.bind fun count => denial count counted got) = none →
      count.filter (fun count => counted ≠ atoi count) = none := by
    intro count shown
    cases count with
    | none => rfl
    | some count =>
      simp only [Option.bind_some, denial] at shown
      split at shown
      · simp_all
      · cases shown
  have wrong : ∀ {count : Option CStr} {shown : CStr},
      (count.bind fun count => denial count counted got) = some shown →
      ∃ count', count = some count' ∧ counted ≠ atoi count' ∧
        denial count' counted got = some shown := by
    intro count shown is
    obtain ⟨count', rfl, told⟩ := Option.bind_eq_some_iff.mp is
    refine ⟨count', rfl, ?_, told⟩
    intro equal
    unfold denial at told
    rw [if_pos equal] at told
    cases told
  cases shown : count.bind fun count => denial count counted got with
  | none =>
    rw [shown] at same
    unfold judge
    rw [right shown, right same]
  | some text =>
    rw [shown] at same
    obtain ⟨count, rfl, differs, is⟩ := wrong shown
    obtain ⟨count', rfl, differs', is'⟩ := wrong same
    have rejects : ∀ {count}, counted ≠ atoi count → ctx.judge rt counted got taken (some count) =
        (ctx.sendRtAck (some (.missing count got))).dropNew rt := by
      intro count differs
      unfold judge
      rw [Option.filter_some, if_pos (by simpa using differs)]
    rw [rejects differs, rejects differs']
    exact reject_alike (payload_of_denial (is'.trans is.symm) differs ctx.tableId wbuf)

/-- The end of a full table, for one that is in progress. -/
theorem newrtEnd_eq (new : ctx.newRtable = some rt) (there : ctx.tables rt = some table)
    (count : Option CStr) : ctx.newrtEnd count =
      ctx.judge rt table.updates table.updates
        (ctx.rollAndAck.map fun ctx => { ctx with rtableReady := true, fullrt := true }) count := by
  -- With a table in progress both compare the count before anything else.
  unfold newrtEnd judge
  cases count with
  | none =>
    simp only [new, table_ok there, ok_bind, Option.filter_none]
    rfl
  | some count =>
    simp only [new, table_ok there, ok_bind]
    cases (some count).filter fun count => table.updates ≠ atoi count with
    | none => rfl
    | some count => rfl

/-- The end of a managed element map, for a table that is in progress. -/
theorem meidMapEnd_eq (new : ctx.newRtable = some rt) (there : ctx.tables rt = some table)
    (count : Option CStr) : ctx.meidMapEnd count =
      ctx.judge rt table.mupdates table.updates ctx.rollAndAck count := by
  -- With a table in progress both compare the count before anything else.
  unfold meidMapEnd judge
  cases count with
  | none => simp only [new, table_ok there, ok_bind, Option.filter_none]
  | some count =>
    cases wrong : (some count).filter fun count => table.mupdates ≠ atoi count with
    | none => simp only [new, table_ok there, ok_bind, wrong]
    | some count => simp only [new, table_ok there, ok_bind, wrong]

end RtCtx

/-- A start record, once it is known to be one: a table in progress is forced out. -/
def startRec (ctx : RtCtx) (mem : Mem) (kind : TableKind) (id : Option CStr) :
    Except RtFault RtCtx := do
  let ctx ← ctx.forceOut
  -- An update without an id keeps that of the table before.
  let tableId := if kind = .updatert then id.or ctx.tableId else id
  finish mem ({ ctx with tableId := tableId }, some kind)

/-- A `newrt` record, by what is read of it. -/
theorem run_newrt (ctx : RtCtx) (mem : Mem) (what : CStr) (rest : List CStr) :
    RecKind.newrt.run conf (what :: rest) ctx mem =
      if clip what = ['e', 'n', 'd'] then ctx.newrtEnd rest[0]?
      else startRec ctx mem .newrt (rest[0]?.map clip) := by
  -- The second field says which of the two the record is.
  simp only [RecKind.run, RecKind.handle, newrtRec, List.getElem?_cons_zero, clipped, ok_bind,
    List.getElem?_cons_succ]
  split
  · exact plainly_finish _
  · unfold startRec
    cases ctx.forceOut with
    | error fault => rfl
    | ok mid => rfl

/-- An `updatert` record, by what is read of it. -/
theorem run_updatert (ctx : RtCtx) (mem : Mem) (what : CStr) (rest : List CStr) :
    RecKind.updatert.run conf (what :: rest) ctx mem =
      if ctx.fullrt = false then .ok ctx
      else if clip what = ['e', 'n', 'd'] then ctx.updatertEnd rest[0]?
      else startRec ctx mem .updatert (rest[0]?.map clip) := by
  -- Before a full table the record does nothing; then its second field says what it is.
  simp only [RecKind.run, RecKind.handle, updatertRec, List.getElem?_cons_zero, clipped, ok_bind,
    List.getElem?_cons_succ]
  split
  · rfl
  · split
    · exact plainly_finish _
    · unfold startRec
      cases ctx.forceOut with
      | error fault => rfl
      | ok mid =>
        cases rest[0]? with
        | none => rfl
        | some id => rfl

/-- A `meid_map` record, by what is read of it. -/
theorem run_meidMap (ctx : RtCtx) (mem : Mem) (what : CStr) (rest : List CStr) :
    RecKind.meidMap.run conf (what :: rest) ctx mem =
      if (clip what).head? = some 's' then startRec ctx mem .meidMap (rest[0]?.map clip)
      else if clip what = ['e', 'n', 'd'] then ctx.meidMapEnd rest[0]?
      else .ok ctx := by
  -- The letter is looked at first, and then the whole word.
  simp only [RecKind.run, RecKind.handle, meidParser, if_true, meidMapRec]
  split
  · unfold startRec
    cases ctx.forceOut with
    | error fault => rfl
    | ok mid => rfl
  · split
    · exact plainly_finish _
    · rfl

/-- A value for what is read of a record that starts or ends a table. -/
def tell {α β : Type} (few : β) (start : Option CStr → β) (stop : Option α → β) :
    Option (Bound α) → β
  | none => few
  | some (.start id) => start id
  | some (.stop count) => stop count

/-- What is read is told by two kinds of context: one where a start is known by its id, and others
where the ends of tables are known. -/
theorem bound_ext {α β γ ι : Type} {few : β} {start : Option CStr → β} {stop : Option α → β}
    {few' : γ} {start' : ι → Option CStr → γ} {stop' : ι → Option α → γ}
    (named : Function.Injective start) (starts : ∀ id, start id ≠ few)
    (goesOn : ∀ id count, start id ≠ stop count) (enough : ∀ count, ∃ i, stop' i count ≠ few')
    (counts : ∀ count count', stop count' = stop count → (∀ i, stop' i count' = stop' i count) →
      count' = count)
    {read read' : Option (Bound α)} (first : tell few start stop read' = tell few start stop read)
    (second : ∀ i, tell few' (start' i) (stop' i) read' = tell few' (start' i) (stop' i) read) :
    read' = read := by
  -- A start is told from an end by the first context, and the counts of ends by the others.
  cases read with
  | none =>
    cases read' with
    | none => rfl
    | some bound =>
      cases bound with
      | start id => exact absurd first (starts id)
      | stop count =>
        obtain ⟨i, differs⟩ := enough count
        exact absurd (second i) differs
  | some bound =>
    cases bound with
    | start id =>
      cases read' with
      | none => exact absurd first.symm (starts id)
      | some bound' =>
        cases bound' with
        | start id' => rw [named first]
        | stop count' => exact absurd first.symm (goesOn id count')
    | stop count =>
      cases read' with
      | none =>
        obtain ⟨i, differs⟩ := enough count
        exact absurd (second i).symm differs
      | some bound' =>
        cases bound' with
        | start id' => exact absurd first (goesOn id' count)
        | stop count' => rw [counts count count' first second]

/-- The table in progress, and the id of the last one. -/
def Seen.begun (seen : Seen) : Option Nat × Option CStr := (seen.rest.newRtable, seen.rest.tableId)

/-- How often a table became the active one, and what was told. -/
def Seen.ended (seen : Seen) : Nat × List CStr := (seen.rest.rolls, seen.payloads)

/-- A context in which no table is in progress, but there was a full one. -/
def waiting : RtCtx := { RtCtx.init with fullrt := true }

/-- A context with a table in progress that has these counts. -/
def counting (mupdates updates : Int) : RtCtx :=
  { inProgress { RouteTable.empty with updates := updates, mupdates := mupdates } with
    rtable := none }

/-- A table is started where none is in progress. -/
theorem waiting_start (kind : TableKind) (id : Option CStr) :
    (startRec waiting .ample kind id).map (fun next => (next.seen []).begun) =
      .ok (some 1, id) := by
  cases kind with
  | newrt => rfl
  | updatert => cases id <;> rfl
  | meidMap => rfl

/-- A table that is in progress is given up, and the reason is told. -/
theorem counting_reject (mupdates updates : Int) (reason : NackReason) :
    (((counting mupdates updates).sendRtAck (some reason)).dropNew 0).map
        (fun next => (next.seen []).ended) =
      .ok (0, [RtAck.payload ⟨some [], some reason⟩ []]) := rfl

/-- A table that is in progress becomes the active one. -/
theorem counting_roll (mupdates updates : Int) :
    (counting mupdates updates).rollAndAck.map (fun next => (next.seen []).ended) =
      .ok (1, [RtAck.payload ⟨some [], none⟩ []]) := rfl

/-- A table that is started while another one is in progress. -/
theorem counting_start (mupdates updates : Int) (kind : TableKind) (id : Option CStr) :
    (startRec (counting mupdates updates) .ample kind id).map (fun next => (next.seen []).ended) =
      .ok (0, [RtAck.payload ⟨some [], some .notComplete⟩ []]) := by
  cases kind with
  | newrt => rfl
  | updatert => rfl
  | meidMap => rfl

/-- What is told of a count that is shown so, if it is wrong. -/
def endedBy (shown : Option CStr) : Nat × List CStr :=
  shown.elim (1, [RtAck.payload ⟨some [], none⟩ []]) fun shown => (0, [front (some []) ++ shown])

/-- What is shown of a count is told. -/
theorem endedBy_injective : Function.Injective endedBy := by
  -- The first part tells if there is a denial, and the second one its text.
  intro shown other same
  unfold endedBy at same
  cases shown with
  | none =>
    cases other with
    | none => rfl
    | some other => cases congrArg Prod.fst same
  | some shown =>
    cases other with
    | none => cases congrArg Prod.fst same
    | some other =>
      have texts := (List.cons.inj (congrArg Prod.snd same)).1
      exact congrArg some (List.append_cancel_left texts)

/-- The end of a table, whose count may be wrong. -/
theorem counting_judge (mupdates updates counted got : Int) {taken : Except RtFault RtCtx}
    (takes : taken.map (fun next => (next.seen []).ended) =
      .ok (1, [RtAck.payload ⟨some [], none⟩ []])) (count : Option CStr) :
    ((counting mupdates updates).judge 0 counted got taken count).map
        (fun next => (next.seen []).ended) =
      .ok (endedBy (count.bind fun count => denial count counted got)) := by
  -- Without a count, or with the right one, the table is taken; else it is denied.
  unfold judge
  cases count with
  | none => exact takes
  | some count =>
    by_cases equal : counted = atoi count
    · have right : (some count).filter (fun count => counted ≠ atoi count) = none := by
        simp [equal]
      rw [right]
      simp only [Option.bind_some, denial, if_pos equal]
      exact takes
    · have wrong : (some count).filter (fun count => counted ≠ atoi count) = some count := by
        simp [equal]
      have shown : ((missingText count got ++ ['\n']).take (ackMax - 5)).take (ackMax - 5) =
          (missingText count got ++ ['\n']).take (ackMax - 5) := by
        rw [List.take_take, Nat.min_self]
      have front_ : (front (some [])).take ackMax = front (some []) := rfl
      have length_ : (front (some [])).length = 5 := rfl
      rw [wrong]
      simp only [Option.bind_some, denial, if_neg equal, counting_reject, payload_missing, front_,
        length_, shown]
      rfl

/-- What is read of a `newrt` record is told by the id of the table that it starts. -/
theorem waiting_newrt : (RecKind.newrt.run conf fields waiting .ample).map
    (fun next => (next.seen []).begun) =
      tell (.error .nil) (fun id => .ok (some 1, id))
        (fun count => if count.isSome then .error .nil else .ok (none, none))
        (newrtReading fields) := by
  -- In the waiting context an end finds no table, and a start begins one with its id.
  cases fields with
  | nil => rfl
  | cons what rest =>
    rw [run_newrt]
    by_cases ends : clip what = ['e', 'n', 'd']
    · simp only [newrtReading, if_pos ends, tell]
      cases rest[0]? with
      | none => rfl
      | some count => rfl
    · simp only [newrtReading, if_neg ends, tell]
      exact waiting_start .newrt _

/-- What is read of a `newrt` record is told by what becomes of the table that it ends. -/
theorem counting_newrt (updates : Int) : (RecKind.newrt.run conf fields (counting 0 updates)
    .ample).map (fun next => (next.seen []).ended) =
      tell (.error .nil) (fun _ => .ok (0, [RtAck.payload ⟨some [], some .notComplete⟩ []]))
        (fun count => .ok (endedBy (count.bind fun count => count updates)))
        (newrtReading fields) := by
  -- In the counting context an end is judged by its count, and a start forces the table out.
  have new : (counting 0 updates).newRtable = some 0 := rfl
  have there : (counting 0 updates).tables 0 =
    some { RouteTable.empty with updates := updates } := rfl
  cases fields with
  | nil => rfl
  | cons what rest =>
    rw [run_newrt]
    by_cases ends : clip what = ['e', 'n', 'd']
    · simp only [newrtReading, if_pos ends, tell, newrtEnd_eq new there, Option.bind_map]
      exact counting_judge 0 updates updates updates rfl rest[0]?
    · simp only [newrtReading, if_neg ends, tell]
      exact counting_start 0 updates .newrt _

/-- A table that is not there cannot be read. -/
theorem table_gone {ctx : RtCtx} {rt : Nat} (gone : ∀ table, ctx.tables rt ≠ some table) :
    ctx.table rt = .error .freed := by
  unfold RtCtx.table
  cases there : ctx.tables rt with
  | none => rfl
  | some table => exact absurd there (gone table)

/-- Where the table in progress is not there, only whether there is a count matters. -/
theorem newrtEnd_gone {ctx : RtCtx}
    (gone : ∀ rt table, ctx.newRtable = some rt → ctx.tables rt ≠ some table)
    {count count' : Option CStr} (same : count'.isSome = count.isSome) :
    ctx.newrtEnd count' = ctx.newrtEnd count := by
  -- Without the table nothing can be compared, so that only a fault is possible.
  unfold newrtEnd
  cases new : ctx.newRtable with
  | none =>
    cases count with
    | none =>
      cases count' with
      | none => rfl
      | some count' => cases same
    | some count =>
      cases count' with
      | none => cases same
      | some count' => rfl
  | some rt =>
    simp only [table_gone (gone rt · new)]
    rfl

/-- Where the table in progress is not there, only whether there is a count matters. -/
theorem meidMapEnd_gone {ctx : RtCtx}
    (gone : ∀ rt table, ctx.newRtable = some rt → ctx.tables rt ≠ some table)
    {count count' : Option CStr} (same : count'.isSome = count.isSome) :
    ctx.meidMapEnd count' = ctx.meidMapEnd count := by
  -- Without the table nothing can be compared, so that only a fault is possible.
  unfold meidMapEnd
  cases new : ctx.newRtable with
  | none =>
    cases count with
    | none =>
      cases count' with
      | none => rfl
      | some count' => cases same
    | some count =>
      cases count' with
      | none => cases same
      | some count' => rfl
  | some rt =>
    simp only [table_gone (gone rt · new)]
    rfl

/-- Two `newrt` records have the same effect exactly when the same is read of them. -/
theorem newrt_alike_iff : Alike (RecKind.newrt.run conf fields) (RecKind.newrt.run conf fields') ↔
    newrtReading fields' = newrtReading fields := by
  constructor
  · intro alike
    have first := alike.sees Seen.begun waiting .ample
    have second := fun updates => alike.sees Seen.ended (counting 0 updates) .ample
    rw [waiting_newrt, waiting_newrt] at first
    simp only [counting_newrt] at second
    refine bound_ext ?_ ?_ ?_ ?_ ?_ first second
    · intro id id' same
      exact (Prod.mk.inj (Except.ok.inj same)).2
    · intro id same
      cases same
    · intro id count same
      cases count with
      | none => cases same
      | some count => cases same
    · intro count
      refine ⟨0, fun same => ?_⟩
      cases same
    · intro count count' there same
      have shown := fun updates => endedBy_injective (Except.ok.inj (same updates))
      cases count with
      | none =>
        cases count' with
        | none => rfl
        | some count' => cases there
      | some count =>
        cases count' with
        | none => cases there
        | some count' => exact congrArg some (funext shown)
  · intro same
    cases fields with
    | nil =>
      cases fields' with
      | nil => exact Alike.of_eq fun ctx mem => rfl
      | cons what' rest' => cases same
    | cons what rest =>
      cases fields' with
      | nil => cases same
      | cons what' rest' =>
        have read := Option.some.inj same
        by_cases ends : clip what = ['e', 'n', 'd']
        · by_cases ends' : clip what' = ['e', 'n', 'd']
          · -- The counts are shown in the same way.
            rw [if_pos ends, if_pos ends'] at read
            have counts := Bound.stop.inj read
            intro ctx mem wbuf
            rw [run_newrt, run_newrt, if_pos ends, if_pos ends']
            by_cases there : ∃ rt table, ctx.newRtable = some rt ∧ ctx.tables rt = some table
            · obtain ⟨rt, table, new, there⟩ := there
              rw [newrtEnd_eq new there, newrtEnd_eq new there]
              refine judge_alike ?_
              have shown := congrArg
                (fun count => count.bind fun count => count table.updates) counts
              simp only [Option.bind_map] at shown
              exact shown
            · have both := congrArg Option.isSome counts
              rw [Option.isSome_map, Option.isSome_map] at both
              rw [newrtEnd_gone (fun rt table new is => there ⟨rt, table, new, is⟩) both]
          · rw [if_pos ends, if_neg ends'] at read
            cases read
        · by_cases ends' : clip what' = ['e', 'n', 'd']
          · rw [if_neg ends, if_pos ends'] at read
            cases read
          · rw [if_neg ends, if_neg ends'] at read
            refine Alike.of_eq fun ctx mem => ?_
            rw [run_newrt, run_newrt, if_neg ends, if_neg ends', Bound.start.inj read]

/-- What is read of a `meid_map` record is told by the id of the table that it starts. -/
theorem waiting_meidMap : (RecKind.meidMap.run conf fields waiting .ample).map
    (fun next => (next.seen []).begun) =
      tell (.ok (none, none)) (fun id => .ok (some 1, id))
        (fun count => if count.isSome then .error .nil else .ok (none, none))
        (meidMapReading fields) := by
  -- In the waiting context an end finds no table, and a start begins one with its id.
  cases fields with
  | nil => rfl
  | cons what rest =>
    rw [run_meidMap]
    by_cases starts : (clip what).head? = some 's'
    · simp only [meidMapReading, if_pos starts, tell]
      exact waiting_start .meidMap _
    · by_cases ends : clip what = ['e', 'n', 'd']
      · simp only [meidMapReading, if_neg starts, if_pos ends, tell]
        cases rest[0]? with
        | none => rfl
        | some count => rfl
      · simp only [meidMapReading, if_neg starts, if_neg ends, tell]
        rfl

/-- What is read of a `meid_map` record is told by what becomes of the table that it ends. -/
theorem counting_meidMap (mupdates updates : Int) :
    (RecKind.meidMap.run conf fields (counting mupdates updates) .ample).map
      (fun next => (next.seen []).ended) =
      tell (.ok (0, [])) (fun _ => .ok (0, [RtAck.payload ⟨some [], some .notComplete⟩ []]))
        (fun count => .ok (endedBy (count.bind fun count => count mupdates updates)))
        (meidMapReading fields) := by
  -- In the counting context an end is judged by its count, and a start forces the table out.
  have new : (counting mupdates updates).newRtable = some 0 := rfl
  have there : (counting mupdates updates).tables 0 =
    some { RouteTable.empty with updates := updates, mupdates := mupdates } := rfl
  cases fields with
  | nil => rfl
  | cons what rest =>
    rw [run_meidMap]
    by_cases starts : (clip what).head? = some 's'
    · simp only [meidMapReading, if_pos starts, tell]
      exact counting_start mupdates updates .meidMap _
    · by_cases ends : clip what = ['e', 'n', 'd']
      · simp only [meidMapReading, if_neg starts, if_pos ends, tell, meidMapEnd_eq new there,
          Option.bind_map]
        exact counting_judge mupdates updates mupdates updates
          (counting_roll mupdates updates) rest[0]?
      · simp only [meidMapReading, if_neg starts, if_neg ends, tell]
        rfl

/-- A `meid_map` record does what is read of it. -/
theorem run_meidMap_read (read : meidMapReading fields = none) (ctx : RtCtx) (mem : Mem) :
    RecKind.meidMap.run conf fields ctx mem = .ok ctx := by
  -- Neither the letter nor the word is there, which are the two ways to do something.
  cases fields with
  | nil => rfl
  | cons what rest =>
    rw [run_meidMap]
    simp only [meidMapReading] at read
    split at read
    · cases read
    · rename_i other
      split at read
      · cases read
      · rename_i other'
        rw [if_neg other, if_neg other']

/-- A record that is read as the start of a map starts one. -/
theorem run_meidMap_start {id : Option CStr} (read : meidMapReading fields = some (.start id))
    (ctx : RtCtx) (mem : Mem) :
    RecKind.meidMap.run conf fields ctx mem = startRec ctx mem .meidMap id := by
  -- The record has the letter of a start, which is looked at before the word.
  cases fields with
  | nil => cases read
  | cons what rest =>
    rw [run_meidMap]
    simp only [meidMapReading] at read
    split at read
    · rename_i starts
      rw [if_pos starts, Bound.start.inj (Option.some.inj read)]
    · split at read
      · cases read
      · cases read

/-- One that is read as its end ends it, whatever the field is that the count was read from. -/
theorem run_meidMap_stop {count : Option (Int → Int → Option CStr)}
    (read : meidMapReading fields = some (.stop count)) :
    ∃ field : Option CStr, field.map denial = count ∧
      ∀ ctx mem, RecKind.meidMap.run conf fields ctx mem = ctx.meidMapEnd field := by
  -- The record has the word of an end, and the field behind it for its count.
  cases fields with
  | nil => cases read
  | cons what rest =>
    simp only [meidMapReading] at read
    split at read
    · cases read
    · rename_i other
      split at read
      · rename_i ends
        refine ⟨rest[0]?, Bound.stop.inj (Option.some.inj read), fun ctx mem => ?_⟩
        rw [run_meidMap, if_neg other, if_pos ends]
      · cases read

/-- Two `meid_map` records have the same effect exactly when the same is read of them. -/
theorem meidMap_alike_iff :
    Alike (RecKind.meidMap.run conf fields) (RecKind.meidMap.run conf fields') ↔
      meidMapReading fields' = meidMapReading fields := by
  -- The probes are the waiting context and the counting ones, which tell all that is read.
  constructor
  · intro alike
    have first := alike.sees Seen.begun waiting .ample
    have second := fun counts : Int × Int =>
      alike.sees Seen.ended (counting counts.1 counts.2) .ample
    rw [waiting_meidMap, waiting_meidMap] at first
    simp only [counting_meidMap] at second
    refine bound_ext ?_ ?_ ?_ ?_ ?_ first second
    · intro id id' same
      exact (Prod.mk.inj (Except.ok.inj same)).2
    · intro id same
      cases same
    · intro id count same
      cases count with
      | none => cases same
      | some count => cases same
    · intro count
      refine ⟨(0, 0), fun same => ?_⟩
      have told := congrArg (fun ended => ended.2.length) (Except.ok.inj same)
      unfold endedBy at told
      cases shown : count.bind fun count => count 0 0 with
      | none =>
        simp only [shown] at told
        cases told
      | some text =>
        simp only [shown] at told
        cases told
    · intro count count' there same
      have shown := fun mupdates updates =>
        endedBy_injective (Except.ok.inj (same (mupdates, updates)))
      cases count with
      | none =>
        cases count' with
        | none => rfl
        | some count' => cases there
      | some count =>
        cases count' with
        | none => cases there
        | some count' =>
          exact congrArg some (funext fun mupdates => funext fun updates => shown mupdates updates)
  · intro same
    cases read : meidMapReading fields with
    | none =>
      rw [read] at same
      exact Alike.of_eq fun ctx mem => by rw [run_meidMap_read read, run_meidMap_read same]
    | some bound =>
      rw [read] at same
      cases bound with
      | start id =>
        exact Alike.of_eq fun ctx mem => by rw [run_meidMap_start read, run_meidMap_start same]
      | stop count =>
        obtain ⟨field, is, ran⟩ := @run_meidMap_stop conf _ _ read
        obtain ⟨field', is', ran'⟩ := @run_meidMap_stop conf _ _ same
        have counts : field'.map denial = field.map denial := is'.trans is.symm
        intro ctx mem wbuf
        rw [ran, ran']
        by_cases there : ∃ rt table, ctx.newRtable = some rt ∧ ctx.tables rt = some table
        · obtain ⟨rt, table, new, there⟩ := there
          rw [meidMapEnd_eq new there, meidMapEnd_eq new there]
          refine judge_alike ?_
          have shown := congrArg (fun count => count.bind fun count =>
            count table.mupdates table.updates) counts
          simp only [Option.bind_map] at shown
          exact shown
        · have both := congrArg Option.isSome counts
          rw [Option.isSome_map, Option.isSome_map] at both
          rw [meidMapEnd_gone (fun rt table new is => there ⟨rt, table, new, is⟩) both]

/-- What is read of an `updatert` record is told by the id of the table that it starts. -/
theorem waiting_updatert : (RecKind.updatert.run conf fields waiting .ample).map
    (fun next => (next.seen []).begun) =
      tell (.error .nil) (fun id => .ok (some 1, id)) (fun _ => .ok (none, none))
        (updatertReading fields) := by
  -- In the waiting context an end finds no table, and a start begins one with its id.
  cases fields with
  | nil => rfl
  | cons what rest =>
    rw [run_updatert, if_neg (by decide)]
    by_cases ends : clip what = ['e', 'n', 'd']
    · simp only [updatertReading, if_pos ends, tell]
      rfl
    · simp only [updatertReading, if_neg ends, tell]
      exact waiting_start .updatert _

/-- Only the number matters that the count of an `updatert` record is. -/
theorem updatertEnd_congr {ctx : RtCtx} {count count' : Option CStr}
    (same : count'.map atoi = count.map atoi) : ctx.updatertEnd count' = ctx.updatertEnd count := by
  -- The count is compared as a number, and its text is not told.
  unfold updatertEnd
  cases ctx.newRtable with
  | none => rfl
  | some rt =>
    cases is : ctx.table rt with
    | error fault =>
      simp only [is]
      rfl
    | ok table =>
      simp only [is, ok_bind]
      cases count with
      | none =>
        cases count' with
        | none => rfl
        | some count' => cases same
      | some count =>
        cases count' with
        | none => cases same
        | some count' =>
          have number : atoi count' = atoi count := Option.some.inj same
          by_cases right : table.updates = atoi count
          · simp [Option.filter_some, number, right]
          · simp [Option.filter_some, number, right]

/-- What is read of an `updatert` record is told by what becomes of the table that it ends. -/
theorem counting_updatert (updates : Int) :
    (RecKind.updatert.run conf fields (counting 0 updates) .ample).map
      (fun next => (next.seen []).ended) =
      tell (.error .nil) (fun _ => .ok (0, [RtAck.payload ⟨some [], some .notComplete⟩ []]))
        (fun count => .ok (if count = none ∨ count = some updates then
          (1, [RtAck.payload ⟨some [], none⟩ []])
        else (0, [RtAck.payload ⟨some [], some .unwritten⟩ []])))
        (updatertReading fields) := by
  -- In the counting context an end is judged by its count, and a start forces the table out.
  have there : (counting 0 updates).table 0 =
    .ok { RouteTable.empty with updates := updates } := rfl
  have new : (counting 0 updates).newRtable = some 0 := rfl
  have full : (counting 0 updates).fullrt = true := rfl
  cases fields with
  | nil => rfl
  | cons what rest =>
    rw [run_updatert, if_neg (by simp [full])]
    by_cases ends : clip what = ['e', 'n', 'd']
    · simp only [updatertReading, if_pos ends, tell, updatertEnd, new, there, ok_bind]
      cases rest[0]? with
      | none => rfl
      | some count =>
        by_cases right : updates = atoi count
        · simp only [Option.filter_some, right, ne_eq, not_true, decide_false, Bool.false_eq_true,
            if_false, Option.map_some, or_true, if_true]
          rfl
        · have wrong : ¬ atoi count = updates := fun is => right is.symm
          simp only [Option.filter_some, right, wrong, ne_eq, not_false_eq_true,
            decide_true, if_true,
            Option.map_some, reduceCtorEq, Option.some.injEq, or_false, if_false]
          rfl
    · simp only [updatertReading, if_neg ends, tell]
      exact counting_start 0 updates .updatert _

/-- Two `updatert` records have the same effect exactly when the same is read of them. -/
theorem updatert_alike_iff :
    Alike (RecKind.updatert.run conf fields) (RecKind.updatert.run conf fields') ↔
      updatertReading fields' = updatertReading fields := by
  constructor
  · intro alike
    have first := alike.sees Seen.begun waiting .ample
    have second := fun updates => alike.sees Seen.ended (counting 0 updates) .ample
    rw [waiting_updatert, waiting_updatert] at first
    simp only [counting_updatert] at second
    refine bound_ext ?_ ?_ ?_ ?_ ?_ first second
    · intro id id' same
      exact (Prod.mk.inj (Except.ok.inj same)).2
    · intro id same
      cases same
    · intro id count same
      cases same
    · intro count
      refine ⟨0, fun same => ?_⟩
      cases same
    · intro count count' _ same
      -- A table with some count is taken for the same counts.
      have taken : ∀ updates, (count' = none ∨ count' = some updates) ↔
          (count = none ∨ count = some updates) := by
        intro updates
        have both := Except.ok.inj (same updates)
        by_cases is : count = none ∨ count = some updates
        · by_cases is' : count' = none ∨ count' = some updates
          · exact iff_of_true is' is
          · rw [if_neg is', if_pos is] at both
            cases congrArg Prod.fst both
        · by_cases is' : count' = none ∨ count' = some updates
          · rw [if_pos is', if_neg is] at both
            cases congrArg Prod.fst both
          · exact iff_of_false is' is
      cases count with
      | none =>
        cases count' with
        | none => rfl
        | some other =>
          -- Any other number tells them apart.
          have both := (taken (other + 1)).mpr (Or.inl rfl)
          simp at both
      | some number =>
        have both := (taken number).mpr (Or.inr rfl)
        cases count' with
        | none =>
          have other := (taken (number + 1)).mp (Or.inl rfl)
          simp at other
        | some other => simpa using both
  · intro same
    cases fields with
    | nil =>
      cases fields' with
      | nil => exact Alike.of_eq fun ctx mem => rfl
      | cons what' rest' => cases same
    | cons what rest =>
      cases fields' with
      | nil => cases same
      | cons what' rest' =>
        have read := Option.some.inj same
        refine Alike.of_eq fun ctx mem => ?_
        rw [run_updatert, run_updatert]
        by_cases ends : clip what = ['e', 'n', 'd']
        · by_cases ends' : clip what' = ['e', 'n', 'd']
          · rw [if_pos ends, if_pos ends'] at read
            rw [if_pos ends, if_pos ends', updatertEnd_congr (Bound.stop.inj read)]
          · rw [if_pos ends, if_neg ends'] at read
            cases read
        · by_cases ends' : clip what' = ['e', 'n', 'd']
          · rw [if_neg ends, if_pos ends'] at read
            cases read
          · rw [if_neg ends, if_neg ends'] at read
            rw [if_neg ends, if_neg ends', Bound.start.inj read]

end Rmr
