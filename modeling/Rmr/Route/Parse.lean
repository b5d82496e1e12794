import Rmr.Route.Table

/-! The records that route tables are built from, one at a time. -/

namespace Rmr

/-- The tables that a start record can start. -/
inductive TableKind where
  | newrt | updatert | meidMap
  deriving DecidableEq

/-- The test for records that are for this process: no senders are named, or it is one of them. -/
def ingests (conf : RtConf) (tsField : CStr) : Bool :=
  ',' ∉ tsField || (utaHasStr tsField conf.myName ',' 127).isSome ||
    hasMyip tsField conf.ipList ',' 127

/-- What the loops of `build_entry` change. -/
structure Filling where
  ephash : List CStr
  rrgroups : List (Option RrGroup)
  /-- The group to fill, which is not advanced past a group without an endpoint. -/
  cgidx : Nat
  hasEp : Bool

/-- One endpoint of a group; a process does not send to itself. -/
def fillEp (conf : RtConf) (mem : Mem) (grp : Nat) (filling : Filling) (tok : CStr × Nat) :
    Filling :=
  if tok.1 = conf.myName then filling
  else
    let (ephash, rrgroups) := RtCtx.utaAddEp filling.ephash filling.rrgroups
      (mem.group grp tok.2) (mem.ep grp tok.2) tok.1 filling.cgidx
    { filling with ephash := ephash, rrgroups := rrgroups, hasEp := true }

/-- One round robin group. -/
def fillGroup (conf : RtConf) (mem : Mem) (filling : Filling) (gtok : CStr × Nat) : Filling :=
  let tokens := utaRmipTokenise gtok.1 conf.ipList 64 ','
  let filling := tokens.zipIdx.foldl (fillEp conf mem gtok.2) filling
  if tokens.length > 0 ∧ filling.hasEp then
    { filling with cgidx := filling.cgidx + 1, hasEp := false }
  else filling

namespace RtCtx

/-- A string that is clipped must be there. -/
def clipped : Option CStr → Except RtFault CStr
  | none => .error .nil
  | some tok => .ok (clip tok)

/-- `build_entry`: an entry in the table that is being built. -/
def buildEntry (ctx : RtCtx) (conf : RtConf) (mem : Mem) (rt : Nat) (tsField : Option CStr)
    (subid : Int) (rrField : Option CStr) : Except RtFault RtCtx := do
  let tsField ← clipped tsField
  let rrField ← clipped rrField
  if ingests conf tsField then
    let key := buildRtKey subid (atoi tsField)
    match utaTokenise rrField 64 ';' with
    | [] => return ctx
    | first :: rest =>
      -- A special indicator: the managed element id finds the endpoint, and there are no groups.
      let gtokens := if first = ['%', 'm', 'e', 'i', 'd'] then [] else first :: rest
      let (ctx, id) ← ctx.utaAddRte mem rt key gtokens.length
      match id with
      | none => .error .nil
      | some id =>
        let rte ← ctx.rte id
        let filling := gtokens.zipIdx.foldl (fillGroup conf mem)
          ⟨ctx.ephash, rte.entry.rrgroups, 0, false⟩
        return { ctx.setRte id { rte with entry := { rte.entry with
            mtype := atoi tsField
            rrgroups := filling.rrgroups } } with ephash := filling.ephash }
  else return ctx

/-- `trash_entry`: the table that is being built refers to an entry no more. -/
def trashEntry (ctx : RtCtx) (conf : RtConf) (rt : Nat) (tsField : CStr) (subid : Int) :
    Except RtFault RtCtx := do
  let tsField := clip tsField
  if ingests conf tsField then
    let key := buildRtKey subid (atoi tsField)
    let table ← ctx.table rt
    match table.hash.mt.lookup key with
    | some id =>
      (ctx.setTable rt { table with hash.mt := table.hash.mt.erase key }).delRte id
    | none => return ctx
  else return ctx

/-- One managed element id that is added or replaced. -/
def ownMeid (mem : Mem) (owner : CStr) (state : List CStr × AList fun _ : CStr => CStr)
    (tok : CStr × Nat) : List CStr × AList fun _ : CStr => CStr :=
  match rtEnsureEp state.1 (mem.ep 0 tok.2) owner with
  | (ephash, some ep) => (ephash, state.2.insert tok.1 ep)
  | (ephash, none) => (ephash, state.2)

/-- `parse_meid_ar`. -/
def parseMeidAr (ctx : RtCtx) (mem : Mem) (rt : Nat) (owner meidList : CStr) :
    Except RtFault RtCtx := do
  let table ← ctx.table rt
  let (ephash, me) := (utaTokenise (clip meidList) 128 ' ').zipIdx.foldl
    (ownMeid mem (clip owner)) (ctx.ephash, table.hash.me)
  return { ctx.setTable rt { table with hash.me := me } with ephash := ephash }

/-- `parse_meid_del`. -/
def parseMeidDel (ctx : RtCtx) (rt : Nat) (meidList : CStr) : Except RtFault RtCtx := do
  let table ← ctx.table rt
  let me := (utaTokenise (clip meidList) 128 ' ').foldl (fun me tok => me.erase tok) table.hash.me
  return ctx.setTable rt { table with hash.me := me }

/-- One update record more. -/
def bumpUpdates (ctx : RtCtx) (rt : Nat) : Except RtFault RtCtx := do
  let table ← ctx.table rt
  return ctx.setTable rt { table with updates := toInt (table.updates + 1) }

/-- One managed element record more. -/
def bumpMupdates (ctx : RtCtx) (rt : Nat) : Except RtFault RtCtx := do
  let table ← ctx.table rt
  return ctx.setTable rt { table with mupdates := toInt (table.mupdates + 1) }

/-- `send_rt_ack` for the table in progress. -/
def sendRtAck (ctx : RtCtx) (reason : Option NackReason) : RtCtx :=
  { ctx with acks := ctx.acks ++ [⟨ctx.tableId, reason⟩] }

/-- The table in progress is dropped. -/
def dropNew (ctx : RtCtx) (rt : Nat) : Except RtFault RtCtx := do
  let ctx ← ctx.utaRtDrop rt
  return { ctx with newRtable := none }

/-- The new table is rolled in, and acknowledged. -/
def rollAndAck (ctx : RtCtx) : Except RtFault RtCtx := do
  let ctx ← ctx.rollTables
  return ctx.sendRtAck none

/-- The end of a full route table. The count, if there is one, is compared with the new table, which
is not known to be there. -/
def newrtEnd (ctx : RtCtx) (count : Option CStr) : Except RtFault RtCtx :=
  match count, ctx.newRtable with
  | some _, none => .error .nil
  | none, none => .ok ctx
  | count, some rt => do
    let table ← ctx.table rt
    match count.filter (fun count => table.updates ≠ atoi count) with
    | some count => (ctx.sendRtAck (some (.missing count table.updates))).dropNew rt
    | none =>
      let ctx ← ctx.rollAndAck
      return { ctx with rtableReady := true, fullrt := true }

/-- The end of an update of the route table. -/
def updatertEnd (ctx : RtCtx) (count : Option CStr) : Except RtFault RtCtx :=
  match ctx.newRtable with
  | none => .ok ctx
  | some rt => do
    let table ← ctx.table rt
    match count.filter (fun count => table.updates ≠ atoi count) with
    | some _ => (ctx.sendRtAck (some .unwritten)).dropNew rt
    | none =>
      let ctx ← ctx.rollAndAck
      return { ctx with rtableReady := true }

/-- The end of a managed element map, whose own records are counted apart. -/
def meidMapEnd (ctx : RtCtx) (count : Option CStr) : Except RtFault RtCtx :=
  match count, ctx.newRtable with
  | some _, none => .error .nil
  | none, none => .ok ctx
  | count, some rt => do
    let table ← ctx.table rt
    match count.filter (fun count => table.mupdates ≠ atoi count) with
    -- The number told is that of the other counter.
    | some count => (ctx.sendRtAck (some (.missing count table.updates))).dropNew rt
    | none => ctx.rollAndAck

/-- A table in progress is forced out by the start of another one. -/
def forceOut (ctx : RtCtx) : Except RtFault RtCtx :=
  match ctx.newRtable with
  | none => .ok ctx
  | some rt => (ctx.sendRtAck (some .notComplete)).dropNew rt

/-- A record that starts no table. -/
def plainly (ctx : Except RtFault RtCtx) : Except RtFault (RtCtx × Option TableKind) := do
  return (← ctx, none)

/-- A `del` record. -/
def delRec (ctx : RtCtx) (conf : RtConf) (fields : List CStr) : Except RtFault RtCtx :=
  match ctx.newRtable, fields with
  | some rt, tsField :: subid :: _ => do
    let ctx ← ctx.trashEntry conf rt tsField (atoi subid)
    ctx.bumpUpdates rt
  | _, _ => .ok ctx

/-- An `mse` record. -/
def mseRec (ctx : RtCtx) (conf : RtConf) (mem : Mem) (fields : List CStr) :
    Except RtFault RtCtx :=
  match ctx.newRtable, fields with
  | some rt, tsField :: subid :: rrField :: _ => do
    let ctx ← ctx.buildEntry conf mem rt (some tsField) (atoi subid) (some rrField)
    ctx.bumpUpdates rt
  | _, _ => .ok ctx

/-- An `rte` record; the subscription id, if there is one, comes last. -/
def rteRec (ctx : RtCtx) (conf : RtConf) (mem : Mem) (fields : List CStr) :
    Except RtFault RtCtx :=
  match ctx.newRtable with
  | none => .ok ctx
  | some rt => do
    let ctx ← ctx.bumpUpdates rt
    ctx.buildEntry conf mem rt fields[0]? ((fields[2]?.map atoi).getD unsetSubid) fields[1]?

/-- A `newrt` record. -/
def newrtRec (ctx : RtCtx) (fields : List CStr) : Except RtFault (RtCtx × Option TableKind) := do
  let what ← clipped fields[0]?
  if what = ['e', 'n', 'd'] then plainly (ctx.newrtEnd fields[1]?)
  else
    let ctx ← ctx.forceOut
    return ({ ctx with tableId := fields[1]?.map clip }, some .newrt)

/-- An `updatert` record, which is ignored until there was a full table. -/
def updatertRec (ctx : RtCtx) (fields : List CStr) :
    Except RtFault (RtCtx × Option TableKind) :=
  if ctx.fullrt = false then .ok (ctx, none)
  else do
    let what ← clipped fields[0]?
    if what = ['e', 'n', 'd'] then plainly (ctx.updatertEnd fields[1]?)
    else
      let ctx ← ctx.forceOut
      -- The id of the table before is kept when there is none.
      let tableId := match fields[1]? with
        | some id => some (clip id)
        | none => ctx.tableId
      return ({ ctx with tableId := tableId }, some .updatert)

/-- A `meid_map` record. -/
def meidMapRec (ctx : RtCtx) (what : CStr) (fields : List CStr) :
    Except RtFault (RtCtx × Option TableKind) :=
  let what := clip what
  if what.head? = some 's' then do
    let ctx ← ctx.forceOut
    return ({ ctx with tableId := fields[0]?.map clip }, some .meidMap)
  else if what = ['e', 'n', 'd'] then plainly (ctx.meidMapEnd fields[0]?)
  else .ok (ctx, none)

/-- The other managed element records. -/
def mmeRec (ctx : RtCtx) (mem : Mem) (name : CStr) (first : CStr) (fields : List CStr) :
    Except RtFault RtCtx :=
  match ctx.newRtable with
  | none => .ok ctx
  | some rt =>
    if name = ['m', 'm', 'e', '_', 'a', 'r'] then
      match fields with
      | [] => .ok ctx
      | meidList :: _ => do
        let ctx ← ctx.parseMeidAr mem rt first meidList
        ctx.bumpMupdates rt
    else if name = ['m', 'm', 'e', '_', 'd', 'e', 'l'] then do
      let ctx ← ctx.parseMeidDel rt first
      ctx.bumpMupdates rt
    else .ok ctx

/-- `meid_parser`. -/
def meidParser (ctx : RtCtx) (mem : Mem) (name : CStr) (fields : List CStr) :
    Except RtFault (RtCtx × Option TableKind) :=
  match fields with
  | [] => .ok (ctx, none)
  | first :: fields =>
    if name = ['m', 'e', 'i', 'd', '_', 'm', 'a', 'p'] then ctx.meidMapRec first fields
    else plainly (ctx.mmeRec mem name first fields)

/-- `parse_rt_rec`, up to the point where a start record prepares a new table. -/
def beginRec (ctx : RtCtx) (conf : RtConf) (mem : Mem) (buf : CStr) :
    Except RtFault (RtCtx × Option TableKind) :=
  match utaTokenise (trimEnd (buf.dropWhile isspace)) 128 '|' with
  | [] => .ok (ctx, none)
  | name :: fields =>
    let name := clip name
    match name.head? with
    | some 'd' => plainly (ctx.delRec conf fields)
    | some 'n' => ctx.newrtRec fields
    | some 'm' =>
      if name = ['m', 's', 'e'] then plainly (ctx.mseRec conf mem fields)
      else ctx.meidParser mem name fields
    | some 'r' => plainly (ctx.rteRec conf mem fields)
    | some 'u' => ctx.updatertRec fields
    -- Blank lines, comments and what is not known.
    | _ => .ok (ctx, none)

/-- The table that was prepared is the one in progress, and nothing was counted for it yet. -/
def startTable (ctx : RtCtx) (mem : Mem) (kind : TableKind) : Except RtFault RtCtx := do
  let (ctx, rt) ← ctx.prepClone mem (kind ≠ .newrt)
  let table ← ctx.table rt
  let table := match kind with
    | .meidMap => { table with mupdates := 0 }
    | _ => { table with updates := 0 }
  return { ctx.setTable rt table with newRtable := some rt, prepRt := none }

/-- `parse_rt_rec`. Whoever uses the old table is waited for before it is cleared. -/
def parseRtRec (ctx : RtCtx) (conf : RtConf) (mem : Mem) (buf : CStr) : Except RtFault RtCtx := do
  match ← ctx.beginRec conf mem buf with
  | (ctx, none) => return ctx
  | (ctx, some kind) =>
    let ctx ← ctx.prepDetach.prepClear
    ctx.startTable mem kind

/-- Records one after the other, each with what its allocations come to. -/
def parseRecs (ctx : RtCtx) (conf : RtConf) (recs : List (CStr × Mem)) : Except RtFault RtCtx :=
  recs.foldlM (fun ctx rec => ctx.parseRtRec conf rec.2 rec.1) ctx

end RtCtx

end Rmr
