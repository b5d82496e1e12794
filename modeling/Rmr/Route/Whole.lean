import Rmr.Route.Listed

/-! The records that are counted for a table, and when all that they list is taken. -/

namespace Rmr

/-- What a record that is counted lists. -/
inductive Listing where
  | route (tsField : CStr) (subid : Int) (rrField : CStr)
  | own (owner meidList : CStr)
  | disown (meidList : CStr)

/-- The fields of a record, however many there are, and what it lists. -/
inductive Lists : List CStr → Listing → Prop where
  | rte {name tsField rrField : CStr} (named : (clip name).head? = some 'r') :
    Lists [name, tsField, rrField] (.route (clip tsField) unsetSubid (clip rrField))
  | rteSub {name tsField rrField subid : CStr} {rest : List CStr}
    (named : (clip name).head? = some 'r') :
    Lists (name :: tsField :: rrField :: subid :: rest)
      (.route (clip tsField) (atoi subid) (clip rrField))
  | mse {name tsField subid rrField : CStr} {rest : List CStr}
    (named : clip name = ['m', 's', 'e']) :
    Lists (name :: tsField :: subid :: rrField :: rest)
      (.route (clip tsField) (atoi subid) (clip rrField))
  | mmeAr {name owner meids : CStr} {rest : List CStr}
    (named : clip name = ['m', 'm', 'e', '_', 'a', 'r']) :
    Lists (name :: owner :: meids :: rest) (.own (clip owner) (clip meids))
  | mmeDel {name meids : CStr} {rest : List CStr}
    (named : clip name = ['m', 'm', 'e', '_', 'd', 'e', 'l']) :
    Lists (name :: meids :: rest) (.disown (clip meids))

namespace RtCtx

/-- The entry that a table has for a pair. -/
def entryAt (ctx : RtCtx) (table : RouteTable) (sid mtype : Int) : Option (Option Entry) :=
  (table.hash.mt.lookup (buildRtKey sid mtype)).map fun id => (ctx.rtes id).map (·.entry)

/-- A table has the endpoints that a record lists, other than this process. -/
def HasRoute (conf : RtConf) (tsField : CStr) (subid : Int) (rrField : CStr) (ctx : RtCtx)
    (table : RouteTable) : Prop :=
  ∃ entry, ctx.entryAt table subid (atoi tsField) = some (some entry) ∧
    storedNames entry.rrgroups = wanted .written conf rrField

/-- A record was counted, once and for the records that it is one of. -/
structure Tallied (listing : Listing) (table table' : RouteTable) : Prop where
  updates : table'.updates =
    if listing matches .route .. then toInt (table.updates + 1) else table.updates
  mupdates : table'.mupdates =
    if listing matches .route .. then table.mupdates else toInt (table.mupdates + 1)

/-- All that a record lists took effect in the table: the endpoints, if it has no senders or this
process is one of them, and the managed element ids; and nothing else did. -/
def TakesAll (conf : RtConf) (listing : Listing) (table : RouteTable) (next : RtCtx)
    (table' : RouteTable) : Prop :=
  match listing with
  | .route tsField subid rrField =>
    names conf (sendersOf tsField) = true → rrField ≠ [] →
      HasRoute conf tsField subid rrField next table'
  | .own owner meidList => ∀ meid ≠ [], table'.hash.me.lookup meid =
      if meid ∈ pieces ' ' meidList then some owner else table.hash.me.lookup meid
  | .disown meidList => ∀ meid ≠ [], table'.hash.me.lookup meid =
      if meid ∈ pieces ' ' meidList then none else table.hash.me.lookup meid

/-- A managed element id that is listed and is not a token of the list, or the other way round. -/
def Differs (meidList meid : CStr) : Prop :=
  ¬ (meid ∈ utaTokenise meidList 128 ' ' ↔ meid ∈ pieces ' ' meidList)

/-- A record within what the parser handles, for the table that it is for. -/
def Whole (conf : RtConf) (listing : Listing) (ctx : RtCtx) (table : RouteTable) : Prop :=
  match listing with
  | .route tsField subid rrField =>
    names conf (sendersOf tsField) = true → rrField ≠ [] →
      if ingests conf tsField then Tidy .written conf rrField
      -- This process is not found among the senders, though it is one.
      else HasRoute conf tsField subid rrField ctx table
  | .own owner meidList => ∀ meid ≠ [],
      (if owner = [] then meid ∈ pieces ' ' meidList else Differs meidList meid) →
        table.hash.me.lookup meid = some owner
  | .disown meidList => ∀ meid ≠ [], Differs meidList meid → table.hash.me.lookup meid = none

end RtCtx

end Rmr
