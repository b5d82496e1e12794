import Rmr.Proofs.Message.Blot
import Rmr.Proofs.Message.Router
import Rmr.Proofs.Route.Anew
import Rmr.Proofs.Route.Listed

/-! From the text of a full table to the endpoints that messages are sent to: each message takes the
next turn of its route. -/

namespace Rmr

/-- Where a message goes that comes after so many with its route: to one endpoint of each group, if
there is a connection to it. A counter has sixteen bits. -/
def spread (linked : Nat → CStr → Bool) (uses : Nat) (groups : List (List CStr)) :
    List (Nat × CStr) :=
  groups.zipIdx.flatMap fun group =>
    ((group.1[uses % 65536 % group.1.length]?).filter (linked group.2)).toList.map
      fun ep => (group.2, ep)

section
variable {net : FanNet} {uses : Nat}

/-- What is selected in a group of endpoints. -/
theorem selected_names (names : List CStr) :
    (RrGroup.mk (names.map some)).selected (UInt16.ofNat uses) =
      names[uses % 65536 % names.length]? := by
  have counter : (UInt16.ofNat uses).toNat = uses % 65536 := by
    rw [UInt16.toNat_ofNat']
  -- A single endpoint is always the one, which is what the modulus gives too.
  have place : rrPlace names.length (UInt16.ofNat uses) = uses % 65536 % names.length := by
    unfold rrPlace
    split
    · rename_i one
      rw [one, Nat.mod_one]
    · rw [counter]
  rw [RrGroup.selected, List.length_map, place, List.getElem?_map, Option.map_eq_bind]
  cases names[uses % 65536 % names.length]? with
  | none => rfl
  | some name => rfl

/-- The loop over groups of endpoints. -/
theorem fanTargets_names (groups : List (List CStr)) (start : Nat) :
    fanTargets net (fun _ => UInt16.ofNat uses) start
        (groups.map fun names => some ⟨names.map some⟩) =
      (groups.zipIdx start).flatMap fun group =>
        ((group.1[uses % 65536 % group.1.length]?).filter (net.linked group.2)).toList.map
          fun ep => (group.2, ep) := by
  -- The induction is on the groups, which are numbered on from `start`.
  induction groups generalizing start with
  | nil => rfl
  | cons names groups ih =>
    rw [List.map_cons, fanTargets, ih, List.zipIdx_cons, List.flatMap_cons, Option.bind_some,
      selected_names]

/-- The endpoints that an entry has are those that it was made of. -/
theorem storedNames_names {groups : List (List CStr)} (some_ : ∀ names ∈ groups, names ≠ [])
    (more : Nat) :
    storedNames (groups.map (fun names => some ⟨names.map some⟩) ++ List.replicate more none) =
      groups := by
  -- No group is empty, so that none is left out.
  unfold storedNames
  rw [List.map_append, List.filter_append, List.map_replicate, List.map_map]
  have same : (groups.map ((fun slot : Option RrGroup => (slot.getD ⟨[]⟩).epts.reduceOption) ∘
      fun names => some ⟨names.map some⟩)) = groups := by
    refine (List.map_congr_left fun names _ => ?_).trans (List.map_id groups)
    simp [List.reduceOption]
  rw [same, List.filter_eq_self.mpr (by simpa using some_)]
  simp [List.reduceOption]

/-- An entry with such groups sends to the endpoints whose turn it is. -/
theorem RrEntry.after_reached {groups : List (List CStr)} {more : Nat}
    {rrgroups : List (Option RrGroup)} (listed : rrgroups ≠ [])
    (is : rrgroups = groups.map (fun names => some ⟨names.map some⟩) ++ List.replicate more none) :
    (RrEntry.after rrgroups uses).reached net = spread net.linked uses groups := by
  -- The slots behind the groups are empty, and end the loop.
  have front : rrgroups.takeWhile Option.isSome =
      groups.map fun names => some ⟨names.map some⟩ := by
    rw [is, List.takeWhile_append_of_pos]
    · cases more with
      | zero => simp
      | succ more => simp [List.replicate_succ]
    · intro slot among
      obtain ⟨names, -, rfl⟩ := List.mem_map.mp among
      rfl
  unfold reached
  refine (if_neg listed).trans ?_
  show fanTargets net (fun _ => UInt16.ofNat uses) 0 (rrgroups.takeWhile Option.isSome) = _
  rw [front, fanTargets_names]
  rfl

end

/-- What the last line of a full table about a pair tells. -/
def Session.told {conf : RtConf} (session : Session conf) (sid mtype : Int) : Option Entry :=
  lastTold (·.route? conf mtype sid) session.lines none

/-- The route that a message takes once a full table is loaded: that of its own subscription id, or
else that of none. -/
def Session.taken {conf : RtConf} (session : Session conf) (sid mtype : Int) :
    Option (Int × Entry) :=
  ((session.told sid mtype).map fun entry => (sid, entry)).or
    (if sid = unsetSubid then none
    else (session.told unsetSubid mtype).map fun entry => (unsetSubid, entry))

/-- No endpoint that is listed for a group has an empty name. -/
def Session.Named {conf : RtConf} (session : Session conf) : Prop :=
  ∀ senders mtype sid groups, Line.route senders mtype sid (some groups) ∈ session.lines →
    ∀ group ∈ groups, [] ∉ othersIn conf group

section
variable {conf : RtConf} {session : Session conf} {sid mtype : Int} {entry : Entry}

/-- What is told of a pair is the entry of some line. -/
theorem Session.told_line (told : session.told sid mtype = some entry) :
    ∃ senders groups, Line.route senders mtype sid groups ∈ session.lines ∧
      entry = entryOf conf mtype sid groups := by
  -- The last line that tells of the pair is a route for it, or takes one away.
  unfold Session.told lastTold at told
  cases found : session.lines.reverse.findSome? (·.route? conf mtype sid) with
  | none =>
    rw [found] at told
    cases told
  | some last =>
    rw [found] at told
    obtain ⟨line, among, is⟩ := List.exists_of_findSome?_eq_some found
    have among := List.mem_reverse.mp among
    cases line with
    | route senders type_ sub groups =>
      simp only [Line.route?] at is
      split at is
      · rename_i all
        obtain ⟨-, rfl, rfl⟩ := all
        obtain rfl := Option.some.inj is
        exact ⟨senders, groups, among, (Option.some.inj told).symm⟩
      · cases is
    | remove senders type_ sub =>
      simp only [Line.route?] at is
      split at is
      · obtain rfl := Option.some.inj is
        cases told
      · cases is
    | own => cases is
    | disown => cases is
    | blank => cases is

/-- The groups of an entry whose endpoints have names. -/
theorem entryOf_names {groups : List (List CStr)}
    (named : ∀ group ∈ groups, [] ∉ othersIn conf group) :
    ∃ (used : List (List CStr)) (more : Nat), (∀ names ∈ used, names ≠ []) ∧
      (entryOf conf mtype sid (some groups)).rrgroups =
        used.map (fun names => some ⟨names.map some⟩) ++ List.replicate more none := by
  -- Groups without an endpoint other than the process itself leave their slots at the end.
  refine ⟨(groups.map (othersIn conf)).filter (· ≠ []),
    groups.length - ((groups.map (othersIn conf)).filter (· ≠ [])).length, ?_, ?_⟩
  · intro names among
    simpa using (List.mem_filter.mp among).2
  · show rrgroupsOf conf groups = _
    unfold rrgroupsOf
    dsimp only
    congr 1
    apply List.map_congr_left
    intro names among
    obtain ⟨group, is, rfl⟩ := List.mem_map.mp (List.mem_filter.mp among).1
    congr 2
    apply List.map_congr_left
    intro name member
    have some_ : name ≠ [] := fun empty => named group is (empty ▸ member)
    exact if_neg some_

/-- So are the groups of each entry of a session whose endpoints have names. -/
theorem Session.Named.groups (named : session.Named) (told : session.told sid mtype = some entry) :
    ∃ (used : List (List CStr)) (more : Nat), (∀ names ∈ used, names ≠ []) ∧ entry.rrgroups =
      used.map (fun names => some ⟨names.map some⟩) ++ List.replicate more none := by
  -- A line without groups has none, and the groups of any other line are built from its names.
  obtain ⟨senders, groups, among, rfl⟩ := session.told_line told
  cases groups with
  | none => exact ⟨[], 0, by simp, rfl⟩
  | some groups => exact entryOf_names (named senders mtype sid groups among)

/-- The route that a message takes is told for some pair. -/
theorem Session.taken_told {sub : Int} (taken : session.taken sid mtype = some (sub, entry)) :
    (sub = sid ∨ sub = unsetSubid) ∧ session.told sub mtype = some entry := by
  -- The pair itself is looked up first, and then the one without a subscription id.
  unfold Session.taken at taken
  cases own : session.told sid mtype with
  | some first =>
    rw [own] at taken
    obtain ⟨rfl, rfl⟩ := Prod.mk.inj (Option.some.inj taken)
    exact ⟨.inl rfl, own⟩
  | none =>
    rw [own] at taken
    simp only [Option.map_none, Option.none_or] at taken
    split at taken
    · cases taken
    · obtain ⟨other, is, equal⟩ := Option.map_eq_some_iff.mp taken
      obtain ⟨rfl, rfl⟩ := Prod.mk.inj equal
      exact ⟨.inr rfl, is⟩

/-- An entry is the one that the active table has under a key, and only there. -/
structure RtCtx.Keyed (ctx : RtCtx) (id : Nat) (key : UInt64) : Prop where
  found : (ctx.rtable.bind fun rt => ctx.holds rt key) = some id
  only : ∃ refs, ctx.objs id = some (key, refs)

/-- What a full table answers with, once it is loaded. -/
structure Session.Serves (session : Session conf) (young : Nat) (ctx : RtCtx) : Prop where
  idle : ctx.Idle
  answers : ∀ sid mtype, InInt sid → InInt mtype → session.taken sid mtype = none →
    (ctx.rtable.bind fun rt => ctx.utaGetRte rt sid mtype true) = none
  entries : ∀ sid mtype, InInt sid → InInt mtype → ∀ sub entry,
    session.taken sid mtype = some (sub, entry) → ∃ id rte,
      (ctx.rtable.bind fun rt => ctx.utaGetRte rt sid mtype true) = some id ∧
        ctx.rtes id = some rte ∧ rte.entry = entry ∧ young ≤ id ∧
          ctx.Keyed id (buildRtKey sub mtype)

/-- A full table that is loaded serves its routes with entries that were made for it. -/
theorem Session.serves {ctx next : RtCtx} {old rt : Nat} (full : session.kind = .newrt)
    (ok : ctx.Idle) (idle : next.Idle) (loaded : RtCtx.Loaded session ctx next old rt)
    (ran : ctx.parseRecs conf (session.texts.map fun text => (text, .ample)) = .ok next) :
    session.Serves ctx.nextRte next := by
  obtain ⟨table, there⟩ := Option.ne_none_iff_exists'.mp
    ((idle.reached rt).mpr (.inl loaded.active))
  have young := RtCtx.session_young ok session full ran loaded.active there
  have unset : InInt unsetSubid := by decide
  have routes : ∀ sid mtype, session.routes ctx old mtype sid = session.told sid mtype := by
    intro sid mtype
    unfold Session.routes
    rw [if_pos full]
    rfl
  -- A pair is in the table exactly if something is told of it.
  have held : ∀ sid mtype, InInt sid → InInt mtype →
      (table.hash.mt.lookup (buildRtKey sid mtype)).map (fun id => (next.rtes id).map (·.entry)) =
        (session.told sid mtype).map some := by
    intro sid mtype sidFits mtypeFits
    have exactly := loaded.exactly sid mtype sidFits mtypeFits
    rw [routes, RtCtx.answer_eq_entryAt there] at exactly
    exact exactly
  have absent : ∀ sid mtype, InInt sid → InInt mtype → session.told sid mtype = none →
      table.hash.mt.lookup (buildRtKey sid mtype) = none := by
    intro sid mtype sidFits mtypeFits none_
    have equal := held sid mtype sidFits mtypeFits
    rw [none_] at equal
    simpa using equal
  have present : ∀ sid mtype, InInt sid → InInt mtype → ∀ entry, session.told sid mtype =
    some entry →
      ∃ id rte, table.hash.mt.lookup (buildRtKey sid mtype) = some id ∧
        next.rtes id = some rte ∧ rte.entry = entry ∧ ctx.nextRte ≤ id ∧
        next.Keyed id (buildRtKey sid mtype) := by
    intro sid mtype sidFits mtypeFits entry is
    have equal := held sid mtype sidFits mtypeFits
    rw [is] at equal
    obtain ⟨id, found, same⟩ := Option.map_eq_some_iff.mp equal
    obtain ⟨rte, rteIs, entryIs⟩ := Option.map_eq_some_iff.mp same
    refine ⟨id, rte, found, rteIs, entryIs, young sid mtype id sidFits mtypeFits found, ?_,
      idle.sound.held there found⟩
    rw [loaded.active, Option.bind_some, (idle.sound.at_table there).2]
    exact found
  have lookup : ∀ sid mtype, (next.rtable.bind fun rt => next.utaGetRte rt sid mtype true) =
      (table.hash.mt.lookup (buildRtKey sid mtype)).or
        (if sid = unsetSubid then none else table.hash.mt.lookup
          (buildRtKey unsetSubid mtype)) := by
    intro sid mtype
    rw [loaded.active, Option.bind_some, RtCtx.utaGetRte, there]
    simp only [Bind.bind, Option.bind_some, true_and, ite_not]
    cases table.hash.mt.lookup (buildRtKey sid mtype) with
    | none => rfl
    | some id => rfl
  refine ⟨idle, ?_, ?_⟩
  · -- Neither the pair nor the type alone is told of.
    intro sid mtype sidFits mtypeFits none_
    unfold Session.taken at none_
    rw [Option.or_eq_none_iff, Option.map_eq_none_iff] at none_
    rw [lookup, absent sid mtype sidFits mtypeFits none_.1, Option.none_or]
    have alt := none_.2
    by_cases is : sid = unsetSubid
    · rw [if_pos is]
    · rw [if_neg is, Option.map_eq_none_iff] at alt
      rw [if_neg is]
      exact absent unsetSubid mtype unset mtypeFits alt
  · intro sid mtype sidFits mtypeFits sub entry is
    unfold Session.taken at is
    rw [lookup]
    cases own : session.told sid mtype with
    | some first =>
      rw [own] at is
      obtain ⟨rfl, rfl⟩ := Prod.mk.inj (Option.some.inj is)
      obtain ⟨id, rte, found, rest⟩ := present sid mtype sidFits mtypeFits first own
      rw [found]
      exact ⟨id, rte, rfl, rest⟩
    | none =>
      -- The route without a subscription id is tried, unless that is what was asked for.
      rw [own] at is
      rw [absent sid mtype sidFits mtypeFits own]
      simp only [Option.map_none, Option.none_or] at is ⊢
      by_cases equal : sid = unsetSubid
      · rw [if_pos equal] at is
        cases is
      · rw [if_neg equal] at is ⊢
        obtain ⟨other, told, equal⟩ := Option.map_eq_some_iff.mp is
        obtain ⟨rfl, rfl⟩ := Prod.mk.inj equal
        obtain ⟨id, rte, found, rest⟩ := present unsetSubid mtype unset mtypeFits other told
        exact ⟨id, rte, found, rest⟩

end

/-- The managed element id in a header. -/
def Mbuf.meidName (msg : Mbuf) : CStr :=
  ((msg.tpBuf.slice HdrField.meid.offset rmrMaxMeid).takeWhile (· ≠ 0)).map
    fun byte => Char.ofNat byte.toNat

/-- A message that can be sent to any route: all of it is in its buffer, it can be cloned, and its
managed element id ends. -/
structure SendMet.Ready (conf : SendConf) (met : SendMet) : Prop where
  inside : met.draft.msg.Inside conf.order
  /-- The byte at the place of a call id is in the buffer. -/
  place : data1Addr conf.order met.draft.msg.tpBuf < met.draft.msg.tpBuf.size
  clones : met.draft.msg.Clonable conf.order
  meid : 0 ∈ met.draft.msg.tpBuf.slice HdrField.meid.offset rmrMaxMeid
  mtype : InInt met.draft.msg.mtype
  subId : InInt met.draft.msg.subId

section
variable {conf : SendConf} {rtConf : RtConf} {session : Session rtConf} {young : Nat}
  {router next : Router} {met : SendMet} {msg silent : Mbuf}

/-- A string that ends within a field is read from there. -/
theorem strdup_front (block : Block) (start count : Nat) (room : start + count ≤ block.size)
    (ends : 0 ∈ block.slice start count) :
    block.strdup start = .ok ((block.slice start count).takeWhile (· ≠ 0)) := by
  obtain ⟨rest, whole⟩ : ∃ rest, block.size - start = count + rest :=
    ⟨block.size - start - count, by omega⟩
  unfold Block.strdup
  dsimp only
  rw [whole, Block.slice_add, if_pos (List.mem_append_left _ ends), List.takeWhile_append, if_neg]
  -- The byte that ends the string is not taken.
  intro all
  have taken := (List.takeWhile_prefix (· ≠ 0) (l := block.slice start count)).eq_of_length all
  rw [List.takeWhile_eq_self_iff] at taken
  simpa using taken 0 ends

/-- Neither the call flag nor the place of a call id is in the managed element id. -/
theorem blot_meid {order : ByteOrder} (framed : msg.Framed order)
    (made : (msg.unmarkCall order).blotCallId order = .ok silent) :
    silent.tpBuf.slice HdrField.meid.offset rmrMaxMeid =
      msg.tpBuf.slice HdrField.meid.offset rmrMaxMeid := by
  -- The managed element id is in the header, and the call id in data 1 behind it.
  have alike := unmarkCall_alike order msg
  have behind := (addrs_behind (alike.framed framed).headed.len0).2.1
  obtain ⟨filled, filledIs, made⟩ := bind_eq_ok.mp made
  cases made
  obtain ⟨-, rfl⟩ := Block.memcpy_inside filledIs
  refine (Block.overlay_slice_outside _ _ _ _ _ (.inl ?_)).trans
    (putFlags_apart _ _ (.inl (by decide)))
  have field : HdrField.meid.offset + rmrMaxMeid ≤ 330 := by decide
  omega

/-- The managed element id of a message that is ready is found in it when it is sent. -/
theorem SendMet.Ready.meidName (ready : met.Ready conf)
    (made : (met.draft.msg.unmarkCall conf.order).blotCallId conf.order = .ok silent) :
    silent.meid = .ok met.draft.msg.meidName := by
  -- The header is all in the buffer, so that the id can be read from it.
  have blotted := unmarkCall_blotted ready.inside.toFramed made
  have same := blot_meid ready.inside.toFramed made
  have whole := ready.inside.whole
  have field : HdrField.meid.offset + rmrMaxMeid ≤ tpHdrLen + mhdrLen := by decide
  have read := strdup_front silent.tpBuf HdrField.meid.offset rmrMaxMeid
    (by rw [blotted.size]; omega) (by rw [same]; exact ready.meid)
  unfold Mbuf.meid
  rw [read, same]
  rfl

/-- What a call does with the routes of a full table. -/
structure SentAs (session : Session rtConf) (young : Nat) (ctx : RtCtx) (met : SendMet)
    (call : SentCall) : Prop where
  linked : call.net.linked = met.linked
  nobody : session.taken met.draft.msg.subId met.draft.msg.mtype = none →
    call.rte = none ∧ call.attempts = [] ∧ ∃ draft ∈ call.sent, draft.msg.state = .noEndpt
  routed : ∀ sub entry, session.taken met.draft.msg.subId met.draft.msg.mtype = some (sub, entry) →
    ∃ id, call.rte = some (id, entry.rrgroups) ∧ young ≤ id ∧
      ctx.Keyed id (buildRtKey sub met.draft.msg.mtype) ∧
      (entry.rrgroups = [] → call.net.owner =
        ctx.rtable.bind fun rt => ctx.getMeidOwner rt met.draft.msg.meidName)

/-- What a call that returned leaves. -/
theorem Router.send_ok (mid : Router) {call : SentCall}
    (made : (met.draft.msg.unmarkCall conf.order).blotCallId conf.order = .ok silent)
    (sent : router.mtosendMsg conf met { met.draft with msg := silent } = .ok (mid, call)) :
    router.send conf met = .ok { mid with calls := mid.calls ++ [call] } :=
  bind_eq_ok.mpr ⟨silent, made, bind_eq_ok.mpr ⟨(mid, call), sent, rfl⟩⟩

/-- A message that is ready is sent with the route that it takes. -/
theorem Session.Serves.send (serves : session.Serves young router.ctx) (named : session.Named)
    (ready : met.Ready conf) :
    ∃ call epIdx, router.send conf met =
        .ok { router with epIdx := epIdx, calls := router.calls ++ [call] } ∧
      SentAs session young router.ctx met call := by
  obtain ⟨silent, made⟩ := (unmarkCall_blot_iff conf.order met.draft.msg).mpr ready.place
  have blotted := unmarkCall_blotted ready.inside.toFramed made
  have within := blotted.inside ready.inside
  have found : router.found silent = router.ctx.rtable.bind fun rt =>
      router.ctx.utaGetRte rt met.draft.msg.subId met.draft.msg.mtype true := by
    unfold Router.found
    rw [blotted.subId, blotted.mtype]
  cases taken : session.taken met.draft.msg.subId met.draft.msg.mtype with
  | none =>
    have nobody := serves.answers _ _ ready.subId ready.mtype taken
    refine ⟨⟨none, ⟨met.linked, met.outcome, none⟩, [],
      some { met.draft with msg := { silent with state := .noEndpt } }⟩, router.epIdx, ?_,
        rfl, ?_, ?_⟩
    · refine Router.send_ok router made ?_
      unfold Router.mtosendMsg
      dsimp only
      rw [found, nobody]
    · intro _
      exact ⟨rfl, rfl, _, rfl, rfl⟩
    · intro sub entry is
      rw [taken] at is
      cases is
  | some route =>
    obtain ⟨sub, entry⟩ := route
    obtain ⟨id, rte, at_, rteIs, rfl, old, keyed⟩ :=
      serves.entries _ _ ready.subId ready.mtype sub entry taken
    obtain ⟨used, more, some_, slots⟩ := named.groups (session.taken_told taken).2
    obtain ⟨owner, ownerIs, owned⟩ : ∃ owner, router.owner rte.entry silent = .ok owner ∧
        (rte.entry.rrgroups = [] → owner =
          router.ctx.rtable.bind fun rt => router.ctx.getMeidOwner rt met.draft.msg.meidName) := by
      unfold Router.owner
      by_cases unlisted : rte.entry.rrgroups = []
      · rw [if_pos unlisted]
        exact ⟨_, bind_eq_ok.mpr ⟨_, ready.meidName made, rfl⟩, fun _ => rfl⟩
      · rw [if_neg unlisted]
        exact ⟨none, rfl, fun empty => absurd empty unlisted⟩
    -- All groups have endpoints only, and the message can be sent to all of them.
    have slots' : (RrEntry.mk rte.entry.rrgroups (router.epIdx id)).rrgroups =
        (used.map fun names => RrGroup.mk (names.map some)).map some ++
          List.replicate more none := by
      rw [List.map_map]
      exact slots
    have filled : ∀ rrg ∈ used.map fun names => RrGroup.mk (names.map some), none ∉ rrg.epts := by
      intro rrg among filled
      obtain ⟨names, -, rfl⟩ := List.mem_map.mp among
      simp at filled
    have fans : ∃ fan, mtosendRte conf met.left ⟨met.linked, met.outcome, owner⟩
        ⟨rte.entry.rrgroups, router.epIdx id⟩ { met.draft with msg := silent } = .ok fan := by
      have clones := blotted.clonable.mpr ready.clones
      have loops : ∃ loop, fanLoop conf met.left ⟨met.linked, met.outcome, owner⟩
          ⟨rte.entry.rrgroups, router.epIdx id⟩ { met.draft with msg := silent } false 0
          (rte.entry.rrgroups.length + 1) = .ok loop ∧
          loop.Tells conf ⟨met.linked, met.outcome, owner⟩ silent false _ :=
        mtosendRte_fans within.toFramed within.whole slots' filled (fun _ => within.shippable)
          fun _ => clones
      obtain ⟨loop, loopIs, -⟩ := loops
      exact ⟨_, bind_eq_ok.mpr ⟨loop, loopIs, rfl⟩⟩
    obtain ⟨fan, fanIs⟩ := fans
    refine ⟨⟨some (id, rte.entry.rrgroups), ⟨met.linked, met.outcome, owner⟩,
      fan.attempts, fan.sent⟩,
      Function.update router.epIdx id fan.rte.epIdx, ?_, rfl, ?_, ?_⟩
    · refine Router.send_ok { router with
        epIdx := Function.update router.epIdx id fan.rte.epIdx } made ?_
      unfold Router.mtosendMsg
      dsimp only
      rw [found, at_]
      refine bind_eq_ok.mpr ⟨rte, by rw [RtCtx.rte_ok rteIs]; rfl, bind_eq_ok.mpr ⟨owner, ownerIs,
        bind_eq_ok.mpr ⟨fan, fanIs, rfl⟩⟩⟩
    · intro none_
      rw [taken] at none_
      cases none_
    · intro sub' entry' is
      rw [taken] at is
      obtain ⟨rfl, rfl⟩ := Prod.mk.inj (Option.some.inj is)
      exact ⟨id, rfl, old, keyed, owned⟩

/-- Messages that are ready are all sent, one after the other. -/
theorem Session.Serves.sends (serves : session.Serves young router.ctx) (named : session.Named)
    {mets : List SendMet} (ready : ∀ met ∈ mets, met.Ready conf) :
    ∃ last calls, router.run conf rtConf (mets.map .send) = .ok last ∧
      last.calls = router.calls ++ calls ∧
      List.Forall₂ (SentAs session young router.ctx) mets calls := by
  -- By induction on the messages: each call leaves the tables as they were.
  induction mets generalizing router with
  | nil => exact ⟨router, [], rfl, (List.append_nil _).symm, .nil⟩
  | cons met mets ih =>
    obtain ⟨call, epIdx, sent, goes⟩ := serves.send named (ready met List.mem_cons_self)
    obtain ⟨mid, midIs⟩ : ∃ mid, mid =
      { router with epIdx := epIdx, calls := router.calls ++ [call] } := ⟨_, rfl⟩
    rw [← midIs] at sent
    have same : mid.ctx = router.ctx := by rw [midIs]
    obtain ⟨last, calls, ran, made, all⟩ :=
      ih (same ▸ serves) fun met among => ready met (List.mem_cons_of_mem _ among)
    refine ⟨last, call :: calls, foldlM_cons_ok.mpr ⟨mid, sent, ran⟩, ?_, ?_⟩
    · rw [made, midIs, List.append_assoc]
      rfl
    · rw [same] at all
      exact .cons goes all

/-- Records are parsed one after the other. -/
theorem Router.run_records {ctx : RtCtx} {recs : List (CStr × Mem)}
    (parsed : router.ctx.parseRecs rtConf recs = .ok ctx) :
    router.run conf rtConf (recs.map fun rec => .record rec.1 rec.2) =
      .ok { router with ctx := ctx } := by
  -- By induction on the records.
  induction recs generalizing router with
  | nil =>
    obtain rfl := Except.ok.inj parsed
    rfl
  | cons rec recs ih =>
    obtain ⟨mid, first, rest⟩ := foldlM_cons_ok.mp parsed
    refine foldlM_cons_ok.mpr ⟨{ router with ctx := mid }, ?_, ?_⟩
    · exact bind_eq_ok.mpr ⟨mid, by rw [first]; rfl, rfl⟩
    · have later : (Router.mk mid router.epIdx router.calls).ctx.parseRecs rtConf recs =
        .ok ctx := rest
      exact ih later

/-- Whether two messages take the same route. -/
def Session.sameRoute (session : Session rtConf) (met other : SendMet) : Bool :=
  decide ((session.taken met.draft.msg.subId met.draft.msg.mtype).map Prod.fst =
      (session.taken other.draft.msg.subId other.draft.msg.mtype).map Prod.fst) &&
    decide (met.draft.msg.mtype = other.draft.msg.mtype)

/-- The pair that a message's route is told for has numbers that are `int`s. -/
theorem Session.taken_fits {sid mtype sub : Int} {entry : Entry} (fits : InInt sid)
    (taken : session.taken sid mtype = some (sub, entry)) : InInt sub := by
  -- The subscription is the one of the message, or the one for none.
  rcases (session.taken_told taken).1 with rfl | rfl
  · exact fits
  · decide

/-- The entry of a route is used by the messages that take the route. -/
theorem Session.uses {ctx : RtCtx} {mets : List SendMet} {calls : List SentCall}
    (all : List.Forall₂ (SentAs session young ctx) mets calls)
    (fits : ∀ other ∈ mets, other.Ready conf) (ready : met.Ready conf) {sub : Int} {entry : Entry}
    (taken : session.taken met.draft.msg.subId met.draft.msg.mtype = some (sub, entry)) {id : Nat}
    (keyed : ctx.Keyed id (buildRtKey sub met.draft.msg.mtype)) :
    usesOf id calls = mets.countP (session.sameRoute met) := by
  induction all with
  | nil => rfl
  | @cons other call mets calls goes _ ih =>
    have rest := ih fun other among => fits other (List.mem_cons_of_mem _ among)
    have same : (call.rte.map Prod.fst = some id) ↔ session.sameRoute met other = true := by
      unfold Session.sameRoute
      rw [taken, Bool.and_eq_true, decide_eq_true_iff, decide_eq_true_iff]
      cases route : session.taken other.draft.msg.subId other.draft.msg.mtype with
      | none =>
        rw [(goes.nobody route).1]
        simp
      | some found =>
        obtain ⟨sub', entry'⟩ := found
        obtain ⟨id', rte, -, keyed', -⟩ := goes.routed sub' entry' route
        have otherFits := fits other List.mem_cons_self
        have keys := buildRtKey_inj (session.taken_fits ready.subId taken) ready.mtype
          (session.taken_fits otherFits.subId route) otherFits.mtype
        rw [rte]
        simp only [Option.map_some, Option.some.injEq]
        rw [← keys]
        constructor
        · rintro rfl
          -- An entry has one key only.
          obtain ⟨refs, one⟩ := keyed.only
          obtain ⟨refs', another⟩ := keyed'.only
          rw [one] at another
          exact (Prod.mk.inj (Option.some.inj another)).1
        · intro equal
          have found := keyed'.found
          rw [← equal, keyed.found] at found
          exact (Option.some.inj found).symm
    unfold usesOf at rest ⊢
    rw [List.countP_cons, List.countP_cons, rest]
    congr 1
    simp only [decide_eq_true_eq, same]

/-- A call sent a message where the text of a full table says, after so many others with the same
route. -/
structure Follows (session : Session rtConf) (ctx : RtCtx) (uses : Nat) (met : SendMet)
    (call : SentCall) : Prop where
  /-- Without a route the message comes back, marked so. -/
  nobody : session.taken met.draft.msg.subId met.draft.msg.mtype = none →
    call.targets = [] ∧ ∃ draft ∈ call.sent, draft.msg.state = .noEndpt
  /-- With groups it goes to the endpoint of each that is listed in the place of its turn. -/
  spreads : ∀ sub entry,
    session.taken met.draft.msg.subId met.draft.msg.mtype = some (sub, entry) →
    entry.rrgroups ≠ [] → call.targets = spread met.linked uses (storedNames entry.rrgroups)
  /-- With the special indicator it goes to the owner of its managed element. -/
  owned : ∀ sub entry,
    session.taken met.draft.msg.subId met.draft.msg.mtype = some (sub, entry) →
    entry.rrgroups = [] → ∀ old ∈ ctx.rtable, call.targets =
      ((session.owner ctx old met.draft.msg.meidName).filter (met.linked 0)).toList.map
        fun ep => (0, ep)

end

/-- From whatever was done before, a full table whose endpoints have names is loaded, and messages
that are ready are then all sent as its text says: each goes to the endpoint of each group of its
route whose turn it is, the first one to the first that is listed, whatever messages with other
routes come in between. -/
theorem full_table_turns (conf : SendConf) (rtConf : RtConf) (events : List RouterEvent)
    (router : Router) (reached : Router.init.run conf rtConf events = .ok router)
    (session : Session rtConf) (full : session.kind = .newrt) (named : session.Named)
    (mets : List SendMet) (ready : ∀ met ∈ mets, met.Ready conf) :
    ∃ last calls, router.run conf rtConf
        (session.texts.map (fun text => .record text .ample) ++ mets.map .send) = .ok last ∧
      last.calls = router.calls ++ calls ∧ calls.length = mets.length ∧
      ∀ i met call, mets[i]? = some met → calls[i]? = some call →
        Follows session router.ctx ((mets.take i).countP (session.sameRoute met)) met call := by
  have turning : router.Turning :=
    foldlM_invariant Router.Turning (fun turning stepped => turning.step stepped)
      Router.init_turning reached
  obtain ⟨old, active⟩ := Option.ne_none_iff_exists'.mp turning.idle.active
  obtain ⟨next, rt, parsed, loaded⟩ :=
    RtCtx.session_loads turning.idle active session (by rw [full]; nofun)
  have ends := RtCtx.parseRecs_keeps turning.idle rtConf
    (session.texts.map fun text => (text, .ample))
  rw [parsed] at ends
  have keeps : RtCtx.Keeps router.ctx next := ends
  have serves := session.serves full turning.idle keeps.idle loaded parsed
  -- The records change no counter and send nothing.
  obtain ⟨mid, midIs⟩ : ∃ mid, mid = { router with ctx := next } := ⟨_, rfl⟩
  have first : router.run conf rtConf (session.texts.map fun text => .record text .ample) =
      .ok mid := by
    have records : router.run conf rtConf ((session.texts.map fun text => (text, Mem.ample)).map
        fun rec => .record rec.1 rec.2) = .ok { router with ctx := next } :=
      Router.run_records parsed
    rw [List.map_map] at records
    rw [midIs]
    exact records
  have ctxIs : mid.ctx = next := by rw [midIs]
  have callsIs : mid.calls = router.calls := by rw [midIs]
  obtain ⟨last, calls, sent, made, all⟩ := (ctxIs.symm ▸ serves :
    session.Serves router.ctx.nextRte mid.ctx).sends named ready
  rw [callsIs] at made
  have ran : router.run conf rtConf
      (session.texts.map (fun text => .record text .ample) ++ mets.map .send) = .ok last :=
    foldlM_append_ok.mpr ⟨mid, first, sent⟩
  have turning' : last.Turning :=
    foldlM_invariant Router.Turning (fun turning stepped => turning.step stepped) turning ran
  refine ⟨last, calls, ran, made, all.length_eq.symm, ?_⟩
  intro i met call metIs callIs
  obtain ⟨low, metAt⟩ := List.getElem?_eq_some_iff.mp metIs
  obtain ⟨low', callAt⟩ := List.getElem?_eq_some_iff.mp callIs
  have goes : SentAs session router.ctx.nextRte mid.ctx met call := by
    have at_ := all.get low low'
    rw [List.get_eq_getElem, List.get_eq_getElem, metAt, callAt] at at_
    exact at_
  have metReady : met.Ready conf := ready met (metAt ▸ List.getElem_mem low)
  have split : last.calls = (router.calls ++ calls.take i) ++ call :: calls.drop (i + 1) := by
    rw [made, List.append_assoc, ← callAt, ← List.drop_eq_getElem_cons low', List.take_append_drop]
  -- The entry was made for the table, so that it was used for these messages only.
  have turn : ∀ sub entry,
      session.taken met.draft.msg.subId met.draft.msg.mtype = some (sub, entry) →
      call.targets = (RrEntry.after entry.rrgroups
        ((mets.take i).countP (session.sameRoute met))).reached call.net := by
    intro sub entry taken
    obtain ⟨id, rte, young, keyed, -⟩ := goes.routed sub entry taken
    have uses : usesOf id (router.calls ++ calls.take i) =
        (mets.take i).countP (session.sameRoute met) := by
      have before := turning.unused young
      have since := session.uses (List.forall₂_take i all)
        (fun other among => ready other (List.mem_of_mem_take among)) metReady taken keyed
      unfold usesOf at before since ⊢
      rw [List.countP_append, before, since, Nat.zero_add]
    rw [← uses]
    exact (turning'.turns _ call _ split (id, entry.rrgroups) rte).1
  refine ⟨?_, ?_, ?_⟩
  · intro none_
    obtain ⟨-, nothing, back⟩ := goes.nobody none_
    refine ⟨?_, back⟩
    unfold SentCall.targets
    rw [nothing]
    rfl
  · intro sub entry taken listed
    obtain ⟨used, more, some_, slots⟩ := named.groups (session.taken_told taken).2
    rw [turn sub entry taken, RrEntry.after_reached listed slots, goes.linked]
    rw [slots, storedNames_names some_]
  · intro sub entry taken unlisted old' is
    obtain rfl : old = old' := Option.some.inj (active.symm.trans is)
    obtain ⟨id, -, -, -, owner⟩ := goes.routed sub entry taken
    have owns : call.net.owner = session.owner router.ctx old met.draft.msg.meidName := by
      rw [owner unlisted, ctxIs, loaded.active]
      exact loaded.owners _
    rw [turn sub entry taken, ← owns, ← goes.linked]
    exact if_pos unlisted

/-- A message of type 1 with twenty bytes of payload, whose sends go well. -/
def readyMet : SendMet where
  draft := fullDraft 20
  left := fun _ _ => 0
  linked := fun _ _ => true
  outcome := fun _ => .ok

/-- It can be sent to any route. -/
theorem readyMet_ready : readyMet.Ready SendConf.plain where
  -- Each condition is about one message, and is decided for it.
  inside := {
    inInt := by decide +kernel
    headed := (freshHeader_headed ⟨by decide, rfl⟩ (Block.ofList (List.replicate (334 + 20) 0)) :
      Headed SendConf.plain.order _ _ ∧ _).1
    near := by decide +kernel
    nonneg := by decide +kernel
    room := by decide +kernel
    held := by decide +kernel }
  place := by decide +kernel
  clones := ⟨by decide +kernel, by decide +kernel, by decide +kernel, by decide +kernel,
    by decide +kernel⟩
  meid := by decide +kernel
  mtype := by decide +kernel
  subId := by decide +kernel

/-- Two such messages and the full table of one route. -/
theorem full_table_turns_two : ∃ last calls,
    Router.init.run SendConf.plain RtCtx.confHere
        (RtCtx.fullTable.texts.map (fun text => .record text .ample) ++
          [readyMet, readyMet].map .send) = .ok last ∧
      last.calls = Router.init.calls ++ calls ∧ calls.length = 2 ∧
      ∀ i met call, [readyMet, readyMet][i]? = some met → calls[i]? = some call →
        Follows RtCtx.fullTable RtCtx.init
          (([readyMet, readyMet].take i).countP (RtCtx.fullTable.sameRoute met)) met call := by
  -- The names of the one route are decided, as is that the message is ready.
  have named : RtCtx.fullTable.Named := by
    intro senders mtype sid groups among group is
    simp only [RtCtx.fullTable, RtCtx.oneRoute, List.mem_singleton, Line.route.injEq,
      Option.some.injEq] at among
    obtain ⟨-, -, -, rfl⟩ := among
    obtain rfl := List.mem_singleton.mp is
    decide +kernel
  have ready : ∀ met ∈ [readyMet, readyMet], met.Ready SendConf.plain := by
    intro met among
    obtain rfl : met = readyMet := by simpa using among
    exact readyMet_ready
  exact full_table_turns SendConf.plain RtCtx.confHere [] Router.init rfl RtCtx.fullTable rfl named
    [readyMet, readyMet] ready

end Rmr
