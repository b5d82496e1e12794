import Rmr.Proofs.Route.Sound
import Rmr.Route.Things

/-! Cloned route tables: what the lists come to, and when they can be made large enough. -/

namespace Rmr

namespace ThingList
variable {ν τ : Type} {tl next : ThingList ν τ} {things : List (ν × τ)}

/-- How often the size of the lists can grow. -/
def rounds : Nat := 34

/-- The last size is the number of things that cannot be gathered any more. -/
theorem sizes_rounds : sizes 2048 rounds = RtCtx.maxThings := by decide +kernel

/-- A list that some things were gathered in, with room for one more. -/
structure Gathered (tl : ThingList ν τ) (things : List (ν × τ)) : Prop where
  nused : tl.nused = things.length
  room : tl.nused < tl.nalloc
  size : ∃ k ≤ rounds, tl.nalloc = sizes 2048 k
  thingsSize : (tl.things.length : Int) = tl.nalloc
  namesSize : (tl.names.length : Int) = tl.nalloc
  filled : tl.things.Filled (things.map Prod.snd)
  named : tl.names.Filled (things.map Prod.fst)

/-- Nothing was gathered in the first list. -/
theorem start_gathered : (start ν τ).Gathered [] where
  -- The list has its first room, of 2048 things, and none of it is in use.
  nused := rfl
  room := by
    change (0 : Int) < 2048
    decide
  size := ⟨0, Nat.zero_le _, rfl⟩
  thingsSize := by simp [start]
  namesSize := by simp [start]
  filled := Slots.filled_nil _
  named := Slots.filled_nil _

/-- What is gathered is less than the number that cannot be gathered any more. -/
theorem Gathered.few (gathered : tl.Gathered things) : things.length < RtCtx.maxThings := by
  -- The room is one of the sizes that a list is grown to, and the last of these is the limit.
  obtain ⟨k, small, size⟩ := gathered.size
  have most := sizes_mono 2048 small
  have room := gathered.room
  rw [gathered.nused, size] at room
  rw [sizes_rounds] at most
  omega

/-- Lists that are full grow, unless they have the last size. -/
theorem extendThings_grows {k : Nat} (small : k < rounds) (nalloc : tl.nalloc = sizes 2048 k)
    (full : tl.nused = tl.nalloc) (nused : tl.nused = things.length)
    (thingsSize : (tl.things.length : Int) = tl.nalloc)
    (namesSize : (tl.names.length : Int) = tl.nalloc)
    (filled : tl.things.Filled (things.map Prod.snd))
    (named : tl.names.Filled (things.map Prod.fst)) :
    ∃ next, tl.extendThings = .ok next ∧ next.Gathered things := by
  have larger : tl.nalloc + tl.nalloc / 2 = (sizes 2048 (k + 1) : Nat) := by
    rw [nalloc, sizes]
    omega
  -- Up to the last size the sum is an `int`.
  have most : sizes 2048 (k + 1) ≤ sizes 2048 rounds := sizes_mono 2048 small
  have positive := sizes_mono 2048 (Nat.zero_le k)
  rw [sizes_rounds, RtCtx.maxThings] at most
  rw [sizes] at positive
  have added : addInt tl.nalloc (tl.nalloc / 2) = .ok (tl.nalloc + tl.nalloc / 2) :=
    addInt_ok (by rw [larger]; simp only [InInt, intMin, intMax]; omega)
  have grown : tl.nalloc < (sizes 2048 (k + 1) : Nat) := by omega
  obtain ⟨newThings, copied, newSize, newFilled⟩ := filled.copy
    (show tl.things.length ≤ (Slots.alloc τ (tl.nalloc + tl.nalloc / 2).toNat).length by
      rw [Slots.alloc_length, larger]
      omega)
  obtain ⟨newNames, copiedNames, newNamesSize, newNamed⟩ := named.copy
    (show tl.names.length ≤ (Slots.alloc ν (tl.nalloc + tl.nalloc / 2).toNat).length by
      rw [Slots.alloc_length, larger]
      omega)
  have count : tl.nalloc.toNat = tl.things.length := by omega
  have countNames : tl.nalloc.toNat = tl.names.length := by omega
  rw [Slots.alloc_length] at newSize newNamesSize
  refine ⟨_, bind_eq_ok.mpr ⟨_, added, bind_eq_ok.mpr ⟨newThings, by rw [count]; exact copied,
    bind_eq_ok.mpr ⟨newNames, by rw [countNames]; exact copiedNames, rfl⟩⟩⟩, ?_⟩
  exact {
    nused := nused
    room := by
      change tl.nused < tl.nalloc + tl.nalloc / 2
      omega
    size := ⟨k + 1, small, larger⟩
    thingsSize := by
      change (newThings.length : Int) = tl.nalloc + tl.nalloc / 2
      omega
    namesSize := by
      change (newNames.length : Int) = tl.nalloc + tl.nalloc / 2
      omega
    filled := newFilled
    named := newNamed }

/-- Lists of the last size cannot grow. -/
theorem extendThings_stops (nalloc : tl.nalloc = RtCtx.maxThings) :
    ∃ fault, tl.extendThings = .error fault := by
  -- Half as much again as the last size is above all `int`s.
  have overflow : addInt tl.nalloc (tl.nalloc / 2) = .error .overflow :=
    addInt_overflow (by rw [nalloc]; decide)
  refine ⟨.overflow, ?_⟩
  rw [extendThings, overflow]
  rfl

/-- One thing more is gathered, unless it is the one that cannot be gathered any more. -/
theorem collectThings_gathers (gathered : tl.Gathered things) (name : ν) (thing : τ) :
    if things.length + 1 < RtCtx.maxThings then
      ∃ next, tl.collectThings name (some thing) = .ok next ∧
        next.Gathered (things ++ [(name, thing)])
    else ∃ fault, tl.collectThings name (some thing) = .error fault := by
  obtain ⟨nused, room, ⟨k, small, size⟩, thingsSize, namesSize, filled, named⟩ := gathered
  have most := sizes_mono 2048 small
  rw [sizes_rounds] at most
  have index : tl.nused.toNat = things.length := by omega
  obtain ⟨newNames, putName, newNamesSize, newNamed⟩ := named.put (by simp; omega) name
  obtain ⟨newThings, putThing, newThingsSize, newFilled⟩ := filled.put (by simp; omega) thing
  rw [List.length_map, ← index] at putName putThing
  have added : addInt tl.nused 1 = .ok (tl.nused + 1) :=
    addInt_ok (by
      simp only [RtCtx.maxThings] at most
      simp only [InInt, intMin, intMax]
      omega)
  have collected : tl.collectThings name (some thing) =
      if tl.nalloc ≤ tl.nused + 1 then
        ThingList.extendThings ⟨tl.nalloc, tl.nused + 1, newThings, newNames⟩
      else .ok ⟨tl.nalloc, tl.nused + 1, newThings, newNames⟩ := by
    rw [collectThings, putName]
    dsimp only [Bind.bind, Except.bind]
    rw [putThing]
    dsimp only
    rw [added]
    rfl
  have longer : tl.nused + 1 = ((things ++ [(name, thing)]).length : Nat) := by
    simp [nused]
  rw [collected]
  by_cases full : tl.nalloc ≤ tl.nused + 1
  · -- The lists are full now: either there is a larger size, or this was the last one.
    rw [if_pos full]
    by_cases last : k = rounds
    · subst last
      rw [sizes_rounds] at size
      rw [if_neg (by omega)]
      exact extendThings_stops size
    · have before : sizes 2048 k < RtCtx.maxThings := by
        have after : sizes 2048 (k + 1) ≤ sizes 2048 rounds :=
          sizes_mono 2048 (Nat.lt_of_le_of_ne small last)
        have positive := sizes_mono 2048 (Nat.zero_le k)
        rw [sizes_rounds, sizes] at after
        rw [sizes] at positive
        omega
      rw [if_pos (by omega)]
      exact extendThings_grows (Nat.lt_of_le_of_ne small last) size
        (show tl.nused + 1 = tl.nalloc by omega) longer
        (show (newThings.length : Int) = tl.nalloc by omega)
        (show (newNames.length : Int) = tl.nalloc by omega) (by simpa using newFilled)
        (by simpa using newNamed)
  · rw [if_neg full, if_pos (by omega)]
    exact ⟨_, rfl, {
      nused := longer
      room := Int.not_le.mp full
      size := ⟨k, small, size⟩
      thingsSize := by
        change (newThings.length : Int) = tl.nalloc
        omega
      namesSize := by
        change (newNames.length : Int) = tl.nalloc
        omega
      filled := by simpa using newFilled
      named := by simpa using newNamed }⟩

/-- After some things, more of them are gathered if they are few enough in all. -/
theorem collect_gathers (gathered : tl.Gathered things) (more : List (ν × τ)) :
    if (things ++ more).length < RtCtx.maxThings then
      ∃ next, more.foldlM (fun tl thing => tl.collectThings thing.1 (some thing.2)) tl = .ok next ∧
        next.Gathered (things ++ more)
    else ∃ fault,
      more.foldlM (fun tl thing => tl.collectThings thing.1 (some thing.2)) tl = .error fault := by
  -- The induction is on the things that are left: each one is gathered behind those before it.
  induction more generalizing tl things with
  | nil =>
    rw [List.append_nil, if_pos gathered.few]
    exact ⟨tl, rfl, gathered⟩
  | cons thing more ih =>
    have one := collectThings_gathers gathered thing.1 thing.2
    have shifted : things ++ thing :: more = (things ++ [thing]) ++ more := by simp
    by_cases room : things.length + 1 < RtCtx.maxThings
    · rw [if_pos room] at one
      obtain ⟨next, collected, holds⟩ := one
      have rest := ih holds
      rw [shifted]
      simp only [List.foldlM_cons, collected]
      exact rest
    · rw [if_neg room] at one
      obtain ⟨fault, collected⟩ := one
      have many : ¬ (things ++ thing :: more).length < RtCtx.maxThings := by
        simp only [List.length_append, List.length_cons]
        omega
      rw [if_neg many]
      refine ⟨fault, ?_⟩
      simp only [List.foldlM_cons, collected]
      rfl

/-- All things of a space are gathered exactly if they are few enough. -/
theorem gather_gathers (things : List (ν × τ)) :
    if things.length < RtCtx.maxThings then
      ∃ tl, gather things = .ok tl ∧ tl.Gathered things
    else ∃ fault, gather things = .error fault :=
  collect_gathers start_gathered things

/-- What was gathered is read from the lists, in order. -/
theorem Gathered.both (gathered : tl.Gathered things) {i : Nat} {thing : ν × τ}
    (is : things[i]? = some thing) : tl.both i = .ok thing := by
  have value := gathered.filled.read (show (things.map Prod.snd)[i]? = some thing.2 by simp [is])
  have name := gathered.named.read (show (things.map Prod.fst)[i]? = some thing.1 by simp [is])
  simp [ThingList.both, value, name, Bind.bind, Except.bind, Pure.pure, Except.pure]

end ThingList

namespace RtCtx
variable {ctx next : RtCtx} {srt nrt : Nat} {source table : RouteTable}

/-- The managed element ids of a table are cloned by way of the lists as they are without them, if
they are few enough. -/
theorem rtCloneThings_me (from_ : ctx.tables srt = some source) (nrt : Nat) :
    if source.hash.me.entries.length < maxThings then
      ctx.rtCloneThings srt nrt .me = (ctx.cloneMe srt nrt).mapError .table
    else ∃ fault, ctx.rtCloneThings srt nrt .me = .error (.list fault) := by
  have gathers := ThingList.gather_gathers (owners source)
  rw [show (owners source).length = source.hash.me.entries.length
    from List.length_map ..] at gathers
  have opened : ctx.rtCloneThings srt nrt .me =
      (ThingList.gather (owners source)).mapError CloneFault.list >>= fun tl =>
        (List.range tl.nused.toNat).foldlM (fun ctx i => do
          (ctx.putOwner nrt (← (tl.both i).mapError .list)).mapError .table) ctx := by
    rw [rtCloneThings, table_ok from_]
    rfl
  rw [opened]
  by_cases few : source.hash.me.entries.length < maxThings
  · rw [if_pos few] at gathers ⊢
    obtain ⟨tl, gathered, holds⟩ := gathers
    have count : tl.nused.toNat = (owners source).length := by
      rw [holds.nused]
      rfl
    have reads : ∀ i thing, (owners source)[i]? = some thing →
        (tl.both i).mapError CloneFault.list = .ok thing := by
      intro i thing is
      rw [holds.both is]
      rfl
    -- The loop over the places is one over the owners, and its faults are those of the tables.
    have loop := foldlM_range_read
      (fun ctx thing => (putOwner nrt ctx thing).mapError CloneFault.table)
      reads ctx
    rw [gathered]
    refine Eq.trans ?_ (loop.trans ?_)
    · rw [← count]
      rfl
    · rw [foldlM_mapError, cloneMe, table_ok from_, owners, List.foldlM_map]
      rfl
  · rw [if_neg few] at gathers ⊢
    obtain ⟨fault, gathered⟩ := gathers
    rw [gathered]
    exact ⟨fault, rfl⟩

/-- So are the entries. -/
theorem rtCloneThings_mt (from_ : ctx.tables srt = some source) (nrt : Nat) :
    if source.hash.mt.entries.length < maxThings then
      ctx.rtCloneThings srt nrt .mt = (ctx.cloneMt srt nrt).mapError .table
    else ∃ fault, ctx.rtCloneThings srt nrt .mt = .error (.list fault) := by
  -- The list is gathered first; then each of its entries is put into the new table.
  have gathers := ThingList.gather_gathers (mapped source)
  rw [show (mapped source).length = source.hash.mt.entries.length
    from List.length_map ..] at gathers
  have opened : ctx.rtCloneThings srt nrt .mt =
      (ThingList.gather (mapped source)).mapError CloneFault.list >>= fun tl =>
        (List.range tl.nused.toNat).foldlM (fun ctx i => do
          (ctx.mapRte nrt (← (tl.things.read i).mapError .list)).mapError .table) ctx := by
    rw [rtCloneThings, table_ok from_]
    rfl
  rw [opened]
  by_cases few : source.hash.mt.entries.length < maxThings
  · rw [if_pos few] at gathers ⊢
    obtain ⟨tl, gathered, holds⟩ := gathers
    have count : tl.nused.toNat = ((mapped source).map Prod.snd).length := by
      rw [holds.nused, List.length_map]
      rfl
    have reads : ∀ i id, ((mapped source).map Prod.snd)[i]? = some id →
        (tl.things.read i).mapError CloneFault.list = .ok id := by
      intro i id is
      rw [holds.filled.read is]
      rfl
    have loop := foldlM_range_read (fun ctx id => (mapRte nrt ctx id).mapError CloneFault.table)
      reads ctx
    rw [gathered]
    refine Eq.trans ?_ (loop.trans ?_)
    · rw [← count]
      rfl
    · rw [foldlM_mapError, cloneMt, table_ok from_, mapped, List.map_map, List.foldlM_map]
      rfl
  · rw [if_neg few] at gathers ⊢
    obtain ⟨fault, gathered⟩ := gathers
    rw [gathered]
    exact ⟨fault, rfl⟩

/-- Entries that are cloned have one reference more each. -/
theorem cloneMt_goes (from_ : ctx.tables srt = some source) (there : ctx.tables nrt = some table)
    (filed : ctx.Filed source) :
    ∃ mt, ctx.cloneMt srt nrt =
        .ok (RtCtx.setTable { ctx with rtes := referred ctx.rtes source.hash.mt.lookup } nrt
          { table with hash.mt := mt }) ∧
      ∀ key, mt.lookup key = (source.hash.mt.lookup key).or (table.hash.mt.lookup key) := by
  -- The entries of the source are all filed, so that each of them can be referred to.
  obtain ⟨mt, ran, lookup⟩ := cloneThings_goes source.hash.mt.entries source.hash.mt.nodupKeys there
    fun thing among => filed thing.1 thing.2 (AList.mem_lookup_iff.mpr among)
  exact ⟨mt, bind_eq_ok.mpr ⟨source, table_ok from_, ran⟩, lookup⟩

/-- The managed element ids are cloned first, and then the entries if all is to be cloned. -/
theorem utaRtCloneThings_some (ctx : RtCtx) (srt nrt : Nat) (all : Bool) :
    ctx.utaRtCloneThings (some srt) (some nrt) all = (do
      let mid ← ctx.rtCloneThings srt nrt .me
      let next ← if all then mid.rtCloneThings srt nrt .mt else .ok mid
      return (next, some nrt)) := rfl

/-- With few enough things a table is cloned as it is without the lists. -/
theorem utaRtCloneThings_utaRtClone {all : Bool} (from_ : ctx.tables srt = some source)
    (there : ctx.tables nrt = some table) (apart : srt ≠ nrt)
    (few : source.hash.me.entries.length < maxThings)
    (fewEntries : all = true → source.hash.mt.entries.length < maxThings) :
    ctx.utaRtCloneThings (some srt) (some nrt) all =
      (ctx.utaRtClone Mem.ample (some srt) (some nrt) all).mapError .table := by
  have owners := rtCloneThings_me from_ nrt
  rw [if_pos few] at owners
  obtain ⟨me, ran, -⟩ := cloneMe_ok from_ there
  rw [ran] at owners
  have begun : ctx.utaRtClone Mem.ample (some srt) (some nrt) all = (do
      let mid ← ctx.cloneMe srt nrt
      let next ← if all then mid.cloneMt srt nrt else .ok mid
      return (next, some nrt)) := rfl
  rw [utaRtCloneThings_some, owners, begun, ran]
  cases all with
  | false => rfl
  | true =>
    have midFrom : (ctx.setTable nrt { table with hash.me := me }).tables srt = some source :=
      (Function.update_of_ne apart _ _).trans from_
    have entries := rtCloneThings_mt midFrom nrt
    rw [if_pos (fewEntries rfl)] at entries
    -- Renaming a fault does not change where it ends the clone.
    change ((ctx.setTable nrt { table with hash.me := me }).rtCloneThings srt nrt
      .mt >>= fun next =>
      .ok (next, some nrt)) = _
    rw [entries]
    change _ = Except.mapError CloneFault.table
      ((ctx.setTable nrt { table with hash.me := me }).cloneMt srt nrt >>= fun next =>
        .ok (next, some nrt))
    cases (ctx.setTable nrt { table with hash.me := me }).cloneMt srt nrt with
    | error fault => rfl
    | ok next => rfl

/-- The entries of each table of a process are there, each under its own key. -/
theorem Sound.filed (sound : ctx.Sound) (there : ctx.tables srt = some source) :
    ctx.Filed source := by
  intro key id found
  obtain ⟨refs, is⟩ := sound.held there found
  obtain ⟨rte, rteIs, obj⟩ := Option.map_eq_some_iff.mp is
  exact ⟨rte, rteIs, congrArg Prod.fst obj⟩

/-- A table is cloned into another one that is there, exactly if there are few enough things. -/
theorem cloneInto_iff {all : Bool} (from_ : ctx.tables srt = some source) (filed : ctx.Filed source)
    (there : ctx.tables nrt = some table) (empty : table.hash = ⟨∅, ∅⟩)
    (error : table.error = false) (apart : srt ≠ nrt) :
    (∃ next, ctx.utaRtCloneThings (some srt) (some nrt) all = .ok (next, some nrt) ∧
        ctx.Cloned source nrt all next) ↔
      source.hash.me.entries.length < maxThings ∧
        (all = true → source.hash.mt.entries.length < maxThings) := by
  have owners := rtCloneThings_me from_ nrt
  by_cases few : source.hash.me.entries.length < maxThings
  swap
  · -- The managed element ids are cloned first, and there are too many of them.
    rw [if_neg few] at owners
    obtain ⟨fault, stopped⟩ := owners
    refine iff_of_false ?_ fun small => few small.1
    intro done
    obtain ⟨next, cloned, -⟩ := done
    rw [utaRtCloneThings_some, stopped] at cloned
    cases cloned
  rw [if_pos few] at owners
  obtain ⟨me, ran, lookup⟩ := cloneMe_ok from_ there
  obtain ⟨mid, midIs⟩ : ∃ mid, mid = ctx.setTable nrt { table with hash.me := me } := ⟨_, rfl⟩
  rw [ran, ← midIs] at owners
  have midThere : mid.tables nrt = some { table with hash.me := me } := by
    simp [midIs, setTable]
  have midOthers : ∀ rt, rt ≠ nrt → mid.tables rt = ctx.tables rt := by
    intro rt other
    simp [midIs, setTable, other]
  have midRtes : mid.rtes = ctx.rtes := by
    rw [midIs]
    rfl
  have ids : ∀ meid, me.lookup meid = source.hash.me.lookup meid := by
    intro meid
    simp [lookup, empty]
  cases all with
  | false =>
    -- Only the managed element ids are asked for.
    refine iff_of_true ⟨mid, ?_, ⟨_, midThere, error, ids, ?_⟩, midOthers, ?_⟩
      ⟨few, fun asked => absurd asked Bool.false_ne_true⟩
    · rw [utaRtCloneThings_some, owners]
      rfl
    · intro key
      simp [empty]
    · intro id
      simp [midRtes]
  | true =>
    have midFrom : mid.tables srt = some source := (midOthers srt apart).trans from_
    have midFiled : mid.Filed source := by
      rw [Filed, midRtes]
      exact filed
    have entries := rtCloneThings_mt midFrom nrt
    by_cases some_ : source.hash.mt.entries.length < maxThings
    · rw [if_pos some_] at entries
      obtain ⟨mt, cloned, keys⟩ := cloneMt_goes midFrom midThere midFiled
      rw [cloned] at entries
      refine iff_of_true ⟨RtCtx.setTable { mid with
          rtes := referred mid.rtes source.hash.mt.lookup } nrt
            { table with hash := ⟨mt, me⟩ }, ?_,
        ⟨_, Function.update_self _ _ _, error, ids, ?_⟩, ?_, ?_⟩ ⟨few, fun _ => some_⟩
      · refine (utaRtCloneThings_some ctx srt nrt true).trans ?_
        rw [owners]
        exact bind_eq_ok.mpr ⟨mid, rfl, bind_eq_ok.mpr ⟨_, entries, rfl⟩⟩
      · intro key
        simp [keys, empty]
      · intro rt other
        exact (Function.update_of_ne other _ _).trans (midOthers rt other)
      · intro id
        simp [setTable, referred, midRtes]
    · rw [if_neg some_] at entries
      obtain ⟨fault, stopped⟩ := entries
      refine iff_of_false ?_ fun small => some_ (small.2 rfl)
      intro done
      obtain ⟨next, cloned, -⟩ := done
      rw [utaRtCloneThings_some, owners] at cloned
      obtain ⟨_, midIs', cloned⟩ := bind_eq_ok.mp cloned
      cases midIs'
      obtain ⟨last, lastIs, -⟩ := bind_eq_ok.mp cloned
      have both := stopped.symm.trans lastIs
      cases both

/-- A route table is cloned as it should be exactly if the number of managed element ids, and that
of entries where they are cloned, is one that the lists can be made large enough for. -/
theorem utaRtClone_clones_iff {drt : Option Nat} {all : Bool} (from_ : ctx.tables srt = some source)
    (filed : ctx.Filed source) (vacant : ctx.Vacant drt) (apart : srt ≠ drt.getD ctx.nextTable) :
    (∃ next, ctx.utaRtCloneThings (some srt) drt all = .ok (next, some (drt.getD ctx.nextTable)) ∧
        ctx.Cloned source (drt.getD ctx.nextTable) all next) ↔
      source.hash.me.entries.length < maxThings ∧
        (all = true → source.hash.mt.entries.length < maxThings) := by
  cases drt with
  | some nrt =>
    obtain ⟨table, there, empty, error⟩ := vacant nrt rfl
    exact cloneInto_iff from_ filed there empty error apart
  | none =>
    -- A table is allocated first; it differs from the one that is cloned.
    have begun : ctx.utaRtCloneThings (some srt) none all =
        (ctx.utaRtInit true).1.utaRtCloneThings (some srt) (some ctx.nextTable) all := rfl
    have apart : srt ≠ ctx.nextTable := apart
    have start := @cloneInto_iff (ctx.utaRtInit true).1 srt ctx.nextTable source
      RouteTable.empty all
      (by simp [utaRtInit, apart, from_]) filed (by simp [utaRtInit]) rfl rfl apart
    have others : ∀ next, (ctx.utaRtInit true).1.Cloned source ctx.nextTable all next ↔
        ctx.Cloned source ctx.nextTable all next := by
      intro next
      have kept : ∀ rt, rt ≠ ctx.nextTable →
          (ctx.utaRtInit true).1.tables rt = ctx.tables rt := by
        intro rt other
        simp [utaRtInit, other]
      constructor
      · intro cloned
        exact ⟨cloned.copy, fun rt other => (cloned.others rt other).trans (kept rt other),
          cloned.refs⟩
      · intro cloned
        exact ⟨cloned.copy, fun rt other => (cloned.others rt other).trans (kept rt other).symm,
          cloned.refs⟩
    simp only [Option.getD_none, begun]
    rw [← start]
    simp only [others]

/-- As many managed element ids as asked for, of one owner. -/
def manyOwners (count : Nat) : AList fun _ : CStr => CStr where
  entries := (List.range count).map fun i => ⟨List.replicate i 'x', ['a', ':', '1']⟩
  nodupKeys := by
    -- They differ in their lengths.
    rw [List.NodupKeys, List.keys, List.map_map]
    refine List.Nodup.map (fun i j same => ?_) List.nodup_range
    simpa using congrArg List.length same

/-- As many entries, whose keys are their numbers. -/
def manyEntries (count : Nat) (small : count ≤ 18446744073709551616) :
    AList fun _ : UInt64 => Nat where
  entries := (List.range count).map fun i => ⟨UInt64.ofNat i, i⟩
  nodupKeys := by
    rw [List.NodupKeys, List.keys, List.map_map]
    refine List.Nodup.map_on (fun i low j high same => ?_) List.nodup_range
    have low := List.mem_range.mp low
    have high := List.mem_range.mp high
    have same := congrArg UInt64.toNat same
    simp only [Function.comp_apply, UInt64.toNat_ofNat'] at same
    omega

section
variable {count : Nat} (small : count ≤ 18446744073709551616)

/-- A table with both. -/
def largeTable : RouteTable :=
  { RouteTable.empty with hash := ⟨manyEntries count small, manyOwners count⟩ }

/-- A process with that table. -/
def largeCtx : RtCtx :=
  { RtCtx.init with
    rtes := fun id => some ⟨⟨UInt64.ofNat id, id, []⟩, 1⟩
    tables := Function.update (fun _ => none) 0 (some (largeTable small)) }

/-- Each entry is there, under its own key. -/
theorem largeCtx_filed : (largeCtx small).Filed (largeTable small) := by
  -- Each entry is at the address that its key tells.
  intro key id found
  have among : (⟨key, id⟩ : Sigma fun _ : UInt64 => Nat) ∈
      (List.range count).map fun i => ⟨UInt64.ofNat i, i⟩ := AList.mem_lookup_iff.mp found
  obtain ⟨i, -, is⟩ := List.mem_map.mp among
  cases is
  exact ⟨_, rfl, rfl⟩

/-- There are as many of each as asked for. -/
theorem largeTable_length : (largeTable small).hash.mt.entries.length = count ∧
    (largeTable small).hash.me.entries.length = count := by
  simp [largeTable, manyEntries, manyOwners]

end

/-- There are keys for so many entries. -/
theorem fewEnough : 5000 ≤ 18446744073709551616 := by decide

/-- A table with more things than the lists start with room for, so that they are made larger three
times, is cloned into a new one. -/
theorem utaRtClone_clones_large : ∃ next,
    (largeCtx fewEnough).utaRtCloneThings (some 0) none true = .ok (next, some 1) ∧
      (largeCtx fewEnough).Cloned (largeTable fewEnough) 1 true next := by
  -- The sizes of both lists are decided; the theorem then gives the clone.
  obtain ⟨entries, owners⟩ := largeTable_length fewEnough
  have vacant : (largeCtx fewEnough).Vacant none :=
    fun _ same => absurd same.symm (Option.some_ne_none _)
  refine (@utaRtClone_clones_iff (largeCtx fewEnough) 0 (largeTable fewEnough) none true rfl
    (largeCtx_filed fewEnough) vacant (by decide)).mpr ⟨?_, fun _ => ?_⟩
  · rw [owners]
    decide
  · rw [entries]
    decide

/-- A table with them, and nothing else. -/
def crowdedTable (count : Nat) : RouteTable :=
    { RouteTable.empty with hash := ⟨∅, manyOwners count⟩ }

/-- A process with that table. -/
def crowded (count : Nat) : RtCtx :=
  { RtCtx.init with tables := Function.update (fun _ => none) 0 (some (crowdedTable count)) }

/-- It is not cloned if there are too many of them. -/
theorem crowded_uncloned {count : Nat} (many : maxThings ≤ count) :
    ¬ ∃ next, (crowded count).utaRtCloneThings (some 0) none false = .ok (next, some 1) ∧
      (crowded count).Cloned (crowdedTable count) 1 false next := by
  -- The owners are gathered before the entries, and stop the clone by themselves.
  have from_ : ((crowded count).utaRtInit true).1.tables 0 = some (crowdedTable count) := rfl
  have length : (crowdedTable count).hash.me.entries.length = count := by
    simp [crowdedTable, manyOwners]
  have owners := rtCloneThings_me from_ 1
  rw [if_neg (by omega)] at owners
  obtain ⟨fault, stopped⟩ := owners
  intro done
  obtain ⟨next, cloned, -⟩ := done
  have begun : (crowded count).utaRtCloneThings (some 0) none false =
      ((crowded count).utaRtInit true).1.utaRtCloneThings (some 0) (some 1) false := rfl
  rw [begun, utaRtCloneThings_some, stopped] at cloned
  cases cloned

/-- Where there are 1988069724 managed element ids, the size of the lists that they are gathered in
overflows. -/
theorem utaRtClone_overflows :
    ¬ ∃ next, (crowded 1988069724).utaRtCloneThings (some 0) none false = .ok (next, some 1) ∧
      (crowded 1988069724).Cloned (crowdedTable 1988069724) 1 false next :=
  crowded_uncloned (Nat.le_refl maxThings)

end RtCtx

end Rmr
