import Rmr.Transport.Wormhole

/-! Wormhole ids refer to what they were opened for. -/

namespace Rmr

variable {eps : List (Option CStr)} {ep : CStr}

/-- More places that are empty change nothing. -/
theorem slotAt_append (eps : List (Option CStr)) (more : Nat) (whid : Int) :
    slotAt (eps ++ List.replicate more none) whid = slotAt eps whid := by
  unfold slotAt
  split
  · rfl
  · by_cases inside : whid.toNat < eps.length
    · rw [List.getElem?_append_left inside]
    · -- Behind the list there is nothing, or an empty place.
      rw [List.getElem?_append_right (Nat.not_lt.mp inside), List.getElem?_replicate,
        List.getElem?_eq_none (Nat.not_lt.mp inside)]
      split
      · rfl
      · rfl

/-- A place that is changed is the only one. -/
theorem slotAt_set {place : Nat} (inside : place < eps.length) (slot : Option CStr) (whid : Int) :
    slotAt (eps.set place slot) whid = if whid = place then slot else slotAt eps whid := by
  -- An id that is negative is at no place; any other one is at the place or at another.
  unfold slotAt
  by_cases negative : whid < 0
  · have other : ¬ whid = place := by omega
    rw [if_pos negative, if_neg other, if_pos negative]
  · rw [if_neg negative, if_neg negative]
    by_cases same : whid = place
    · subst same
      rw [if_pos rfl, Int.toNat_natCast, List.getElem?_set_self inside]
      rfl
    · have other : place ≠ whid.toNat := by omega
      rw [if_neg same, List.getElem?_set_ne other]

/-- What is at an id is in the list there. -/
theorem slotAt_eq_some {whid : Int} : slotAt eps whid = some ep ↔
    ∃ place : Nat, whid = place ∧ eps[place]? = some (some ep) := by
  -- An id that is negative has nothing; any other one is the place in the list.
  unfold slotAt
  by_cases negative : whid < 0
  · rw [if_pos negative]
    constructor
    · nofun
    · rintro ⟨place, rfl, _⟩
      omega
  · obtain ⟨place, rfl⟩ := Int.eq_ofNat_of_zero_le (Int.not_lt.mp negative)
    rw [if_neg negative, Int.toNat_natCast, Option.join_eq_some_iff]
    constructor
    · intro there
      exact ⟨place, rfl, there⟩
    · rintro ⟨other, same, there⟩
      rwa [Int.ofNat_inj.mp same]

/-- The loop stops at the first place with the endpoint. -/
theorem whScan_found (isOpen : Bool) (nalloc : Nat) {slots : List (Option CStr)} {at_ : Nat}
    (there : slots[at_]? = some (some ep)) (first : ∀ before < at_, slots[before]? ≠ some (some ep))
    (i whid : Nat) : whScan ep isOpen nalloc slots i whid =
      if isOpen then .live (i + at_) else .place (i + at_) := by
  -- By induction on the slots in front of the place.
  induction slots generalizing i whid at_ with
  | nil => cases there
  | cons slot slots ih =>
    unfold whScan
    cases at_ with
    | zero =>
      obtain rfl := Option.some.inj there
      simp
    | succ at_ =>
      have other : slot ≠ some ep := by
        intro same
        exact first 0 (Nat.succ_pos _) (by rw [same]; rfl)
      simp only [other, if_false]
      rw [ih there (fun before below => first (before + 1) (Nat.succ_lt_succ below)),
        show i + 1 + at_ = i + (at_ + 1) by omega]

/-- Without the endpoint the loop finds the place saved before, or one that is empty. -/
theorem whScan_absent (isOpen : Bool) (nalloc : Nat) {slots : List (Option CStr)}
    (absent : some ep ∉ slots) (i whid : Nat) :
    ∃ place, whScan ep isOpen nalloc slots i whid = .place place ∧
      (place = whid ∨ ∃ idx, place = i + idx ∧ slots[idx]? = some none) := by
  induction slots generalizing i whid with
  | nil => exact ⟨whid, rfl, Or.inl rfl⟩
  | cons slot slots ih =>
    have other : slot ≠ some ep := fun same => absent (same ▸ List.mem_cons_self)
    unfold whScan
    simp only [other, if_false]
    obtain ⟨place, found, which⟩ := ih (fun among => absent (List.mem_cons_of_mem _ among)) (i + 1)
      (if whid = nalloc ∧ slot = none then i else whid)
    refine ⟨place, found, ?_⟩
    rcases which with saved | ⟨idx, rfl, empty⟩
    · -- The place was saved before, or just now.
      by_cases first : whid = nalloc ∧ slot = none
      · rw [if_pos first] at saved
        exact Or.inr ⟨0, saved, by rw [first.2]; rfl⟩
      · rw [if_neg first] at saved
        exact Or.inl saved
    · exact Or.inr ⟨idx + 1, by omega, empty⟩

namespace WhCtx

variable {ctx : WhCtx} {target : CStr}

/-- Before the first wormhole was opened the ids refer to as much as in an empty list. -/
theorem refers_whInit (ctx : WhCtx) (whid : Int) : ctx.refers whid = slotAt ctx.whInit whid := by
  unfold refers whInit
  cases ctx.wormholes with
  | some eps => rfl
  | none => exact ((slotAt_append [] 16 whid).trans (by simp [slotAt])).symm

/-- Once a wormhole was opened, the list is there. -/
theorem whInit_of_some {eps : List (Option CStr)} (list : ctx.wormholes = some eps) :
    ctx.whInit = eps := by
  rw [whInit, list]
  rfl

/-- There is an endpoint for every name. -/
theorem ensure_target (ephash : List CStr) (named : target ≠ []) :
    (RtCtx.rtEnsureEp ephash true target).2 = some target := by
  -- A name that is there is found, and any other one is put in.
  unfold RtCtx.rtEnsureEp
  rw [if_neg named]
  split
  · rfl
  · rfl

/-- What `rmr_wh_open` does for a target that is in the list. -/
theorem rmrWhOpen_known (connects : Bool) (named : target ≠ []) {at_ : Nat}
    (there : ctx.whInit[at_]? = some (some target))
    (first : ∀ before < at_, ctx.whInit[before]? ≠ some (some target)) :
    (ctx.rmrWhOpen (some target) connects).1.wormholes = some ctx.whInit ∧
      (ctx.rmrWhOpen (some target) connects).2 =
        if ctx.opened target = true ∨ connects = true then (at_ : Int) else -1 := by
  obtain ⟨inside, is⟩ := List.getElem?_eq_some_iff.mp there
  have ensured : RtCtx.rtEnsureEp ctx.ephash true target =
      ((RtCtx.rtEnsureEp ctx.ephash true target).1, some target) :=
    Prod.ext rfl (ensure_target ctx.ephash named)
  have scan := whScan_found (ctx.opened target) ctx.whInit.length there first 0 ctx.whInit.length
  rw [Nat.zero_add] at scan
  unfold rmrWhOpen
  dsimp only
  rw [if_neg named, ensured]
  dsimp only
  rw [scan]
  cases isOpen : ctx.opened target with
  | true => exact ⟨rfl, by simp⟩
  | false =>
    -- It is known, but not open: it is put where it is already.
    have same : ctx.whInit.set at_ (some target) = ctx.whInit := by
      rw [← is, List.set_getElem_self]
    cases connects with
    | true => simp [Nat.not_le.mpr inside, same]
    | false => simp [Nat.not_le.mpr inside]

/-- What `rmr_wh_open` does for a target that is not in the list. -/
theorem rmrWhOpen_new (connects : Bool) (named : target ≠ []) (absent : some target ∉ ctx.whInit) :
    ∃ (place more : Nat), slotAt ctx.whInit place = none ∧ place < ctx.whInit.length + more ∧
      (ctx.rmrWhOpen (some target) connects).2 =
        (if ctx.opened target = true ∨ connects = true then (place : Int) else -1) ∧
      (ctx.rmrWhOpen (some target) connects).1.wormholes =
        some (if ctx.opened target = true ∨ connects = true then
          (ctx.whInit ++ List.replicate more none).set place (some target)
        else ctx.whInit ++ List.replicate more none) := by
  have ensured : RtCtx.rtEnsureEp ctx.ephash true target =
      ((RtCtx.rtEnsureEp ctx.ephash true target).1, some target) :=
    Prod.ext rfl (ensure_target ctx.ephash named)
  obtain ⟨place, scan, which⟩ := whScan_absent (ctx.opened target) ctx.whInit.length absent 0
    ctx.whInit.length
  -- The list is extended when it has no place left.
  obtain ⟨more, moreIs⟩ : ∃ more, more = if ctx.whInit.length ≤ place then 16 else 0 := ⟨_, rfl⟩
  have extended : (if ctx.whInit.length ≤ place then whExtend ctx.whInit else ctx.whInit) =
      ctx.whInit ++ List.replicate more none := by
    rw [moreIs]
    split
    · rfl
    · simp
  refine ⟨place, more, ?_, ?_, ?_⟩
  · rcases which with rfl | ⟨idx, rfl, empty⟩
    · simp [slotAt]
    · rw [Nat.zero_add]
      simp [slotAt, empty]
  · rw [moreIs]
    split
    · rcases which with rfl | ⟨idx, rfl, empty⟩
      · omega
      · obtain ⟨inside, _⟩ := List.getElem?_eq_some_iff.mp empty
        omega
    · omega
  · unfold rmrWhOpen
    dsimp only
    rw [if_neg named, ensured]
    dsimp only
    rw [scan]
    dsimp only
    rw [extended]
    cases isOpen : ctx.opened target with
    | true => simp
    | false =>
      cases connects with
      | true => simp
      | false => simp

/-- What `rmr_wh_open` comes to, as far as ids are concerned. -/
inductive Opened (ctx : WhCtx) (target : CStr) (connects : Bool) (next : WhCtx) (id : Int) :
    Prop where
  /-- Nothing but empty places was added. -/
  | failed (is : id = -1)
    (list : ∃ more, next.wormholes = some (ctx.whInit ++ List.replicate more none))
    (closed : ctx.opened target = false ∧ connects = false)
  /-- The target is at a place that it had already, or that was empty; it had no other one. -/
  | done (place more : Nat) (is : id = place) (within : place < ctx.whInit.length + more)
    (list : next.wormholes =
      some ((ctx.whInit ++ List.replicate more none).set place (some target)))
    (vacant : slotAt ctx.whInit place = none ∨ slotAt ctx.whInit place = some target)
    (only : ∀ whid, slotAt ctx.whInit whid = some target →
      slotAt ctx.whInit place = some target)

/-- `rmr_wh_open` opens the target, or fails. -/
theorem rmrWhOpen_opened (ctx : WhCtx) (connects : Bool) (named : target ≠ []) :
    Opened ctx target connects (ctx.rmrWhOpen (some target) connects).1
      (ctx.rmrWhOpen (some target) connects).2 := by
  by_cases among : some target ∈ ctx.whInit
  · -- The first place with the target is the one that is found.
    obtain ⟨at_, there⟩ := List.mem_iff_getElem?.mp among
    have some_ : ∃ at_, ctx.whInit[at_]? = some (some target) := ⟨at_, there⟩
    obtain ⟨first, found, before⟩ : ∃ first, ctx.whInit[first]? = some (some target) ∧
        ∀ before < first, ctx.whInit[before]? ≠ some (some target) :=
      ⟨Nat.find some_, Nat.find_spec some_, fun before below => Nat.find_min some_ below⟩
    obtain ⟨list, result⟩ := rmrWhOpen_known connects named found before
    obtain ⟨inside, is⟩ := List.getElem?_eq_some_iff.mp found
    rw [result]
    by_cases works : ctx.opened target = true ∨ connects = true
    · rw [if_pos works]
      have same : (ctx.whInit ++ List.replicate 0 none).set first (some target) = ctx.whInit := by
        rw [List.replicate_zero, List.append_nil, ← is, List.set_getElem_self]
      have own : slotAt ctx.whInit first = some target := slotAt_eq_some.mpr ⟨first, rfl, found⟩
      exact .done first 0 rfl (by omega) (same.symm ▸ list) (Or.inr own) (fun _ _ => own)
    · rw [if_neg works]
      exact .failed rfl ⟨0, by simpa using list⟩ (by simpa using works)
  · obtain ⟨place, more, vacant, within, result, list⟩ := rmrWhOpen_new connects named among
    rw [result]
    by_cases works : ctx.opened target = true ∨ connects = true
    · rw [if_pos works] at list ⊢
      refine .done place more rfl within list (Or.inl vacant) ?_
      intro whid there
      obtain ⟨other, _, at_⟩ := slotAt_eq_some.mp there
      exact absurd (List.mem_of_getElem? at_) among
    · rw [if_neg works] at list ⊢
      exact .failed rfl ⟨more, list⟩ (by simpa using works)

/-- What ids refer to after an attempt that failed. -/
theorem refers_failed {next : WhCtx} {more : Nat}
    (list : next.wormholes = some (ctx.whInit ++ List.replicate more none)) (whid : Int) :
    next.refers whid = ctx.refers whid := by
  rw [refers_whInit ctx, refers, list]
  exact slotAt_append ctx.whInit more whid

/-- What ids refer to after an attempt that went well. -/
theorem refers_done {next : WhCtx} {place more : Nat} (within : place < ctx.whInit.length + more)
    (list : next.wormholes =
      some ((ctx.whInit ++ List.replicate more none).set place (some target))) (whid : Int) :
    next.refers whid = if whid = place then some target else ctx.refers whid := by
  -- The place is within the list that was grown, and all other places are as before.
  have inside : place < (ctx.whInit ++ List.replicate more (none : Option CStr)).length := by
    simpa using within
  rw [refers, list, Option.bind_some, slotAt_set inside, slotAt_append, refers_whInit]

/-- Opening a wormhole for nothing does nothing. -/
theorem rmrWhOpen_unnamed (ctx : WhCtx) (connects : Bool) :
    ctx.rmrWhOpen (some []) connects = (ctx, -1) := by
  rfl

/-- What ids refer to after an id was closed. -/
theorem refers_close (ctx : WhCtx) (whid other : Int) :
    (ctx.rmrWhClose whid).refers other = if other = whid then none else ctx.refers other := by
  unfold rmrWhClose
  cases list : ctx.wormholes with
  | none => simp [refers, list]
  | some eps =>
    dsimp only
    by_cases outside : (eps.length : Int) ≤ whid ∨ whid < 0
    · -- An id that is out of range refers to nothing as it is.
      rw [if_pos outside]
      split
      · rename_i same
        subst same
        rw [refers, list, Option.bind_some, slotAt]
        split
        · rfl
        · rw [List.getElem?_eq_none (by omega)]
          rfl
      · rfl
    · rw [if_neg outside]
      obtain ⟨place, rfl⟩ := Int.eq_ofNat_of_zero_le (by omega : 0 ≤ whid)
      have inside : place < eps.length := by omega
      rw [refers, Option.bind_some, Int.toNat_natCast, slotAt_set inside, refers, list,
        Option.bind_some]

/-- Reopening an endpoint that has an id changes no id. -/
theorem refers_reopen {ep : CStr} {own : Int} (there : ctx.refers own = some ep) (named : ep ≠ [])
    (connects : Bool) (whid : Int) :
    (ctx.whReopen ep connects).refers whid = ctx.refers whid := by
  unfold whReopen
  split
  · rfl
  · have opened := rmrWhOpen_opened ctx connects named
    generalize ctx.rmrWhOpen (some ep) connects = result at opened
    obtain ⟨next, id⟩ := result
    cases opened with
    | failed _ list _ =>
      obtain ⟨more, list⟩ := list
      exact refers_failed list whid
    | done place more _ within list _ only =>
      -- The place is the one that the endpoint has.
      have same := only own ((refers_whInit ctx own).symm.trans there)
      rw [refers_done within list]
      split
      · rename_i here
        rw [here, refers_whInit, same]
      · rfl

end WhCtx

namespace WhSys

variable {sys : WhSys}

/-- The ids that the application holds refer to what it opened them for, each to another endpoint.
-/
structure Sound (sys : WhSys) : Prop where
  refers : ∀ whid, sys.ctx.refers whid = sys.held whid
  distinct : ∀ whid other target, sys.held whid = some target → sys.held other = some target →
    whid = other
  named : ∀ whid, sys.held whid ≠ some []

/-- Sends and calls change no id. -/
theorem Sound.reopens (sound : sys.Sound) {whid : Int} {ep : CStr}
    (checked : sys.ctx.whCheck whid = .ok ep) (connects : Bool) (other : Int) :
    (sys.ctx.whReopen ep connects).refers other = sys.ctx.refers other := by
  -- A call was checked, so that its id refers to an endpoint that stays when it is opened again.
  have there : sys.ctx.refers whid = some ep := by
    unfold WhCtx.whCheck at checked
    split at checked
    · cases checked
    · split at checked
      · cases checked
      · rename_i found
        exact found.trans (congrArg some (Except.ok.inj checked))
  have held := (sound.refers whid).symm.trans there
  apply WhCtx.refers_reopen there
  intro unnamed
  exact sound.named whid (unnamed ▸ held)

/-- Where no id changes, those that are held stay sound. -/
theorem Sound.same (sound : sys.Sound) {next : WhCtx}
    (same : ∀ whid, next.refers whid = sys.ctx.refers whid) : Sound ⟨next, sys.held⟩ where
  refers := fun whid => (same whid).trans (sound.refers whid)
  distinct := sound.distinct
  named := sound.named

/-- A place is given to a target, which no other id is held for. -/
theorem Sound.gives (sound : sys.Sound) {next : WhCtx} {place : Int} {target : CStr}
    (named : target ≠ [])
    (given : ∀ whid, next.refers whid = if whid = place then some target else sys.ctx.refers whid)
    (own : ∀ whid, sys.held whid = some target → whid = place) :
    Sound ⟨next, Function.update sys.held place (some target)⟩ := by
  constructor
  · intro whid
    rw [given, sound.refers]
    exact (Function.update_apply ..).symm
  · intro whid other ep there same
    -- Whichever of the two was given just now, the other one is it too.
    dsimp only at there same
    rw [Function.update_apply] at there same
    split at there
    · rename_i here
      obtain rfl := Option.some.inj there
      split at same
      · rename_i also
        rw [here, also]
      · exact here.trans (own other same).symm
    · split at same
      · rename_i here
        obtain rfl := Option.some.inj same
        exact (own whid there).trans here.symm
      · exact sound.distinct whid other ep there same
  · intro whid empty
    dsimp only at empty
    rw [Function.update_apply] at empty
    split at empty
    · exact named (Option.some.inj empty)
    · exact sound.named whid empty

/-- Opening a wormhole gives the target a place that it may have had before, or changes no id. -/
theorem Sound.open_ (sound : sys.Sound) (target : Option CStr) (connects : Bool) :
    (sys.step (.open_ target connects)).Sound := by
  cases target with
  | none => exact sound.same fun _ => rfl
  | some target =>
    by_cases named : target = []
    · subst named
      exact sound.same fun _ => rfl
    · have opened := WhCtx.rmrWhOpen_opened sys.ctx connects named
      show Sound ⟨(sys.ctx.rmrWhOpen (some target) connects).1,
        if (sys.ctx.rmrWhOpen (some target) connects).2 < 0 then sys.held
        else Function.update sys.held (sys.ctx.rmrWhOpen (some target) connects).2 (some target)⟩
      generalize sys.ctx.rmrWhOpen (some target) connects = result at opened ⊢
      obtain ⟨next, id⟩ := result
      cases opened with
      | failed is list _ =>
        obtain ⟨more, list⟩ := list
        obtain rfl : id = -1 := is
        exact sound.same (WhCtx.refers_failed list)
      | done place more is within list vacant only =>
        obtain rfl : id = place := is
        have ranged : ¬ ((place : Int) < 0) := by omega
        dsimp only
        rw [if_neg ranged]
        refine sound.gives named (WhCtx.refers_done within list) fun whid there => ?_
        -- An id that was held for the target before is the one that is returned.
        have same := only whid (by rw [← WhCtx.refers_whInit, sound.refers, there])
        rw [← WhCtx.refers_whInit, sound.refers] at same
        exact sound.distinct whid place target there same

/-- An id that is closed is held no more, and refers to nothing. -/
theorem Sound.close (sound : sys.Sound) (whid : Int) : (sys.step (.close whid)).Sound := by
  constructor
  · intro other
    show (sys.ctx.rmrWhClose whid).refers other = Function.update sys.held whid none other
    rw [WhCtx.refers_close, Function.update_apply, sound.refers]
  · intro one other target there same
    have there : Function.update sys.held whid none one = some target := there
    have same : Function.update sys.held whid none other = some target := same
    rw [Function.update_apply] at there same
    split at there
    · cases there
    · split at same
      · cases same
      · exact sound.distinct one other target there same
  · intro one empty
    have empty : Function.update sys.held whid none one = some [] := empty
    rw [Function.update_apply] at empty
    split at empty
    · cases empty
    · exact sound.named one empty

/-- Every event keeps the ids as they are held. -/
theorem Sound.step (sound : sys.Sound) (event : WhEvent) : (sys.step event).Sound := by
  -- By the event; a send and a call look the id up, and may open its endpoint again.
  cases event with
  | open_ target connects => exact sound.open_ target connects
  | close whid => exact sound.close whid
  | send whid hasHeader connects result =>
    refine sound.same fun other => ?_
    unfold WhCtx.rmrWhSendMsg
    split
    · rfl
    · rename_i ep checked
      split
      · rfl
      · exact sound.reopens checked connects other
  | call whid hasHeader connects =>
    refine sound.same fun other => ?_
    unfold WhCtx.rmrWhCall
    split
    · rfl
    · rename_i ep checked
      split
      · rfl
      · exact sound.reopens checked connects other
  | link ep isOpen => exact ⟨sound.refers, sound.distinct, sound.named⟩

/-- No wormhole was opened, and none is held. -/
theorem init_sound : init.Sound where
  refers := fun _ => rfl
  distinct := nofun
  named := nofun

/-- In every run the ids that are held refer to what they were opened for. -/
theorem sound_run (events : List WhEvent) : (run events).Sound := by
  -- By induction on the events, each of which keeps the ids sound.
  have all : ∀ (events : List WhEvent) (sys : WhSys), sys.Sound →
      Sound (events.foldl step sys) := by
    intro events
    induction events with
    | nil => exact fun _ sound => sound
    | cons event events ih => exact fun sys sound => ih _ (sound.step event)
  exact all events init init_sound

/-- Without a name nothing is opened, and nothing is held for it. -/
theorem Sound.opens_unnamed (sound : sys.Sound) (connects : Bool) : Opens sys [] connects := by
  have nothing := WhCtx.rmrWhOpen_unnamed sys.ctx connects
  constructor
  · rw [nothing]
    have minus : ¬ (0 : Int) ≤ -1 := by decide
    exact fun ranged => absurd ranged minus
  · exact fun other => absurd rfl other
  · intro whid there
    exact absurd there (sound.named whid)
  · intro whid other there _ same
    -- The id -1 would be held, but no place has it.
    rw [nothing] at same
    have unheld := sound.refers whid
    rw [there, ← same, WhCtx.refers_whInit] at unheld
    cases unheld
  · rw [nothing]
    exact fun _ _ => rfl
  · intro eps list
    refine ⟨0, ?_⟩
    rw [nothing]
    simp [list]

/-- An attempt that fails adds empty places at most, and it fails for want of a connection. -/
theorem Sound.opens_failed (sound : sys.Sound) {target : CStr} {connects : Bool} {next : WhCtx}
    {more : Nat} (outcome : sys.ctx.rmrWhOpen (some target) connects = (next, -1))
    (list : next.wormholes = some (sys.ctx.whInit ++ List.replicate more none))
    (closed : sys.ctx.opened target = false ∧ connects = false) : Opens sys target connects := by
  have minus : ¬ (0 : Int) ≤ -1 := by decide
  have unconnected : ¬ (sys.ctx.opened target = true ∨ connects = true) := by
    rw [closed.1, closed.2]
    decide
  constructor
  · rw [outcome]
    exact fun ranged => absurd ranged minus
  · exact fun _ works => absurd works unconnected
  · exact fun _ _ works => absurd works unconnected
  · intro whid other there _ same
    rw [outcome] at same
    rw [← sound.refers, ← same, WhCtx.refers_whInit] at there
    cases there
  · rw [outcome]
    exact fun _ whid => WhCtx.refers_failed list whid
  · intro eps here
    refine ⟨more, ?_⟩
    rw [outcome, ← WhCtx.whInit_of_some here]
    exact list

/-- An attempt that goes well returns the place that the target has now, and had before if it had
one. -/
theorem Sound.opens_done (sound : sys.Sound) {target : CStr} {connects : Bool} {next : WhCtx}
    {place more : Nat} (outcome : sys.ctx.rmrWhOpen (some target) connects = (next, (place : Int)))
    (within : place < sys.ctx.whInit.length + more)
    (list : next.wormholes =
      some ((sys.ctx.whInit ++ List.replicate more none).set place (some target)))
    (vacant : slotAt sys.ctx.whInit place = none ∨ slotAt sys.ctx.whInit place = some target)
    (only : ∀ whid, slotAt sys.ctx.whInit whid = some target →
      slotAt sys.ctx.whInit place = some target) : Opens sys target connects := by
  have held : ∀ whid, slotAt sys.ctx.whInit whid = sys.held whid := by
    intro whid
    rw [← WhCtx.refers_whInit, sound.refers]
  have ranged : ¬ ((place : Int) < 0) := by omega
  constructor
  · rw [outcome]
    intro _
    refine ⟨_, list, ?_⟩
    have long : ((sys.ctx.whInit ++ List.replicate more none).set place
        (some target)).length = sys.ctx.whInit.length + more := by
      simp
    rw [long]
    exact Int.ofNat_lt.mpr within
  · intro _ _
    rw [outcome]
    exact ⟨Int.natCast_nonneg place, (WhCtx.refers_done within list place).trans (if_pos rfl)⟩
  · intro whid there _
    rw [outcome]
    have same := only whid ((held whid).trans there)
    rw [held] at same
    exact sound.distinct place whid target same there
  · intro whid other there different same
    rw [outcome] at same
    obtain rfl : (place : Int) = whid := same
    rw [← held] at there
    rcases vacant with empty | own
    · rw [empty] at there
      cases there
    · rw [own] at there
      exact different (Option.some.inj there).symm
  · rw [outcome]
    exact fun negative => absurd negative ranged
  · intro eps here
    refine ⟨more, ?_⟩
    rw [outcome]
    dsimp only
    rw [if_neg ranged, list, WhCtx.whInit_of_some here, Int.toNat_natCast]

/-- An application may rely on what `rmr_wh_open` returns. -/
theorem Sound.opens (sound : sys.Sound) (target : CStr) (connects : Bool) :
    Opens sys target connects := by
  by_cases named : target = []
  · subst named
    exact sound.opens_unnamed connects
  · -- With a name, by what the attempt came to.
    have opened := WhCtx.rmrWhOpen_opened sys.ctx connects named
    generalize outcome : sys.ctx.rmrWhOpen (some target) connects = result at opened
    obtain ⟨next, id⟩ := result
    cases opened with
    | failed is list closed =>
      obtain ⟨more, list⟩ := list
      obtain rfl : id = -1 := is
      exact sound.opens_failed outcome list closed
    | done place more is within list vacant only =>
      obtain rfl : id = place := is
      exact sound.opens_done outcome within list vacant only

/-- In every run, the ids that are held refer to what they were opened for, each to another
endpoint, and what `rmr_wh_open` returns next can be relied on. -/
theorem run_wormholes (events : List WhEvent) :
    (∀ whid, (run events).ctx.refers whid = (run events).held whid) ∧
    (∀ whid other target, (run events).held whid = some target →
      (run events).held other = some target → whid = other) ∧
    ∀ target connects, Opens (run events) target connects :=
  ⟨(sound_run events).refers, (sound_run events).distinct, (sound_run events).opens⟩

end WhSys

end Rmr
