import Rmr.Proofs.Message.Retry
import Rmr.Proofs.Message.Twin
import Rmr.Proofs.Route.Select

/-! A message is fanned out to one endpoint of each group, unless it cannot be cloned. -/

namespace Rmr

section
variable {conf : SendConf} {left : Leftover} {draft : Draft}

/-- The header of a message to send has room in what is allocated for it. -/
theorem zcmsgLen_room (conf : SendConf) (size trlo : Int) :
    (tpHdrLen + mhdrLen : Int) ≤ zcmsgLen conf size trlo := by
  -- Whatever the trace length comes from, the lengths added to the two headers are not negative.
  simp only [zcmsgLen]
  split
  · split
    · omega
    · omega
  · split
    · omega
    · omega

/-- A buffer that has a header has room for another one. -/
theorem allocZcmsg_reuses {allocs : Nat} {old : Mbuf} {size trlo : Int} {state : MsgState}
    (whole : tpHdrLen + mhdrLen ≤ old.tpBuf.size) :
    ∃ next, allocZcmsg conf left allocs (some old) size state trlo = .ok next := by
  -- A buffer that is too small is replaced by one of the size computed, which has room for a
  -- header.
  have room := zcmsgLen_room conf size trlo
  unfold allocZcmsg
  dsimp only
  by_cases small : 0 ≤ old.allocLen ∧ old.allocLen < zcmsgLen conf size trlo
  · have fresh : ¬ (left.malloc allocs (zcmsgLen conf size trlo)).size < tpHdrLen + mhdrLen := by
      change ¬ (zcmsgLen conf size trlo).toNat < tpHdrLen + mhdrLen
      omega
    rw [if_pos small]
    dsimp only
    rw [if_neg fresh]
    exact ⟨_, rfl⟩
  · rw [if_neg small]
    dsimp only
    rw [if_neg (by omega)]
    exact ⟨_, rfl⟩

/-- Whatever sending a message comes to, `send_msg` comes to an end. -/
theorem trySend_ends {result : SendResult} {bytes : List UInt8}
    (whole : tpHdrLen + mhdrLen ≤ draft.msg.tpBuf.size)
    (sends : sendMsg conf draft.msg = .ok bytes) :
    ∃ sent, trySend conf left draft result = .ok sent := by
  unfold trySend
  rw [sends]
  dsimp only [bind, Except.bind]
  cases result with
  | ok =>
    by_cases flagged : draft.msg.noAlloc = true
    · exact ⟨none, if_pos flagged⟩
    · -- The next message may be put into the buffer of this one.
      have size : tpHdrLen + mhdrLen ≤
          (insertMlen conf.order bytes.length (prepare conf draft.msg).tpBuf).size := by
        change tpHdrLen + mhdrLen ≤ (prepare conf draft.msg).tpBuf.size
        rwa [prepare_size]
      have reuses : ∃ next, allocZcmsg conf left draft.allocs (some { prepare conf draft.msg with
          tpBuf := insertMlen conf.order bytes.length (prepare conf draft.msg).tpBuf }) 0 .ok
          (toInt (rmrTrLen conf.order
            (insertMlen conf.order bytes.length (prepare conf draft.msg).tpBuf))) = .ok next :=
        allocZcmsg_reuses size
      obtain ⟨next, nextIs⟩ := reuses
      refine ⟨some next, (if_neg flagged).trans ?_⟩
      rw [nextIs]
      rfl
  | blocked => exact ⟨_, rfl⟩
  | failed => exact ⟨_, rfl⟩

end

section
variable {net : FanNet} {rte : RrEntry} {groups : List RrGroup} {more group : Nat}

/-- The choice in a group: the next slot tells whether there is another round. -/
theorem choose_group (net : FanNet)
    (slots : rte.rrgroups = groups.map some ++ List.replicate more none)
    {rrg : RrGroup} (there : groups[group]? = some rrg) (filled : none ∉ rrg.epts) :
    ∃ next, rte.choose net group = .ok ⟨next, decide (group + 1 < groups.length),
        (rrg.selected (rte.epIdx group)).filter (net.linked group)⟩ ∧
      next.rrgroups = rte.rrgroups ∧
      ∀ other, group < other → next.epIdx other = rte.epIdx other := by
  have slot : rte.rrgroups[group]? = some (some rrg) := by
    rw [slots]
    exact (slot_of_front more rrg group).mpr there
  obtain ⟨inside, -⟩ := List.getElem?_eq_some_iff.mp slot
  have range : ¬((group : Int) < 0 ∨ (rte.rrgroups.length : Int) ≤ group) := by omega
  have moreIs : ((rte.rrgroups[group + 1]?).getD none).isSome =
      decide (group + 1 < groups.length) := by
    rw [Bool.eq_iff_iff, decide_eq_true_iff, ← moreAfter_front more group, slots]
    rfl
  unfold RrEntry.choose utaEpsockRr
  rw [if_pos (by omega), if_neg range]
  simp only [Int.toNat_natCast, slot, moreIs]
  by_cases empty : rrg.epts.length = 0
  · -- Nothing is allocated in the group.
    rw [if_pos empty]
    have none_ : rrg.selected (rte.epIdx group) = none := by
      rw [RrGroup.selected, List.length_eq_zero_iff.mp empty]
      rfl
    rw [none_]
    exact ⟨rte, rfl, rfl, fun _ _ => rfl⟩
  · rw [if_neg empty]
    have place := rrPlace_lt (Nat.one_le_iff_ne_zero.mpr empty) (rte.epIdx group)
    cases at_ : rrg.epts[rrPlace rrg.epts.length (rte.epIdx group)] with
    | none => exact absurd (at_ ▸ List.getElem_mem place) filled
    | some ep =>
      have found : rrg.epts[rrPlace rrg.epts.length (rte.epIdx group)]? = some (some ep) := by
        rw [List.getElem?_eq_getElem place, at_]
      have selected : rrg.selected (rte.epIdx group) = some ep := by
        rw [RrGroup.selected, found]
        rfl
      rw [found, selected]
      refine ⟨if rrg.epts.length = 1 then rte
        else { rte with epIdx := Function.update rte.epIdx group (rte.epIdx group + 1) }, ?_, ?_,
          ?_⟩
      · by_cases linked : net.linked group ep = true
        · simp [Except.mapError, bind, Except.bind, pure, Except.pure, linked, Option.filter]
        · simp [Except.mapError, bind, Except.bind, pure, Except.pure, linked, Option.filter]
      · split
        · rfl
        · rfl
      · intro other after
        split
        · rfl
        · exact Function.update_of_ne (by omega) _ _

/-- There is nothing to choose from behind the groups, and no round after that. -/
theorem choose_nil (slots : rte.rrgroups = groups.map some ++ List.replicate more none)
    (listed : rte.rrgroups ≠ []) (behind : groups.length ≤ group) :
    rte.choose net group = .ok ⟨rte, false, none⟩ := by
  -- Behind the groups each slot is empty, which is what selects no endpoint.
  have absent : ∀ rrg, rte.rrgroups[group]? ≠ some (some rrg) := by
    intro rrg there
    rw [slots] at there
    obtain ⟨inside, -⟩ := List.getElem?_eq_some_iff.mp ((slot_of_front more rrg group).mp there)
    omega
  unfold RrEntry.choose
  rw [if_pos (List.length_pos_iff.mpr listed), utaEpsockRr_nil rte absent]
  rfl

/-- Where no groups are listed, the owner of the MEID is chosen. -/
theorem choose_owner (unlisted : rte.rrgroups = []) :
    rte.choose net group = .ok ⟨rte, false, net.owner.filter (net.linked group)⟩ := by
  unfold RrEntry.choose
  rw [unlisted]
  rfl

end

section
variable {conf : SendConf} {left : Leftover} {net : FanNet} {rte next : RrEntry} {draft : Draft}
  {msg : Mbuf} {okSends : Bool} {group rounds : Nat}

/-- What the loop comes to from a round on, if some send before that went well or none did. -/
structure FanEnd.Tells (conf : SendConf) (net : FanNet) (msg : Mbuf) (okSends : Bool)
    (targets : List (Nat × CStr)) (fan : FanEnd) : Prop where
  each : fan.attempts.map (fun attempt => (attempt.group, attempt.ep)) = targets
  outcome : ∀ attempt ∈ fan.attempts, attempt.result = net.outcome attempt.group
  same : ∀ attempt ∈ fan.attempts, some (attempt.bytes.drop tpHdrLen) = msg.carried conf
  told : (fan.okSends = true ∨ ∀ draft ∈ fan.sent, draft.msg.state = .ok) ↔
    okSends = true ∨ ∃ attempt ∈ fan.attempts, attempt.result = .ok
  nothing : fan.sent = none →
    msg.noAlloc = true ∧ ∃ attempt ∈ fan.attempts.getLast?, attempt.result = .ok

/-- The state that a result of sending leaves is good where the result is. -/
theorem SendResult.state_ok (result : SendResult) : result.state = .ok ↔ result = .ok := by
  cases result <;> simp [SendResult.state]

/-- The last round: the message goes to the endpoint, if there is one. -/
theorem fanLoop_last {ep : Option CStr} (framed : msg.Framed conf.order)
    (chosen : rte.choose net group = .ok ⟨next, false, ep⟩) (twin : draft.msg.Twin conf.order msg)
    (ships : ep ≠ none → msg.Shippable conf.order) :
    ∃ fan, fanLoop conf left net rte draft okSends group (rounds + 1) = .ok fan ∧
      fan.Tells conf net msg okSends (ep.toList.map fun ep => (group, ep)) := by
  cases ep with
  | none =>
    refine ⟨⟨next, some { draft with msg := { draft.msg with state := .noEndpt } }, okSends, []⟩,
      bind_eq_ok.mpr ⟨_, chosen, rfl⟩, ?_⟩
    constructor <;> simp
  | some ep =>
    have good := ships (by simp)
    obtain ⟨bytes, bytesIs⟩ := sendMsg_iff.mpr (twin.shippable good)
    have ends : ∃ sent, trySend conf left draft (net.outcome group) = .ok sent :=
      trySend_ends twin.whole bytesIs
    obtain ⟨sent, sentIs⟩ := ends
    obtain ⟨nothing, state⟩ := trySend_state sentIs
    refine ⟨⟨next, sent, okSends, [⟨group, ep, bytes, net.outcome group⟩]⟩,
      bind_eq_ok.mpr ⟨_, chosen, bind_eq_ok.mpr ⟨_, bytesIs, bind_eq_ok.mpr ⟨_, sentIs, rfl⟩⟩⟩, ?_⟩
    constructor
    · rfl
    · simp
    · intro attempt is
      rw [List.mem_singleton.mp is]
      exact twin.carried framed good bytesIs
    · -- What comes back has the state of the attempt.
      have told : (∀ draft ∈ sent, draft.msg.state = .ok) ↔ net.outcome group = .ok := by
        cases sent with
        | none => simp [(nothing rfl).1]
        | some back =>
          have is := state back rfl
          simp [is, SendResult.state_ok]
      change (okSends = true ∨ ∀ draft ∈ sent, draft.msg.state = .ok) ↔ _
      rw [told]
      simp
    · intro none_
      obtain ⟨went, flagged⟩ := nothing none_
      exact ⟨twin.noAlloc ▸ flagged, by simp [went]⟩

/-- An attempt is told of before those that follow it. -/
theorem FanEnd.Tells.after {fan : FanEnd} {later : Bool} {ep : CStr} {bytes : List UInt8}
    {targets : List (Nat × CStr)} (tells : fan.Tells conf net msg later targets)
    (carried : some (bytes.drop tpHdrLen) = msg.carried conf)
    (laterIs : later = true ↔ okSends = true ∨ net.outcome group = .ok) :
    (fan.after ⟨group, ep, bytes, net.outcome group⟩).Tells conf net msg okSends
      ((group, ep) :: targets) := by
  -- The attempt is the first of those told of, and the others are as the rest of the fan tells.
  constructor
  · exact congrArg _ tells.each
  · intro attempt is
    cases is with
    | head => rfl
    | tail _ is => exact tells.outcome attempt is
  · intro attempt is
    cases is with
    | head => exact carried
    | tail _ is => exact tells.same attempt is
  · have told := tells.told
    rw [laterIs] at told
    simp only [FanEnd.after, List.mem_cons, exists_eq_or_imp]
    rw [told, or_assoc]
  · intro none_
    obtain ⟨flagged, last, lastIs, went⟩ := tells.nothing none_
    refine ⟨flagged, last, ?_, went⟩
    simp only [FanEnd.after]
    rw [List.getLast?_cons]
    simp [Option.mem_def.mp lastIs]

/-- A round before the last one: whatever it comes to, the loop goes on with a message that is sent
as the same bytes. -/
theorem fanLoop_more {ep : Option CStr} {targets : List (Nat × CStr)}
    (framed : msg.Framed conf.order)
    (chosen : rte.choose net group = .ok ⟨next, true, ep⟩) (twin : draft.msg.Twin conf.order msg)
    (ships : ep ≠ none → msg.Shippable conf.order ∧ msg.Clonable conf.order)
    (goesOn : ∀ (draft : Draft) (okSends : Bool), draft.msg.Twin conf.order msg →
      ∃ fan, fanLoop conf left net next draft okSends (group + 1) rounds = .ok fan ∧
        fan.Tells conf net msg okSends targets) :
    ∃ fan, fanLoop conf left net rte draft okSends group (rounds + 1) = .ok fan ∧
      fan.Tells conf net msg okSends ((ep.toList.map fun ep => (group, ep)) ++ targets) := by
  cases ep with
  | none =>
    obtain ⟨fan, fanIs, tells⟩ := goesOn { draft with msg := { draft.msg with state := .noEndpt } }
      okSends (twin.withState _)
    exact ⟨fan, bind_eq_ok.mpr ⟨_, chosen, fanIs⟩, tells⟩
  | some ep =>
    obtain ⟨good, clones⟩ := ships (by simp)
    have sameFrame := twin.framed framed
    have cloned : ∃ clone, cloneMsg conf.order left draft = .ok clone :=
      (cloneMsg_iff sameFrame).mpr (twin.clonable clones)
    obtain ⟨clone, cloneIs⟩ := cloned
    have cloneTwin := (cloneMsg_twin sameFrame cloneIs).trans twin framed
    obtain ⟨bytes, bytesIs⟩ := sendMsg_iff.mpr (twin.shippable good)
    have ends : ∃ sent, trySend conf left
        { msg := { draft.msg with noAlloc := true }, allocs := clone.allocs } (net.outcome group) =
          .ok sent := trySend_ends twin.whole bytesIs
    obtain ⟨sent, sentIs⟩ := ends
    have carried := twin.carried framed good bytesIs
    cases sent with
    | none =>
      obtain ⟨went, -⟩ := (trySend_state sentIs).1 rfl
      obtain ⟨fan, fanIs, tells⟩ :=
        goesOn { clone with msg := { clone.msg with state := .ok } } true
        (cloneTwin.withState _)
      refine ⟨_, ?_, tells.after carried (by simp [went])⟩
      exact bind_eq_ok.mpr ⟨_, chosen, bind_eq_ok.mpr ⟨_, cloneIs, bind_eq_ok.mpr ⟨_, bytesIs,
        bind_eq_ok.mpr ⟨_, sentIs, bind_eq_ok.mpr ⟨fan, fanIs, rfl⟩⟩⟩⟩⟩
    | some back =>
      -- A message that comes back although none is wanted was not sent.
      have failed : net.outcome group ≠ .ok := by
        intro went
        obtain ⟨_, _, ⟨-, -, none_⟩ | ⟨-, flagged, -⟩ | ⟨failed, -⟩⟩ := trySend_cases sentIs
        · cases none_
        · cases flagged
        · exact failed went
      obtain ⟨fan, fanIs, tells⟩ := goesOn clone okSends cloneTwin
      refine ⟨_, ?_, tells.after carried (by simp [failed])⟩
      exact bind_eq_ok.mpr ⟨_, chosen, bind_eq_ok.mpr ⟨_, cloneIs, bind_eq_ok.mpr ⟨_, bytesIs,
        bind_eq_ok.mpr ⟨_, sentIs, bind_eq_ok.mpr ⟨fan, fanIs, rfl⟩⟩⟩⟩⟩

/-- A slot without a group has nothing to send to. -/
theorem fanTargets_nones (net : FanNet) (epIdx : Nat → UInt16) (more group : Nat)
    (slots : List (Option RrGroup)) :
    fanTargets net epIdx group (slots ++ List.replicate more none) =
      fanTargets net epIdx group slots := by
  -- By induction on the slots; behind them, on the number of those that are empty.
  induction slots generalizing group with
  | nil =>
    induction more generalizing group with
    | zero => rfl
    | succ more ih => exact ih (group + 1)
  | cons slot slots ih =>
    simp only [List.cons_append, fanTargets]
    rw [ih]

end

section
variable {conf : SendConf} {left : Leftover} {net : FanNet} {rte : RrEntry} {draft : Draft}
  {msg : Mbuf} {okSends : Bool} {more rounds : Nat} {before rest groups : List RrGroup}
  {epIdx : Nat → UInt16}

/-- The loop from some group on, for a message that can be sent and cloned as far as that is needed.
-/
theorem fanLoop_tells (framed : msg.Framed conf.order)
    (slots : rte.rrgroups = (before ++ rest).map some ++ List.replicate more none)
    (some_ : rest ≠ []) (passes : rest.length ≤ rounds)
    (counters : ∀ other, before.length ≤ other → rte.epIdx other = epIdx other)
    (filled : ∀ rrg ∈ rest, none ∉ rrg.epts) (twin : draft.msg.Twin conf.order msg)
    (ships : fanTargets net epIdx before.length (rest.map some) ≠ [] → msg.Shippable conf.order)
    (clones : (∃ target ∈ fanTargets net epIdx before.length (rest.map some),
      target.1 + 1 < (before ++ rest).length) → msg.Clonable conf.order) :
    ∃ fan, fanLoop conf left net rte draft okSends before.length rounds = .ok fan ∧
      fan.Tells conf net msg okSends (fanTargets net epIdx before.length (rest.map some)) := by
  induction rest generalizing before rte draft okSends rounds with
  | nil => exact absurd rfl some_
  | cons rrg rest ih =>
    obtain ⟨rounds, rfl⟩ : ∃ less, rounds = less + 1 :=
      ⟨rounds - 1, by simp only [List.length_cons] at passes; omega⟩
    have there : (before ++ rrg :: rest)[before.length]? = some rrg := by simp
    obtain ⟨next, chosen, same, ahead⟩ := choose_group net slots there
      (filled rrg List.mem_cons_self)
    rw [counters _ (Nat.le_refl _)] at chosen
    generalize epIs : (rrg.selected (epIdx before.length)).filter (net.linked before.length) = ep
      at chosen
    have targets : fanTargets net epIdx before.length ((rrg :: rest).map some) =
        (ep.toList.map fun ep => (before.length, ep)) ++
          fanTargets net epIdx (before.length + 1) (rest.map some) := by
      rw [← epIs]
      rfl
    rw [targets] at ships clones ⊢
    -- If there is an endpoint, the group is one of the targets.
    have ships' : ep ≠ none → msg.Shippable conf.order := by
      intro there
      obtain ⟨ep, rfl⟩ := Option.ne_none_iff_exists'.mp there
      exact ships (by simp)
    cases rest with
    | nil =>
      have last : decide (before.length + 1 < (before ++ [rrg]).length) = false := by simp
      rw [last] at chosen
      simpa [fanTargets] using fanLoop_last framed chosen twin ships'
    | cons second rest =>
      have later : decide (before.length + 1 < (before ++ rrg :: second :: rest).length) =
          true := by
        simp
      rw [later] at chosen
      have shape : before ++ rrg :: second :: rest = before ++ [rrg] ++ second :: rest := by simp
      have length : (before ++ [rrg]).length = before.length + 1 := by simp
      refine fanLoop_more framed chosen twin (fun there => ⟨ships' there, ?_⟩) ?_
      · obtain ⟨ep, rfl⟩ := Option.ne_none_iff_exists'.mp there
        exact clones ⟨(before.length, ep), by simp, by simp⟩
      · intro draft okSends twin
        rw [← length]
        refine ih (by rw [same, slots, shape]) (List.cons_ne_nil _ _)
          (by simpa using Nat.le_of_succ_le_succ passes) ?_
          (fun rrg is => filled rrg (List.mem_cons_of_mem _ is)) twin ?_ ?_
        · intro other behind
          rw [ahead other (by omega)]
          exact counters other (by omega)
        · intro some_
          rw [length] at some_
          exact ships fun none_ => some_ (List.append_eq_nil_iff.mp none_).2
        · intro followed
          rw [length, ← shape] at followed
          obtain ⟨target, is, followed⟩ := followed
          exact clones ⟨target, List.mem_append_right _ is, followed⟩

/-- A loop that ends has sent the message if there was something to send it to, and cloned it if a
group followed. -/
theorem fanLoop_needs {fan : FanEnd} (framed : msg.Framed conf.order)
    (slots : rte.rrgroups = (before ++ rest).map some ++ List.replicate more none)
    (counters : ∀ other, before.length ≤ other → rte.epIdx other = epIdx other)
    (filled : ∀ rrg ∈ rest, none ∉ rrg.epts) {state : MsgState}
    (same : draft.msg = { msg with state := state })
    (ended : fanLoop conf left net rte draft okSends before.length rounds = .ok fan) :
    (fanTargets net epIdx before.length (rest.map some) ≠ [] → msg.Shippable conf.order) ∧
      ((∃ target ∈ fanTargets net epIdx before.length (rest.map some),
        target.1 + 1 < (before ++ rest).length) → msg.Clonable conf.order) := by
  induction rest generalizing before rte draft okSends rounds state with
  | nil => simp [fanTargets]
  | cons rrg rest ih =>
    cases rounds with
    | zero => cases ended
    | succ rounds =>
      have there : (before ++ rrg :: rest)[before.length]? = some rrg := by simp
      obtain ⟨next, chosen, keeps, ahead⟩ := choose_group net slots there
        (filled rrg List.mem_cons_self)
      rw [counters _ (Nat.le_refl _)] at chosen
      generalize epIs : (rrg.selected (epIdx before.length)).filter (net.linked before.length) = ep
        at chosen
      have targets : fanTargets net epIdx before.length ((rrg :: rest).map some) =
          (ep.toList.map fun ep => (before.length, ep)) ++
            fanTargets net epIdx (before.length + 1) (rest.map some) := by
        rw [← epIs]
        rfl
      rw [targets]
      obtain ⟨choice, chosenIs, ended⟩ := bind_eq_ok.mp ended
      rw [chosen] at chosenIs
      cases chosenIs
      cases ep with
      | none =>
        dsimp only at ended
        have shape : before ++ rrg :: rest = before ++ [rrg] ++ rest := by simp
        have length : (before ++ [rrg]).length = before.length + 1 := by simp
        by_cases later : before.length + 1 < (before ++ rrg :: rest).length
        · rw [if_pos (decide_eq_true later), ← length] at ended
          have stateIs : { draft.msg with state := .noEndpt } = { msg with state := .noEndpt } := by
            rw [same]
          have needs := ih (by rw [keeps, slots, shape]) (fun other behind => by
              rw [ahead other (by omega)]
              exact counters other (by omega))
            (fun rrg is => filled rrg (List.mem_cons_of_mem _ is)) stateIs ended
          rw [length, ← shape] at needs
          simpa using needs
        · -- There are no more groups, so there is nothing to send to at all.
          have empty : rest = [] := by
            simp only [List.length_append, List.length_cons] at later
            exact List.length_eq_zero_iff.mp (by omega)
          simp [empty, fanTargets]
      | some ep =>
        dsimp only at ended
        have ships : ∀ {other : Mbuf} {bytes : List UInt8}, other.allocLen = msg.allocLen →
            other.len = msg.len → other.tpBuf = msg.tpBuf → sendMsg conf other = .ok bytes →
            msg.Shippable conf.order := by
          intro other bytes allocLen len tpBuf sent
          have ships := sendMsg_iff.mp ⟨bytes, sent⟩
          exact ⟨allocLen ▸ ships.allocLen, by rw [← len, ← tpBuf]; exact ships.length,
            by rw [← allocLen, ← len, ← tpBuf]; exact ships.held⟩
        by_cases later : before.length + 1 < (before ++ rrg :: rest).length
        · rw [if_pos (decide_eq_true later)] at ended
          obtain ⟨clone, cloneIs, ended⟩ := bind_eq_ok.mp ended
          obtain ⟨bytes, bytesIs, -⟩ := bind_eq_ok.mp ended
          have framed' : draft.msg.Framed conf.order := by
            rw [same]
            exact framed.keep rfl rfl rfl
          have clones := (cloneMsg_iff framed').mp ⟨clone, cloneIs⟩
          rw [same] at clones
          exact ⟨fun _ => ships (by rw [same]) (by rw [same]) (by rw [same]) bytesIs,
            fun _ => ⟨clones.1, clones.2, clones.3, clones.4, clones.5⟩⟩
        · rw [if_neg (by simpa using later)] at ended
          obtain ⟨bytes, bytesIs, -⟩ := bind_eq_ok.mp ended
          refine ⟨fun _ => ships (by rw [same]) (by rw [same]) (by rw [same]) bytesIs, ?_⟩
          have empty : rest = [] := by
            simp only [List.length_append, List.length_cons] at later
            exact List.length_eq_zero_iff.mp (by omega)
          simp [empty, fanTargets]

/-- What sending to each group comes to, if there is an endpoint to send to. -/
def fanRounds (net : FanNet) (epIdx : Nat → UInt16) : Nat → List RrGroup → List (Option SendResult)
  | _, [] => []
  | group, rrg :: groups =>
    ((rrg.selected (epIdx group)).filter (net.linked group)).map (fun _ => net.outcome group) ::
      fanRounds net epIdx (group + 1) groups

/-- The loop is the fan-out over what sending to each group comes to. -/
theorem fanLoop_fanOut {fan : FanEnd}
    (slots : rte.rrgroups = (before ++ rest).map some ++ List.replicate more none)
    (some_ : rest ≠ [])
    (counters : ∀ other, before.length ≤ other → rte.epIdx other = epIdx other)
    (filled : ∀ rrg ∈ rest, none ∉ rrg.epts)
    (ended : fanLoop conf left net rte draft okSends before.length rounds = .ok fan) :
    fanOut conf left draft okSends (fanRounds net epIdx before.length rest) =
      .ok (fan.sent, fan.okSends) := by
  induction rest generalizing before rte draft okSends rounds fan with
  | nil => exact absurd rfl some_
  | cons rrg rest ih =>
    cases rounds with
    | zero => cases ended
    | succ rounds =>
      have there : (before ++ rrg :: rest)[before.length]? = some rrg := by simp
      obtain ⟨next, chosen, keeps, ahead⟩ := choose_group net slots there
        (filled rrg List.mem_cons_self)
      rw [counters _ (Nat.le_refl _)] at chosen
      rw [fanRounds]
      generalize (rrg.selected (epIdx before.length)).filter (net.linked before.length) =
        ep at chosen ⊢
      obtain ⟨choice, chosenIs, ended⟩ := bind_eq_ok.mp ended
      rw [chosen] at chosenIs
      cases chosenIs
      cases rest with
      | nil =>
        have last : decide (before.length + 1 < (before ++ [rrg]).length) = false := by simp
        rw [last] at ended
        cases ep with
        | none =>
          cases ended
          rfl
        | some ep =>
          obtain ⟨bytes, -, ended⟩ := bind_eq_ok.mp ended
          obtain ⟨sent, sentIs, made⟩ := bind_eq_ok.mp ended
          cases made
          exact bind_eq_ok.mpr ⟨sent, sentIs, rfl⟩
      | cons second rest =>
        have later : decide (before.length + 1 < (before ++ rrg :: second :: rest).length) =
            true := by
          simp
        rw [later] at ended
        have shape : before ++ rrg :: second :: rest = before ++ [rrg] ++ second :: rest := by simp
        have length : (before ++ [rrg]).length = before.length + 1 := by simp
        -- What the loop goes on with is what the fan-out goes on with.
        have goesOn : ∀ {draft : Draft} {okSends : Bool} {fan : FanEnd},
            fanLoop conf left net next draft okSends (before.length + 1) rounds = .ok fan →
            fanOut conf left draft okSends
              (fanRounds net epIdx (before.length + 1) (second :: rest)) =
              .ok (fan.sent, fan.okSends) := by
          intro draft okSends fan ended
          rw [← length] at ended ⊢
          refine ih (by rw [keeps, slots, shape]) (List.cons_ne_nil _ _) ?_
            (fun rrg is => filled rrg (List.mem_cons_of_mem _ is)) ended
          intro other behind
          rw [ahead other (by omega)]
          exact counters other (by omega)
        cases ep with
        | none => exact goesOn ended
        | some ep =>
          obtain ⟨clone, cloneIs, ended⟩ := bind_eq_ok.mp ended
          obtain ⟨bytes, -, ended⟩ := bind_eq_ok.mp ended
          obtain ⟨sent, sentIs, ended⟩ := bind_eq_ok.mp ended
          cases sent with
          | none =>
            obtain ⟨later, laterIs, made⟩ := bind_eq_ok.mp ended
            cases made
            have followed := goesOn laterIs
            exact bind_eq_ok.mpr ⟨clone, cloneIs, bind_eq_ok.mpr ⟨none, sentIs, followed⟩⟩
          | some back =>
            obtain ⟨later, laterIs, made⟩ := bind_eq_ok.mp ended
            cases made
            have followed := goesOn laterIs
            exact bind_eq_ok.mpr ⟨clone, cloneIs, bind_eq_ok.mpr ⟨some back, sentIs, followed⟩⟩

/-- An entry with groups is what the message buffers of an application know of it: what sending to
each group comes to. -/
theorem mtosendRte_refines {fan : FanEnd}
    (slots : rte.rrgroups = groups.map some ++ List.replicate more none) (some_ : groups ≠ [])
    (filled : ∀ rrg ∈ groups, none ∉ rrg.epts)
    (ended : mtosendRte conf left net rte draft = .ok fan) :
    mtosendMsg conf left draft (fanRounds net rte.epIdx 0 groups) = .ok fan.sent := by
  -- The loop over the slots is the fan-out over the groups, as the rest of the slots is empty.
  have slots' : rte.rrgroups = ([] ++ groups).map some ++ List.replicate more none := slots
  obtain ⟨loop, loopIs, made⟩ := bind_eq_ok.mp ended
  cases made
  have out := fanLoop_fanOut slots' some_ (fun _ _ => rfl) filled loopIs
  have rounds : fanRounds net rte.epIdx 0 groups ≠ [] := by
    cases groups with
    | nil => exact absurd rfl some_
    | cons rrg groups => exact List.cons_ne_nil _ _
  unfold mtosendMsg
  rw [if_neg rounds]
  exact bind_eq_ok.mpr ⟨_, out, rfl⟩

/-- The loop over the groups of an entry, or over none of them. -/
theorem mtosendRte_fans (framed : draft.msg.Framed conf.order)
    (whole : tpHdrLen + mhdrLen ≤ draft.msg.tpBuf.size)
    (slots : rte.rrgroups = groups.map some ++ List.replicate more none)
    (filled : ∀ rrg ∈ groups, none ∉ rrg.epts)
    (ships : rte.targets net ≠ [] → draft.msg.Shippable conf.order)
    (clones : (∃ target ∈ rte.targets net, HasLater rte.rrgroups target.1) →
      draft.msg.Clonable conf.order) :
    ∃ fan, fanLoop conf left net rte draft false 0 (rte.rrgroups.length + 1) = .ok fan ∧
      fan.Tells conf net draft.msg false (rte.targets net) := by
  have twin : draft.msg.Twin conf.order draft.msg := Mbuf.Twin.refl whole
  by_cases unlisted : rte.rrgroups = []
  · -- The owner of the MEID is the only one to send to.
    have targets : rte.targets net =
        (net.owner.filter (net.linked 0)).toList.map fun ep => (0, ep) := if_pos unlisted
    rw [targets] at ships ⊢
    refine fanLoop_last framed (choose_owner unlisted) twin fun there => ships ?_
    obtain ⟨ep, epIs⟩ := Option.ne_none_iff_exists'.mp there
    simp [epIs]
  · have targets : rte.targets net = fanTargets net rte.epIdx 0 (groups.map some) := by
      rw [RrEntry.targets, if_neg unlisted, slots, fanTargets_nones]
    rw [targets] at ships clones ⊢
    cases groups with
    | nil =>
      exact fanLoop_last framed (choose_nil slots unlisted (Nat.zero_le _)) twin
        fun there => absurd rfl there
    | cons rrg groups =>
      have passes : (rrg :: groups).length ≤ rte.rrgroups.length + 1 := by
        rw [slots]
        simp only [List.length_append, List.length_map]
        omega
      have slots' : rte.rrgroups = ([] ++ rrg :: groups).map some ++
        List.replicate more none := slots
      refine fanLoop_tells framed slots' (List.cons_ne_nil _ _) passes (fun _ _ => rfl) filled twin
        ships fun followed => clones ?_
      obtain ⟨target, is, followed⟩ := followed
      refine ⟨target, is, ?_⟩
      rw [slots]
      exact (hasLater_front more target.1).mpr followed

/-- The same conditions are met where the loop comes to an end. -/
theorem mtosendRte_needs {fan : FanEnd} (framed : draft.msg.Framed conf.order)
    (slots : rte.rrgroups = groups.map some ++ List.replicate more none)
    (filled : ∀ rrg ∈ groups, none ∉ rrg.epts)
    (ended : fanLoop conf left net rte draft false 0 (rte.rrgroups.length + 1) = .ok fan) :
    (rte.targets net ≠ [] → draft.msg.Shippable conf.order) ∧
      ((∃ target ∈ rte.targets net, HasLater rte.rrgroups target.1) →
        draft.msg.Clonable conf.order) := by
  by_cases unlisted : rte.rrgroups = []
  · constructor
    · intro some_
      rw [RrEntry.targets, if_pos unlisted] at some_
      obtain ⟨choice, chosen, ended⟩ := bind_eq_ok.mp ended
      rw [choose_owner unlisted] at chosen
      cases chosen
      cases owner : net.owner.filter (net.linked 0) with
      | none => simp [owner] at some_
      | some ep =>
        simp only [owner] at ended
        obtain ⟨bytes, bytesIs, -⟩ := bind_eq_ok.mp ended
        exact sendMsg_iff.mp ⟨bytes, bytesIs⟩
    · -- There is no group at all.
      intro followed
      obtain ⟨target, -, later, rrg, -, there⟩ := followed
      rw [unlisted] at there
      cases there
  · have targets : rte.targets net = fanTargets net rte.epIdx 0 (groups.map some) := by
      rw [RrEntry.targets, if_neg unlisted, slots, fanTargets_nones]
    have slots' : rte.rrgroups = ([] ++ groups).map some ++ List.replicate more none := slots
    have needs := fanLoop_needs framed slots' (fun _ _ => rfl) filled rfl ended
    rw [targets]
    refine ⟨needs.1, fun followed => needs.2 ?_⟩
    obtain ⟨target, is, followed⟩ := followed
    rw [slots] at followed
    exact ⟨target, is, (hasLater_front more target.1).mp followed⟩

/-- Whatever connecting and sending come to in each group, a message is fanned out to the selected
endpoints if and only if it can be sent, should there be one, and there is room for all that
`clone_msg` copies, should another group follow one with such an endpoint. -/
theorem mtosendRte_fansOut_iff (conf : SendConf) (left : Leftover) (net : FanNet) (rte : RrEntry)
    (draft : Draft)
    (contiguous : ∃ (groups : List RrGroup) (more : Nat),
      rte.rrgroups = groups.map some ++ List.replicate more none)
    (filled : ∀ rrg, some rrg ∈ rte.rrgroups → none ∉ rrg.epts)
    (framed : draft.msg.Framed conf.order) (whole : tpHdrLen + mhdrLen ≤ draft.msg.tpBuf.size) :
    (∃ fan, mtosendRte conf left net rte draft = .ok fan ∧
        FansOut conf net draft.msg (rte.targets net) fan) ↔
      (rte.targets net ≠ [] → draft.msg.Shippable conf.order) ∧
        ((∃ target ∈ rte.targets net, HasLater rte.rrgroups target.1) →
          draft.msg.Clonable conf.order) := by
  obtain ⟨groups, more, slots⟩ := contiguous
  have filled' : ∀ rrg ∈ groups, none ∉ rrg.epts := by
    intro rrg is
    apply filled
    rw [slots]
    exact List.mem_append_left _ (List.mem_map_of_mem is)
  constructor
  · intro fans
    obtain ⟨fan, ended, -⟩ := fans
    obtain ⟨loop, loopIs, -⟩ := bind_eq_ok.mp ended
    exact mtosendRte_needs framed slots filled' loopIs
  · intro needs
    obtain ⟨ships, clones⟩ := needs
    have loops : ∃ fan, fanLoop conf left net rte draft false 0
      (rte.rrgroups.length + 1) = .ok fan ∧
        fan.Tells conf net draft.msg false (rte.targets net) :=
      mtosendRte_fans framed whole slots filled' ships clones
    obtain ⟨fan, loopIs, tells⟩ := loops
    refine ⟨_, bind_eq_ok.mpr ⟨fan, loopIs, rfl⟩, tells.each, tells.outcome, tells.same, ?_, ?_⟩
    · -- The state is that of the last attempt, unless one before it went well.
      have told := tells.told
      simp only [Bool.false_eq_true, false_or] at told
      rw [← told]
      cases ok : fan.okSends with
      | true => simp
      | false => simp
    · intro none_
      exact tells.nothing (Option.map_eq_none_iff.mp none_)

end

/-- An entry with two groups, of two endpoints and of one. -/
def twoGroups : RrEntry := RrEntry.made [some ⟨[some ['a'], some ['b']]⟩, some ⟨[some ['c']]⟩, none]

/-- All endpoints have sockets, but sending in the first round fails. -/
def firstFails : FanNet where
  linked := fun _ _ => true
  outcome := fun group => if group = 0 then .failed else .ok
  owner := none

/-- A message with a payload of some bytes, all of them in use. -/
def fullDraft (len : Nat) : Draft where
  msg := { Mbuf.alloc (freshHeader SendConf.plain (Block.ofList (List.replicate (334 + len) 0)))
    .ok with
    mtype := 1
    len := len
    payload := 334
    allocLen := 334 + len }
  allocs := 0

/-- A message with a payload of twenty bytes goes to an endpoint of both groups. -/
theorem mtosendRte_fansOut_twenty :
    ∃ fan, mtosendRte SendConf.plain (fun _ _ => 0) firstFails twoGroups (fullDraft 20) = .ok fan ∧
      FansOut SendConf.plain firstFails (fullDraft 20).msg [(0, ['a']), (1, ['c'])] fan := by
  -- The groups are filled and the message is framed, so that the theorem applies.
  have headed := (freshHeader_headed ⟨by decide, rfl⟩
    (Block.ofList (List.replicate (334 + 20) 0)) : Headed SendConf.plain.order _ _ ∧ _).1
  have framed : (fullDraft 20).msg.Framed SendConf.plain.order :=
    ⟨by decide +kernel, headed, by decide +kernel⟩
  have filled : ∀ rrg, some rrg ∈ twoGroups.rrgroups → none ∉ rrg.epts := by
    intro rrg is
    simp only [twoGroups, RrEntry.made, List.mem_cons, Option.some.injEq, reduceCtorEq,
      List.not_mem_nil, or_false] at is
    rcases is with rfl | rfl
    · decide
    · decide
  refine (mtosendRte_fansOut_iff SendConf.plain (fun _ _ => 0) firstFails twoGroups (fullDraft 20)
    ⟨[⟨[some ['a'], some ['b']]⟩, ⟨[some ['c']]⟩], 1, rfl⟩ filled framed (by decide +kernel)).mpr
    ⟨fun _ => ⟨by decide +kernel, by decide +kernel, by decide +kernel⟩, fun _ => ?_⟩
  exact ⟨by decide +kernel, by decide +kernel, by decide +kernel, by decide +kernel,
    by decide +kernel⟩

/-- A context whose messages have sixty bytes of trace data. -/
def SendConf.tracing : SendConf := { SendConf.plain with traceDataLen := 60 }

/-- A message of it with one byte of payload is not: more than its buffer has is copied to its
clone, and more than the clone has room for. -/
theorem mtosendRte_not_fansOut :
    Yields (fun draft => draft.msg.tpBuf.size = 395 ∧
      tpHdrLen + draft.msg.cloneCount .little = 458 ∧
        ¬ ∃ fan, mtosendRte SendConf.tracing (fun _ _ => 0) firstFails twoGroups draft = .ok fan ∧
          FansOut SendConf.tracing firstFails draft.msg (twoGroups.targets firstFails) fan)
      (rmrAllocMsg SendConf.tracing (fun _ _ => 0) 1) := by
  -- The clone is evaluated: it reads bytes 395 to 457, which the buffer does not have.
  have fails : Yields (fun draft => draft.msg.tpBuf.size = 395 ∧
        tpHdrLen + draft.msg.cloneCount .little = 458 ∧
        (mtosendRte SendConf.tracing (fun _ _ => 0) firstFails twoGroups draft).toOption.isNone =
          true)
      (rmrAllocMsg SendConf.tracing (fun _ _ => 0) 1) := by
    decide +kernel
  obtain ⟨draft, made, size, count, none_⟩ := fails.exists
  refine Yields.intro made ⟨size, count, fun fans => ?_⟩
  obtain ⟨fan, sent, -⟩ := fans
  rw [sent] at none_
  cases none_

end Rmr
