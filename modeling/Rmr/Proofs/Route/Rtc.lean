import Rmr.Proofs.Route.Survive
import Rmr.Proofs.Transport.Collector
import Rmr.Route.Rtc

/-! What the thread that collects tables does over time. -/

namespace Rmr

/-- A text of records tells what they tell, however they are terminated. -/
theorem toldBy_textOf (recs : List TextRec) :
    toldBy (fixBroken (textOf recs)) = told (recs.map TextRec.text) := by
  induction recs with
  | nil => rfl
  | cons rec recs ih =>
    have same : fixBroken rec.text = rec.text := by
      refine (List.map_congr_left fun c inText => ?_).trans (List.map_id _)
      exact if_neg (rec.clean c inText).2.1
    have single : rec.text.splitOn '\n' = [rec.text] :=
      List.splitOn_eq_singleton fun among => (rec.clean _ among).1 rfl
    have text : toldBy rec.text = told [rec.text] := by rw [toldBy, single]
    -- What is behind the text is one end of a line or two, which tell nothing.
    have ended : toldBy (fixBroken (rec.text ++ rec.term.text)) = told [rec.text] := by
      rw [fixBroken_append, same]
      cases rec.term with
      | newline | cr =>
        change toldBy (rec.text ++ '\n' :: []) = _
        rw [toldBy_append, toldBy_nil, List.append_nil, text]
      | crlf =>
        change toldBy (rec.text ++ '\n' :: ([] ++ '\n' :: [])) = _
        rw [toldBy_append, toldBy_append, toldBy_nil, List.append_nil, List.append_nil, text]
    have alone : textOf [rec] = rec.text ++ rec.term.text := List.append_nil _
    have terminated : Terminated (rec.text ++ rec.term.text) := alone ▸ terminated_textOf [rec]
    have both : textOf (rec :: recs) = (rec.text ++ rec.term.text) ++ textOf recs := rfl
    rw [both, toldBy_fixBroken_append terminated, ended, ih]
    exact (told_append [rec.text] (recs.map TextRec.text)).symm

/-- The seconds between requests are what they may be set to. -/
theorem RtcEnv.freq_bounds (env : RtcEnv) : 1 ≤ env.freq ∧ env.freq ≤ 300 := by
  -- What is set is cut to the bounds, and without a setting there is one within them.
  unfold freq
  cases env.rtreqFreq with
  | none => decide
  | some text =>
    dsimp only
    split
    · decide
    · omega

/-- They are part of the plan. -/
theorem RtcEnv.plan_freq (env : RtcEnv) : env.plan.rtReqFreq = env.freq := by
  -- No branch of the plan changes what was set.
  unfold plan
  dsimp only
  split
  · rfl
  · rfl
  · split
    · rfl
    · rfl

namespace Rtc

variable {plan : RtcPlan} {alarmEndpt : CStr} {conf : RtConf} {mems : Nat → Mem}
  {junk : Nat → Char} {rtc next : Rtc} {met : RtcTurn}

/-- What is known of the clock and the requests once a message was handled. -/
theorem handle_clock (handled : rtc.handle conf mems junk met = .ok next) :
    next.requests = rtc.requests ∧ next.nxtRtReq = rtc.nxtRtReq ∧ next.now = rtc.now ∧
      next.received = rtc.received := by
  -- Handling a message changes the reader and the message at hand only.
  unfold handle at handled
  cases is : rtc.msg with
  | none =>
    rw [is] at handled
    cases handled
    exact ⟨rfl, rfl, rfl, rfl⟩
  | some msg =>
    rw [is] at handled
    obtain ⟨reader, _, is⟩ := bind_eq_ok.mp handled
    cases is
    exact ⟨rfl, rfl, rfl, rfl⟩

/-- A request is made in a turn. -/
def Asks (rtc : Rtc) (met : RtcTurn) : Prop :=
  rtc.msg = none ∧ rtc.reader.haveUpdate = false ∧ rtc.nxtRtReq ≤ (rtc.now + met.idle : Nat)

/-- What a turn does to the clock and the requests. -/
theorem turn_clock (going : rtc.done = false)
    (ran : rtc.turn plan alarmEndpt conf mems junk met = .ok next) :
    (Asks rtc met →
      next.requests = ⟨rtc.now + met.idle, rtc.now + met.idle + met.took⟩ :: rtc.requests ∧
      next.nxtRtReq = toInt ((rtc.now + met.idle + met.took : Nat) + plan.rtReqFreq) ∧
      rtc.now + met.idle + met.took ≤ next.now) ∧
    (¬ Asks rtc met → next.requests = rtc.requests ∧ next.nxtRtReq = rtc.nxtRtReq ∧
      rtc.now + met.idle ≤ next.now) := by
  unfold Rtc.turn at ran
  rw [going, if_neg Bool.false_ne_true] at ran
  obtain ⟨done, handled, is⟩ := bind_eq_ok.mp ran
  cases is
  obtain ⟨requests, nxt, now, _⟩ := handle_clock handled
  dsimp only
  rw [requests, nxt, now]
  unfold Asks wait
  cases msg : rtc.msg with
  | some msg =>
    -- No message is received, and no table requested.
    simp [elapse, msg]
  | none =>
    have empty : (rtc.elapse (plan.conf alarmEndpt) met).msg = none := msg
    dsimp only
    rw [empty, Option.isSome_none, if_neg Bool.false_ne_true]
    unfold ask
    constructor
    · rintro ⟨_, unseen, due⟩
      have asks : (rtc.elapse (plan.conf alarmEndpt) met).reader.haveUpdate = false ∧
          (rtc.elapse (plan.conf alarmEndpt) met).nxtRtReq ≤
            (rtc.elapse (plan.conf alarmEndpt) met).now := ⟨unseen, due⟩
      rw [if_pos asks]
      simp [receive, elapse]
    · intro not
      have idle : ¬ ((rtc.elapse (plan.conf alarmEndpt) met).reader.haveUpdate = false ∧
          (rtc.elapse (plan.conf alarmEndpt) met).nxtRtReq ≤
            (rtc.elapse (plan.conf alarmEndpt) met).now) :=
        fun asks => not ⟨rfl, asks.1, asks.2⟩
      rw [if_neg idle]
      simp [receive, elapse]

/-- The next request is put off, and the requests so far were apart. -/
structure Paced (freq : Int) (rtc : Rtc) : Prop where
  due : rtc.nxtRtReq = rtc.requests.head?.elim 0 fun last => toInt (last.stop + freq)
  past : ∀ req ∈ rtc.requests, req.start ≤ req.stop ∧ req.stop ≤ rtc.now
  spaced : rtc.requests.Pairwise fun later earlier =>
    earlier.stop + freq ≤ intMax → earlier.stop + freq ≤ later.start

/-- One turn more. -/
theorem Paced.turn (often : 1 ≤ plan.rtReqFreq) (paced : rtc.Paced plan.rtReqFreq)
    (ran : rtc.turn plan alarmEndpt conf mems junk met = .ok next) :
    next.Paced plan.rtReqFreq := by
  cases going : rtc.done with
  | true =>
    unfold Rtc.turn at ran
    rw [if_pos going] at ran
    cases ran
    exact paced
  | false =>
    obtain ⟨asked, not⟩ := turn_clock going ran
    by_cases asks : Asks rtc met
    · obtain ⟨requests, nxt, now⟩ := asked asks
      refine ⟨by rw [nxt, requests]; simp, ?_, ?_⟩
      · rw [requests]
        intro req among
        rcases List.mem_cons.mp among with rfl | earlier
        · exact ⟨Nat.le_add_right _ _, now⟩
        · have past := paced.past req earlier
          exact ⟨past.1, by omega⟩
      · rw [requests]
        refine List.pairwise_cons.mpr ⟨?_, paced.spaced⟩
        -- The time for this one has come, which was put off at the last one.
        have due := asks.2.2
        intro req among within
        cases earlier : rtc.requests with
        | nil =>
          rw [earlier] at among
          cases among
        | cons last others =>
          have spaced := paced.spaced
          rw [paced.due, earlier] at due
          rw [earlier] at among spaced
          have past := paced.past last (by rw [earlier]; exact List.mem_cons_self)
          dsimp only [List.head?_cons, Option.elim_some] at due
          rcases List.mem_cons.mp among with rfl | older
          · have unturned : toInt (req.stop + plan.rtReqFreq) = req.stop + plan.rtReqFreq :=
              toInt_of_inInt ⟨by simp only [intMin]; omega, within⟩
            rw [unturned] at due
            exact due
          · have apart := (List.pairwise_cons.mp spaced).1 req older within
            have later : (last.start : Int) ≤ rtc.now + met.idle := by omega
            push_cast
            omega
    · obtain ⟨requests, nxt, now⟩ := not asks
      refine ⟨by rw [nxt, requests, paced.due], ?_, by rw [requests]; exact paced.spaced⟩
      rw [requests]
      intro req among
      have past := paced.past req among
      exact ⟨past.1, by omega⟩

/-- What a turn does with messages. -/
theorem turn_messages (going : rtc.done = false)
    (ran : rtc.turn plan alarmEndpt conf mems junk met = .ok next) :
    match rtc.msg.or (met.recvd.filter (·.payload ≠ [])) with
    | none => next.msg = none ∧ next.reader = rtc.reader ∧ next.received = rtc.received ∧
        next.handled = rtc.handled
    | some msg => rtc.reader.rtcParseMsg conf mems junk msg = .ok next.reader ∧
        next.msg = (if msg.isTable then none else some msg) ∧
        next.handled = rtc.handled ++ [msg] ∧
        next.received = rtc.received ++ (if rtc.msg.isSome then [] else [msg]) := by
  -- The message at hand is one that was left over, or the one just received.
  unfold Rtc.turn at ran
  rw [going, if_neg Bool.false_ne_true] at ran
  obtain ⟨done, handled, is⟩ := bind_eq_ok.mp ran
  cases is
  have waits : (rtc.wait plan alarmEndpt met).msg = rtc.msg.or (met.recvd.filter (·.payload ≠ [])) ∧
      (rtc.wait plan alarmEndpt met).reader = rtc.reader ∧
      (rtc.wait plan alarmEndpt met).handled = rtc.handled ∧
      (rtc.wait plan alarmEndpt met).received = rtc.received ++
        (if rtc.msg.isSome then [] else (met.recvd.filter (·.payload ≠ [])).toList) := by
    unfold wait
    have same : (rtc.elapse (plan.conf alarmEndpt) met).msg = rtc.msg := rfl
    dsimp only
    rw [same]
    cases msg : rtc.msg with
    | some msg => simp [elapse, msg]
    | none =>
      simp only [Option.isSome_none, Bool.false_eq_true, if_false, Option.none_or]
      unfold ask
      split <;> simp [receive, elapse]
  obtain ⟨msg, reader, earlier, received⟩ := waits
  unfold handle at handled
  cases comes : rtc.msg.or (met.recvd.filter (·.payload ≠ [])) with
  | none =>
    obtain ⟨nothing, silent⟩ := Option.or_eq_none_iff.mp comes
    rw [msg, comes] at handled
    cases handled
    rw [nothing, silent] at received
    exact ⟨msg.trans comes, reader, received.trans (List.append_nil _), earlier⟩
  | some new =>
    rw [msg, comes] at handled
    obtain ⟨after, parsed, is⟩ := bind_eq_ok.mp handled
    cases is
    rw [reader] at parsed
    refine ⟨parsed, ?_, by dsimp only; rw [earlier], ?_⟩
    · dsimp only [RtMsg.isTable]
      simp only [decide_eq_true_eq]
    · refine received.trans ?_
      cases waiting : rtc.msg with
      | some old => rfl
      | none =>
        rw [waiting, Option.none_or] at comes
        rw [comes]
        rfl

/-- A message of another type is not parsed. -/
theorem rtcParseMsg_other {reader : MsgReader} {msg : RtMsg} (other : msg.isTable = false) :
    reader.rtcParseMsg conf mems junk msg = .ok reader := by
  unfold MsgReader.rtcParseMsg
  rw [if_neg (by simpa [RtMsg.isTable] using other)]

/-- Once a message with a table was parsed, no table is requested any more. -/
theorem rtcParseMsg_table {reader after : MsgReader} {msg : RtMsg} (table : msg.isTable = true)
    (parsed : reader.rtcParseMsg conf mems junk msg = .ok after) : after.haveUpdate = true := by
  -- The message is taken as one with a table, which sets the mark.
  unfold MsgReader.rtcParseMsg at parsed
  rw [if_pos (by simpa [RtMsg.isTable] using table)] at parsed
  obtain ⟨pbuf, _, rest⟩ := bind_eq_ok.mp parsed
  obtain ⟨read, _, is⟩ := bind_eq_ok.mp rest
  cases is
  rfl

/-- One turn more. -/
theorem Takes.turn {first : MsgReader} {good : List RtMsg}
    (takes : rtc.Takes conf mems junk first good)
    (ran : rtc.turn plan alarmEndpt conf mems junk met = .ok next) :
    ∃ good', next.Takes conf mems junk first good' := by
  cases going : rtc.done with
  | true =>
    unfold Rtc.turn at ran
    rw [if_pos going] at ran
    cases ran
    exact ⟨good, takes⟩
  | false =>
    have does := turn_messages going ran
    rcases takes.rest with ⟨nothing, received, handled⟩ | ⟨bad, times, other, is, received, handled⟩
    · rw [nothing, Option.none_or] at does
      cases comes : met.recvd.filter (·.payload ≠ []) with
      | none =>
        rw [comes] at does
        obtain ⟨msg, reader, received', handled'⟩ := does
        exact ⟨good, takes.tables, by rw [reader]; exact takes.parsed,
          .inl ⟨msg, received'.trans received, handled'.trans handled⟩⟩
      | some msg =>
        rw [comes] at does
        obtain ⟨parsed, isMsg, handled', received'⟩ := does
        rw [handled] at handled'
        rw [received] at received'
        cases table : msg.isTable with
        | true =>
          rw [table] at isMsg
          refine ⟨good ++ [msg], ?_, ?_, .inl ⟨isMsg, received', handled'⟩⟩
          · intro one among
            rcases List.mem_append.mp among with earlier | last
            · exact takes.tables one earlier
            · rw [List.mem_singleton.mp last]
              exact table
          · exact foldlM_append_ok.mpr
              ⟨rtc.reader, takes.parsed, foldlM_cons_ok.mpr ⟨_, parsed, rfl⟩⟩
        | false =>
          rw [table] at isMsg
          have same : next.reader = rtc.reader := by
            rw [rtcParseMsg_other table] at parsed
            exact (Except.ok.inj parsed).symm
          exact ⟨good, takes.tables, by rw [same]; exact takes.parsed,
            .inr ⟨msg, 0, table, isMsg, received', handled'⟩⟩
    · -- The message that is kept is tried once more.
      rw [is, Option.some_or] at does
      obtain ⟨parsed, isMsg, handled', received'⟩ := does
      rw [other] at isMsg
      have same : next.reader = rtc.reader := by
        rw [rtcParseMsg_other other] at parsed
        exact (Except.ok.inj parsed).symm
      refine ⟨good, takes.tables, by rw [same]; exact takes.parsed,
        .inr ⟨bad, times + 1, other, isMsg, ?_, ?_⟩⟩
      · rw [received', received]
        simp
      · rw [handled', handled, List.append_assoc, ← List.replicate_succ']

/-- No table is requested: there is a message that is handled again and again, or a table came. -/
def Quiet (rtc : Rtc) : Prop := rtc.msg.isSome = true ∨ rtc.reader.haveUpdate = true

/-- Once no table is requested, none is in the next turn, and a message of another type stays. -/
theorem Quiet.turn (quiet : rtc.Quiet)
    (ran : rtc.turn plan alarmEndpt conf mems junk met = .ok next) :
    next.Quiet ∧ next.requests = rtc.requests ∧
      ∀ bad, bad.isTable = false → rtc.msg = some bad →
        next.msg = some bad ∧ next.reader = rtc.reader ∧ next.received = rtc.received := by
  -- A thread that has a message or a table does not ask; another message stays at hand.
  cases going : rtc.done with
  | true =>
    unfold Rtc.turn at ran
    rw [if_pos going] at ran
    cases ran
    exact ⟨quiet, rfl, fun bad _ is => ⟨is, rfl, rfl⟩⟩
  | false =>
    have idle : ¬ Asks rtc met := by
      rintro ⟨nothing, unseen, _⟩
      rcases quiet with is | seen
      · rw [nothing] at is
        cases is
      · rw [unseen] at seen
        cases seen
    have requests := ((turn_clock going ran).2 idle).1
    have does := turn_messages going ran
    cases comes : rtc.msg.or (met.recvd.filter (·.payload ≠ [])) with
    | none =>
      rw [comes] at does
      have nothing := (Option.or_eq_none_iff.mp comes).1
      refine ⟨?_, requests, fun bad _ is => by rw [nothing] at is; cases is⟩
      rcases quiet with is | seen
      · rw [nothing] at is
        cases is
      · exact .inr (by rw [does.2.1]; exact seen)
    | some msg =>
      rw [comes] at does
      obtain ⟨parsed, isMsg, _, received⟩ := does
      refine ⟨?_, requests, ?_⟩
      · cases table : msg.isTable with
        | true => exact .inr (rtcParseMsg_table table parsed)
        | false =>
          rw [table] at isMsg
          exact .inl (by rw [isMsg]; rfl)
      · intro bad other is
        rw [is, Option.some_or] at comes
        cases comes
        rw [other] at isMsg
        rw [rtcParseMsg_other other] at parsed
        rw [is] at received
        exact ⟨isMsg, (Except.ok.inj parsed).symm, received.trans (List.append_nil _)⟩

/-- Neither is any in the turns that follow. -/
theorem Quiet.run {turns : List RtcTurn} (quiet : rtc.Quiet)
    (ran : rtc.run plan alarmEndpt conf mems junk turns = .ok next) :
    next.requests = rtc.requests ∧
      ∀ bad, bad.isTable = false → rtc.msg = some bad →
        next.msg = some bad ∧ next.reader = rtc.reader ∧ next.received = rtc.received := by
  -- By induction on the turns, each of which leaves the thread as quiet.
  induction turns generalizing rtc with
  | nil =>
    cases ran
    exact ⟨rfl, fun bad _ is => ⟨is, rfl, rfl⟩⟩
  | cons met turns ih =>
    obtain ⟨mid, first, rest⟩ := foldlM_cons_ok.mp ran
    obtain ⟨still, requests, stays⟩ := quiet.turn first
    obtain ⟨requests', stays'⟩ := ih still rest
    refine ⟨requests'.trans requests, fun bad other is => ?_⟩
    obtain ⟨msg, reader, received⟩ := stays bad other is
    obtain ⟨msg', reader', received'⟩ := stays' bad other msg
    exact ⟨msg', reader'.trans reader, received'.trans received⟩

/-- After the first message, or where it only listens, the thread requests no table. -/
theorem Takes.quiet {first : MsgReader} {good : List RtMsg}
    (takes : rtc.Takes conf mems junk first good)
    (some_ : rtc.received ≠ [] ∨ first.haveUpdate = true) : rtc.Quiet := by
  rcases takes.rest with ⟨_, received, _⟩ | ⟨bad, _, _, is, _⟩
  · -- What was parsed last is a message with a table, if there was one.
    refine .inr ?_
    have parsed := takes.parsed
    rcases List.eq_nil_or_concat good with none_ | ⟨earlier, last, rfl⟩
    · rw [none_] at parsed received
      cases parsed
      exact some_.resolve_left (absurd received)
    · rw [List.concat_eq_append] at parsed
      obtain ⟨mid, _, final⟩ := foldlM_append_ok.mp parsed
      obtain ⟨after, one, is⟩ := foldlM_cons_ok.mp final
      cases is
      exact rtcParseMsg_table (takes.tables last (by simp)) one
  · exact .inl (by rw [is]; rfl)

/-- Messages are taken as they should be in every run. -/
theorem run_takes {seed : TableRead} {now : Nat} {turns : List RtcTurn}
    (ran : (start plan seed now).run plan alarmEndpt conf mems junk turns = .ok rtc) :
    ∃ good, rtc.Takes conf mems junk ⟨seed, [], plan.listens⟩ good := by
  -- What is taken is an invariant of the turns, which starts with nothing received.
  refine foldlM_invariant
    (fun rtc => ∃ good, Takes conf mems junk ⟨seed, [], plan.listens⟩ rtc good) ?_ ?_ ran
  · intro rtc met next takes turned
    obtain ⟨good, takes⟩ := takes
    exact takes.turn turned
  · exact ⟨[], fun msg among => absurd among List.not_mem_nil, rfl, .inl ⟨rfl, rfl, rfl⟩⟩

/-- Tables are requested apart by the seconds that are set, between 1 and 300, as long as the clock
is within an int; in no turn that could receive the first message is the last request longer ago
than that. Where the thread only listens it requests none; and from the first message on, of
whatever type it is and whatever comes of it, it requests none any more. -/
theorem run_requests (env : RtcEnv) (seed : TableRead) (now : Nat) (turns : List RtcTurn)
    (ran : (start env.plan seed now).run env.plan alarmEndpt conf mems junk turns = .ok rtc) :
    (1 ≤ env.freq ∧ env.freq ≤ 300) ∧
    rtc.requests.Pairwise (fun later earlier =>
      earlier.stop + env.freq ≤ intMax → earlier.stop + env.freq ≤ later.start) ∧
    (∀ met next, rtc.turn env.plan alarmEndpt conf mems junk met = .ok next → rtc.done = false →
      env.plan.listens = false → rtc.received = [] →
      ∃ last ∈ next.requests.head?, (rtc.now + met.idle : Nat) < last.stop + env.freq) ∧
    (env.plan.listens = true → rtc.requests = []) ∧
    (rtc.received ≠ [] → ∀ more next, rtc.run env.plan alarmEndpt conf mems junk more = .ok next →
      next.requests = rtc.requests) := by
  -- Pacing and taking are two invariants of the run; each part of the statement is read off them.
  have often : 1 ≤ env.plan.rtReqFreq := by
    rw [env.plan_freq]
    exact env.freq_bounds.1
  have began : (start env.plan seed now).Paced env.plan.rtReqFreq :=
    ⟨rfl, fun req among => absurd among List.not_mem_nil, .nil⟩
  have paced : rtc.Paced env.plan.rtReqFreq :=
    foldlM_invariant (Paced env.plan.rtReqFreq) (fun paced turned => paced.turn often turned)
      began ran
  obtain ⟨good, takes⟩ := run_takes ran
  rw [← env.plan_freq]
  refine ⟨by rw [env.plan_freq]; exact env.freq_bounds, paced.spaced, ?_, ?_, ?_⟩
  · intro met next turned going asking empty
    have nothing : rtc.msg = none ∧ good = [] := by
      rcases takes.rest with ⟨nothing, received, _⟩ | ⟨bad, _, _, _, received, _⟩
      · exact ⟨nothing, received.symm.trans empty⟩
      · rw [received] at empty
        simp at empty
    have unseen : rtc.reader.haveUpdate = false := by
      have parsed := takes.parsed
      rw [nothing.2] at parsed
      rw [← Except.ok.inj parsed]
      exact asking
    have paced' := paced.turn often turned
    by_cases asks : Asks rtc met
    · obtain ⟨requests, _, _⟩ := (turn_clock going turned).1 asks
      rw [requests]
      exact ⟨_, rfl, by dsimp only; push_cast; omega⟩
    · obtain ⟨requests, _, _⟩ := (turn_clock going turned).2 asks
      have early : ¬ rtc.nxtRtReq ≤ (rtc.now + met.idle : Nat) :=
        fun due => asks ⟨nothing.1, unseen, due⟩
      rw [requests]
      rw [paced.due] at early
      cases last : rtc.requests.head? with
      | none =>
        rw [last] at early
        exact absurd (Int.natCast_nonneg _) early
      | some req =>
        rw [last, Option.elim_some] at early
        have low : toInt (req.stop + env.plan.rtReqFreq) ≤ req.stop + env.plan.rtReqFreq :=
          toInt_le (by simp only [intMin]; omega)
        exact ⟨req, rfl, by omega⟩
  · intro listens
    have quiet : (start env.plan seed now).Quiet := .inr listens
    exact (quiet.run ran).1
  · intro came more next onward
    exact ((takes.quiet (.inl came)).run onward).1

/-- The control port is set and the route manager is not, and the frequency is seven seconds. -/
def requestEnv : RtcEnv := ⟨some ['7'], some "4560".toList, none⟩

/-- A turn of five seconds in which no message comes. A request goes well. -/
def quietTurn : RtcTurn where
  outside := []
  idle := 4
  request := ⟨true, true, .ok⟩
  took := 0
  recvd := none
  waited := 1
  shutdown := false
  alarm := none
  acks := fun _ => ⟨true, some .ok, true, .ok⟩
  closing := false

/-- The same with a message. -/
def msgTurn (msg : RtMsg) : RtcTurn := { quietTurn with recvd := some msg }

/-- Two of three turns have a request. -/
theorem run_requests_twice : ∃ rtc, (start requestEnv.plan ⟨.init, 0⟩ 1000).run requestEnv.plan []
      RtCtx.confHere (fun _ => .ample) (fun _ => '?') [quietTurn, quietTurn, quietTurn] = .ok rtc ∧
    rtc.requests.map RtRequest.start = [1014, 1004] ∧
    rtc.requests.Pairwise fun later earlier =>
      earlier.stop + requestEnv.freq ≤ intMax → earlier.stop + requestEnv.freq ≤ later.start := by
  -- The run is evaluated for its requests; the theorem then tells how far they are apart.
  have yields : Yields (fun rtc => rtc.requests.map RtRequest.start = [1014, 1004])
      ((start requestEnv.plan ⟨.init, 0⟩ 1000).run requestEnv.plan [] RtCtx.confHere
        (fun _ => .ample) (fun _ => '?') [quietTurn, quietTurn, quietTurn]) := by
    decide +kernel
  obtain ⟨rtc, ran, requests⟩ := yields.exists
  exact ⟨rtc, ran, requests, (run_requests requestEnv _ _ _ ran).2.1⟩

/-- Messages with tables are parsed as they are received, each of them once, until a message of
another type comes. That one is handled again and again: no other message is received any more, and
the tables stay as they are. -/
theorem run_messages (plan : RtcPlan) (alarmEndpt : CStr) (conf : RtConf) (mems : Nat → Mem)
    (junk : Nat → Char) (seed : TableRead) (now : Nat) (turns : List RtcTurn)
    (ran : (start plan seed now).run plan alarmEndpt conf mems junk turns = .ok rtc) :
    ∃ good, rtc.Takes conf mems junk ⟨seed, [], plan.listens⟩ good ∧
      (rtc.received ≠ good → ∀ more next,
        rtc.run plan alarmEndpt conf mems junk more = .ok next →
          next.reader = rtc.reader ∧ next.received = rtc.received) := by
  -- The message that is left over is handled in each turn, and nothing else is received.
  obtain ⟨good, takes⟩ := run_takes ran
  refine ⟨good, takes, fun other more next onward => ?_⟩
  rcases takes.rest with ⟨_, received, _⟩ | ⟨bad, _, notTable, is, _⟩
  · exact absurd received other
  · have quiet : rtc.Quiet := .inl (by rw [is]; rfl)
    exact ((quiet.run onward).2 bad notTable is).2

/-- A message with a comment, one of another type, and one that is not received any more. -/
theorem run_messages_other : ∃ rtc good,
    (start requestEnv.plan ⟨.init, 0⟩ 1000).run requestEnv.plan [] RtCtx.confHere
      (fun _ => .ample) (fun _ => '?') [quietTurn, msgTurn ⟨rmrrmTableData, ['#']⟩,
        msgTurn ⟨5, ['x']⟩, msgTurn ⟨rmrrmTableData, ['#']⟩] = .ok rtc ∧
    rtc.received.length = 2 ∧ rtc.handled.length = 3 ∧
    rtc.Takes RtCtx.confHere (fun _ => .ample) (fun _ => '?') ⟨⟨.init, 0⟩, [], false⟩ good := by
  -- The run is evaluated for its numbers; the theorem then tells what was taken.
  have yields : Yields (fun rtc => rtc.received.length = 2 ∧ rtc.handled.length = 3)
      ((start requestEnv.plan ⟨.init, 0⟩ 1000).run requestEnv.plan [] RtCtx.confHere
        (fun _ => .ample) (fun _ => '?') [quietTurn, msgTurn ⟨rmrrmTableData, ['#']⟩,
          msgTurn ⟨5, ['x']⟩, msgTurn ⟨rmrrmTableData, ['#']⟩]) := by
    decide +kernel
  obtain ⟨rtc, ran, received, handled⟩ := yields.exists
  obtain ⟨good, takes, _⟩ := run_messages requestEnv.plan [] _ _ _ _ _ _ ran
  exact ⟨rtc, good, ran, received, handled, takes⟩

/-- A turn without a message goes well, and so does one with a message that can be parsed. -/
theorem turn_succeeds (going : rtc.done = false) (nothing : rtc.msg = none)
    (open_ : met.shutdown = false ∧ met.closing = false) {reader : MsgReader}
    (parsed : (met.recvd.filter (·.payload ≠ [])).elim (.ok rtc.reader)
      (rtc.reader.rtcParseMsg conf mems junk) = .ok reader)
    (tables : ∀ msg ∈ met.recvd.filter (·.payload ≠ []), msg.isTable = true) :
    ∃ next, rtc.turn plan alarmEndpt conf mems junk met = .ok next ∧ next.reader = reader ∧
      next.msg = none ∧ next.done = false := by
  -- The loop is not over and no message is left over, so that the one received is parsed.
  have waits : (rtc.wait plan alarmEndpt met).msg = met.recvd.filter (·.payload ≠ []) ∧
      (rtc.wait plan alarmEndpt met).reader = rtc.reader := by
    unfold wait
    have same : (rtc.elapse (plan.conf alarmEndpt) met).msg = none := nothing
    dsimp only
    rw [same, Option.isSome_none, if_neg Bool.false_ne_true]
    unfold ask
    split
    · exact ⟨rfl, rfl⟩
    · exact ⟨rfl, rfl⟩
  obtain ⟨msg, same⟩ := waits
  have handles : ∃ after, (rtc.wait plan alarmEndpt met).handle conf mems junk met = .ok after ∧
      after.reader = reader ∧ after.msg = none := by
    unfold handle
    rw [msg, same]
    cases comes : met.recvd.filter (·.payload ≠ []) with
    | none =>
      rw [comes] at parsed
      cases parsed
      exact ⟨_, rfl, same, msg.trans comes⟩
    | some new =>
      rw [comes] at parsed tables
      have parsed : rtc.reader.rtcParseMsg conf mems junk new = .ok reader := parsed
      have table : new.mtype = rmrrmTableData := by simpa [RtMsg.isTable] using tables new rfl
      simp only [parsed, ok_bind]
      exact ⟨_, rfl, rfl, if_pos table⟩
  obtain ⟨after, handled, isReader, isNone⟩ := handles
  refine ⟨{ after with done := met.shutdown || met.closing }, ?_, isReader, isNone, ?_⟩
  · unfold Rtc.turn
    rw [going, if_neg Bool.false_ne_true, handled]
    rfl
  · dsimp only
    rw [open_.1, open_.2]
    rfl

/-- Messages that can be parsed are, whatever else goes on between them. -/
theorem run_succeeds {turns : List RtcTurn} {reader : MsgReader} (going : rtc.done = false)
    (nothing : rtc.msg = none) (open_ : ∀ met ∈ turns, met.shutdown = false ∧ met.closing = false)
    (tables : ∀ msg ∈ turns.filterMap fun met => met.recvd.filter (·.payload ≠ []),
      msg.isTable = true)
    (parsed : (turns.filterMap fun met => met.recvd.filter (·.payload ≠ [])).foldlM
      (MsgReader.rtcParseMsg conf mems junk) rtc.reader = .ok reader) :
    ∃ next, rtc.run plan alarmEndpt conf mems junk turns = .ok next ∧ next.reader = reader ∧
      next.msg = none := by
  induction turns generalizing rtc with
  | nil =>
    cases parsed
    exact ⟨rtc, rfl, rfl, nothing⟩
  | cons met turns ih =>
    -- Either a message comes, and is the next one to be parsed, or none does.
    obtain ⟨mid, first, rest⟩ : ∃ mid, (met.recvd.filter (·.payload ≠ [])).elim (.ok rtc.reader)
          (rtc.reader.rtcParseMsg conf mems junk) = .ok mid ∧
        (turns.filterMap fun met => met.recvd.filter (·.payload ≠ [])).foldlM
          (MsgReader.rtcParseMsg conf mems junk) mid = .ok reader := by
      rw [List.filterMap_cons] at parsed
      cases comes : met.recvd.filter (·.payload ≠ []) with
      | none =>
        rw [comes] at parsed
        exact ⟨_, rfl, parsed⟩
      | some msg =>
        rw [comes] at parsed
        exact foldlM_cons_ok.mp parsed
    have here : ∀ msg ∈ met.recvd.filter (·.payload ≠ []), msg.isTable = true :=
      fun msg is => tables msg (List.mem_filterMap.mpr ⟨met, List.mem_cons_self, is⟩)
    obtain ⟨after, turned, isReader, isNone, goes⟩ : ∃ after,
        rtc.turn plan alarmEndpt conf mems junk met = .ok after ∧ after.reader = mid ∧
          after.msg = none ∧ after.done = false :=
      turn_succeeds going nothing (open_ met List.mem_cons_self) first here
    obtain ⟨next, ran, same, still⟩ := ih goes isNone (fun met among => open_ met (by simp [among]))
      (fun msg among => tables msg (by
        obtain ⟨met', inTurns, is⟩ := List.mem_filterMap.mp among
        exact List.mem_filterMap.mpr ⟨met', List.mem_cons_of_mem _ inTurns, is⟩))
      (by rw [isReader]; exact rest)
    exact ⟨next, foldlM_cons_ok.mpr ⟨after, turned, ran⟩, same, still⟩

/-- A session that comes in messages, however its records are divided between them and terminated
and whatever else goes on between them, is loaded: by the process as it was started, with a seed or
without one. -/
theorem run_loads {stash : Stash} {ret : CycleRet} {seed : Option (List Char)} {saver : Saver}
    (booted : Saver.boot conf mems stash ret seed = .ok saver) (session : Session conf)
    (kind : session.kind ≠ .updatert) (msgs : List (List TextRec))
    (whole : msgs.flatten.map TextRec.text = session.texts)
    (apart : ∀ msg ∈ msgs, OnePerLine (textOf msg) ∧ (textOf msg).length < 1073741824)
    (plan : RtcPlan) (alarmEndpt : CStr) (junk : Nat → Char) (now : Nat) (turns : List RtcTurn)
    (open_ : ∀ met ∈ turns, met.shutdown = false ∧ met.closing = false)
    (come : (turns.filterMap fun met => met.recvd.filter (·.payload ≠ [])) = msgs.map tableMsg) :
    ∃ rtc old rt,
      (start plan saver.read now).run plan alarmEndpt conf (fun _ => .ample) junk turns = .ok rtc ∧
      rtc.msg = none ∧ RtCtx.Loaded session saver.read.ctx rtc.reader.read.ctx old rt := by
  have unread : saver.readRecs conf mems [] = .ok saver := rfl
  have idle : saver.read.ctx.Idle := Saver.run_idle booted unread
  obtain ⟨old, active⟩ := Option.ne_none_iff_exists'.mp idle.active
  obtain ⟨ctx, rt, ran, loaded⟩ :=
    RtCtx.session_loads idle active session fun update => absurd update kind
  obtain ⟨read, reads, isCtx⟩ := TableRead.readRecs_of_parsed ran
  -- What the messages tell is what the records of the session tell.
  have records : told (msgs.flatMap fun msg => (textOf msg).splitOn '\n') = told session.texts := by
    rw [← (told_fileRecs_iff msgs).mpr fun msg among => (apart msg among).1,
      told_fileRecs (nul_textOf _), toldBy_textOf, whole]
  have messages : ((msgs.map tableMsg).foldlM (MsgReader.rtcParseMsg conf (fun _ => .ample) junk)
      (start plan saver.read now).reader).map MsgReader.read = .ok read := by
    rw [MsgReader.foldlM_rtcParseMsg fun msg among => (apart msg among).2,
      ← TableRead.readRecs_told, records, TableRead.readRecs_told]
    exact reads
  cases all : (msgs.map tableMsg).foldlM (MsgReader.rtcParseMsg conf (fun _ => .ample) junk)
      (start plan saver.read now).reader with
  | error fault =>
    rw [all] at messages
    cases messages
  | ok reader =>
    rw [all] at messages
    have isRead : reader.read = read := Except.ok.inj messages
    have tables : ∀ msg ∈ turns.filterMap fun met => met.recvd.filter (·.payload ≠ []),
        msg.isTable = true := by
      rw [come]
      intro msg among
      obtain ⟨recs, _, rfl⟩ := List.mem_map.mp among
      rfl
    obtain ⟨rtc, done, same, nothing⟩ : ∃ rtc, (start plan saver.read now).run plan alarmEndpt conf
        (fun _ => .ample) junk turns = .ok rtc ∧ rtc.reader = reader ∧ rtc.msg = none :=
      run_succeeds rfl rfl open_ tables (by rw [come]; exact all)
    refine ⟨rtc, old, rt, done, nothing, ?_⟩
    rw [same, isRead, isCtx]
    exact loaded

/-- No record of a full table has a character in it that ends a record. -/
theorem fullTable_clean : (∀ c ∈ "newrt|start".toList, c ≠ '\n' ∧ c ≠ '\r' ∧ c ≠ '\x00') ∧
    (∀ c ∈ "rte|1|a:1".toList, c ≠ '\n' ∧ c ≠ '\r' ∧ c ≠ '\x00') ∧
    ∀ c ∈ "newrt|end".toList, c ≠ '\n' ∧ c ≠ '\r' ∧ c ≠ '\x00' :=
  ⟨by simp, by simp, by simp⟩

/-- The records of a full table in two messages. -/
def fullTableMsgs : List (List TextRec) :=
  [[⟨"newrt|start".toList, .crlf, fullTable_clean.1⟩,
      ⟨"rte|1|a:1".toList, .newline, fullTable_clean.2.1⟩],
    [⟨"newrt|end".toList, .cr, fullTable_clean.2.2⟩]]

/-- A full table that comes after a turn without a message. -/
theorem run_loads_full : ∃ rtc old rt,
    (start requestEnv.plan ⟨.init, 0⟩ 1000).run requestEnv.plan [] RtCtx.confHere
      (fun _ => .ample) (fun _ => '?')
      (quietTurn :: fullTableMsgs.map fun msg => msgTurn (tableMsg msg)) = .ok rtc ∧
    RtCtx.Loaded RtCtx.fullTable RtCtx.init rtc.reader.read.ctx old rt := by
  -- The messages are those of a full table, one record a line, so that the theorem loads it.
  have booted : Saver.boot RtCtx.confHere (fun _ => .ample) ⟨false, none, none⟩ .well none =
      .ok ⟨⟨.init, 0⟩, ⟨false, none, none⟩, []⟩ := rfl
  obtain ⟨rtc, old, rt, ran, _, loaded⟩ := run_loads booted RtCtx.fullTable (by decide)
    fullTableMsgs (by decide) (by decide +kernel) requestEnv.plan [] (fun _ => '?') 1000
    (quietTurn :: fullTableMsgs.map fun msg => msgTurn (tableMsg msg)) (by decide) rfl
  exact ⟨rtc, old, rt, ran, loaded⟩

end Rtc

end Rmr
