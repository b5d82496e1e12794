import Rmr.Proofs.Message.Retry
import Rmr.Proofs.Message.SetTrace

/-! The buffer that comes back from a send that went well, and the room in one that was asked for.
-/

namespace Rmr

/-- The calls that send a message. -/
inductive Sends where
  /-- `rmr_send_msg` or `rmr_mtosend_msg`. -/
  | send (groups : List (Option SendResult))
  /-- `rmr_wh_send_msg`. -/
  | whSend (wormhole : Wormhole)
  deriving DecidableEq

/-- What comes back. -/
def Sends.back (conf : SendConf) (left : Leftover) (draft : Draft) :
    Sends → Except Fault (Option Draft)
  | .send groups => rmrSendMsg conf left draft groups
  | .whSend wormhole => rmrWhSendMsg conf left draft wormhole

/-- There was an endpoint to send to last, and that went well. -/
def Sends.LastOk : Sends → Prop
  | .send groups => groups.getLast? = some (some .ok)
  | .whSend wormhole => wormhole = .open_ .ok

/-- A new empty message to send, in place of one that was sent. -/
structure Mbuf.Fresh (conf : SendConf) (msg next : Mbuf) : Prop where
  len : next.len = 0
  mtype : next.mtype = unsetId
  subId : next.subId = unsetId
  trLen : rmrGetTrlen conf.order next = rmrGetTrlen conf.order msg
  room : conf.maxPlen ≤ rmrPayloadSize conf.order next

/-- A message that says no more than an empty one, and has as much room. -/
structure Mbuf.Blank (conf : SendConf) (msg : Mbuf) : Prop where
  len : msg.len = 0
  mtype : msg.mtype = unsetId
  subId : msg.subId = unsetId
  room : conf.maxPlen ≤ rmrPayloadSize conf.order msg

section
variable {order : ByteOrder} {conf : SendConf} {left : Leftover} {draft next : Draft} {msg : Mbuf}

/-- The header of a message that was allocated tells the trace data of the context, and its payload
has what else was allocated. -/
theorem freshMsg_room (sane : conf.Sane) (tpBuf : Block) (mlen : Int) (state : MsgState) :
    rmrTrLen conf.order (freshMsg conf tpBuf mlen state).tpBuf = conf.traceDataLen ∧
      (freshMsg conf tpBuf mlen state).payload = 334 + conf.traceDataLen ∧
      rmrPayloadSize conf.order (freshMsg conf tpBuf mlen state) =
        toInt (mlen - (334 + conf.traceDataLen)) := by
  -- The header's own lengths place the payload, and the rest of what was allocated is its room.
  obtain ⟨headed, starts⟩ :=
    freshHeader_headed sane.ready (insertMlen conf.order (toUint mlen) tpBuf)
  have small := sane.small
  have payload : (freshMsg conf tpBuf mlen state).payload = 334 + conf.traceDataLen := starts
  have framed : (freshMsg conf tpBuf mlen state).Framed conf.order := by
    refine ⟨inInt_toInt mlen, headed.at_ payload, ?_⟩
    rw [payload]
    simp only [intMax, tpHdrLen] at small ⊢
    omega
  refine ⟨?_, payload, ?_⟩
  · exact (freshHeader_lens conf _ sane.ready.trace (by rw [sane.ready.data1]; decide)).2.1
  · rw [rmrPayloadSize_behind framed, payload]
    exact toInt_toInt_sub mlen _

/-- For a message with the trace data of the context, room for its headers and the payload of the
context is asked for. -/
theorem zcmsgLen_context (sane : conf.Sane) {trlo : Int} (same : trlo = conf.traceDataLen) :
    zcmsgLen conf 0 trlo = 334 + conf.traceDataLen + conf.maxPlen := by
  rw [zcmsgLen, sane.ready.data1, same]
  simp only [mhdrLen, tpHdrLen]
  split <;> omega

/-- The buffer that replaces one of a message with the trace data of the context has room for the
payload of the context. -/
theorem freshMsg_enough (sane : conf.Sane) (plen : (conf.maxPlen : Int) ≤ intMax) {allocs : Nat}
    {sent : Mbuf} {trlo : Int} (same : trlo = conf.traceDataLen) (inInt : InInt sent.allocLen)
    (nonneg : 0 ≤ sent.allocLen)
    (made : allocZcmsg conf left allocs (some sent) 0 .ok trlo = .ok next) :
    ∃ tpBuf mlen, next.msg = freshMsg conf tpBuf mlen .ok ∧
      conf.maxPlen ≤ toInt (mlen - (334 + conf.traceDataLen)) := by
  obtain ⟨tpBuf, mlen, is, from_⟩ := allocZcmsg_made made
  rw [zcmsgLen_context sane same] at from_
  refine ⟨tpBuf, mlen, is, ?_⟩
  rcases from_ with ⟨mlenIs, -⟩ | ⟨old, oldIs, enough, -, mlenIs⟩
  · have rest : mlen - (334 + conf.traceDataLen) = conf.maxPlen := by omega
    rw [rest, toInt_natCast plen]
  · -- The buffer of the message that was sent is large enough.
    obtain rfl := Option.some.inj oldIs
    have enough := enough nonneg
    have high := inInt.2
    rw [toInt_of_inInt ⟨by simp only [intMin]; omega, by omega⟩]
    omega

/-- The message that replaces one that was sent is fresh exactly if that had as much trace data as
the context tells. -/
theorem Replaces.fresh_iff (sane : conf.Sane) (plen : (conf.maxPlen : Int) ≤ intMax)
    (framed : msg.Framed conf.order) (replaces : Replaces conf left msg next) :
    msg.Fresh conf next.msg ↔ rmrTrLen conf.order msg.tpBuf = conf.traceDataLen := by
  -- The next message is allocated with the context's trace length, whatever the old one had.
  obtain ⟨sent, allocs, kin, nonneg, made⟩ := replaces
  have small := sane.small
  have context : toInt conf.traceDataLen = conf.traceDataLen := toInt_natCast (by omega)
  have had : rmrGetTrlen conf.order msg = rmrTrLen conf.order msg.tpBuf := framed.trLen_int
  constructor
  · intro fresh
    obtain ⟨tpBuf, mlen, is, -⟩ := allocZcmsg_made made
    have same := fresh.trLen
    rw [is, had, rmrGetTrlen, (freshMsg_room sane tpBuf mlen .ok).1, context] at same
    exact_mod_cast same.symm
  · intro same
    have was : toInt (rmrTrLen conf.order sent.tpBuf) = conf.traceDataLen := by
      rw [kin.trLen, same, context]
    obtain ⟨tpBuf, mlen, is, enough⟩ :=
      freshMsg_enough sane plen was (kin.framed framed).inInt nonneg made
    obtain ⟨trLen, -, room⟩ := freshMsg_room sane tpBuf mlen .ok
    rw [is]
    exact ⟨rfl, rfl, rfl, by rw [rmrGetTrlen, trLen, context, had, same], room ▸ enough⟩

/-- A message that says the same as the one that was sent is fresh only if that was blank. -/
theorem Mbuf.Kin.fresh_iff {other : Mbuf} (kin : other.Kin msg) :
    msg.Fresh conf other ↔ msg.Blank conf := by
  -- Length, type and id are those of the message, so that only a blank one counts as fresh.
  have room := kin.payloadSize conf.order
  constructor
  · intro fresh
    exact ⟨kin.len ▸ fresh.len, kin.mtype ▸ fresh.mtype, kin.subId ▸ fresh.subId, room ▸ fresh.room⟩
  · intro blank
    exact {
      len := kin.len.trans blank.len
      mtype := kin.mtype.trans blank.mtype
      subId := kin.subId.trans blank.subId
      trLen := congrArg (fun trLen : Nat => toInt trLen) (kin.trLen conf.order)
      room := room ▸ blank.room }

/-- The head of a message is all that its being fresh or blank goes by. -/
theorem fresh_congr {other : Mbuf} (fresh : Mbuf) (alike : other.Alike msg)
    (mtype : other.mtype = msg.mtype) (subId : other.subId = msg.subId) :
    (other.Fresh conf fresh ↔ msg.Fresh conf fresh) ∧ (other.Blank conf ↔ msg.Blank conf) := by
  -- Trace length and room are computed from the lengths and from what was allocated, which are the
  -- same.
  obtain ⟨-, len1, -, -⟩ := lens_congr conf.order alike.keeps.lens
  have trLen : rmrGetTrlen conf.order other = rmrGetTrlen conf.order msg :=
    congrArg (fun trLen : Nat => toInt trLen) len1
  have room : rmrPayloadSize conf.order other = rmrPayloadSize conf.order msg := by
    rw [rmrPayloadSize, rmrPayloadSize, alike.allocLen, rmrHdrLen_congr conf.order alike.keeps.lens]
  constructor
  · constructor
    · intro is
      exact ⟨is.len, is.mtype, is.subId, is.trLen.trans trLen, is.room⟩
    · intro is
      exact ⟨is.len, is.mtype, is.subId, is.trLen.trans trLen.symm, is.room⟩
  · constructor
    · intro is
      exact ⟨alike.len ▸ is.len, mtype ▸ is.mtype, subId ▸ is.subId, room ▸ is.room⟩
    · intro is
      exact ⟨alike.len.trans is.len, mtype.trans is.mtype, subId.trans is.subId, room ▸ is.room⟩

/-- Blotting out the call id leaves the message type and the subscription id. -/
theorem blotCallId_ids {other : Mbuf} (made : msg.blotCallId order = .ok other) :
    other.mtype = msg.mtype ∧ other.subId = msg.subId ∧ other.noAlloc = msg.noAlloc := by
  obtain ⟨blotted, -, is⟩ := bind_eq_ok.mp made
  cases is
  exact ⟨rfl, rfl, rfl⟩

/-- What `rmr_send_msg` returns as sent is fresh after a last send that went well if the trace data
was that of the context; after one that did not, it is the message itself. -/
theorem rmrSendMsg_fresh_iff {groups : List (Option SendResult)} (sane : conf.Sane)
    (plen : (conf.maxPlen : Int) ≤ intMax) (framed : draft.msg.Framed conf.order)
    (sent : rmrSendMsg conf left draft groups = .ok (some next)) :
    draft.msg.Fresh conf next.msg ↔
      groups.getLast? = some (some .ok) ∧
          rmrTrLen conf.order draft.msg.tpBuf = conf.traceDataLen ∨
        groups.getLast? ≠ some (some .ok) ∧ draft.msg.Blank conf := by
  obtain ⟨blotted, blottedIs, tried⟩ := bind_eq_ok.mp sent
  have unmarked := unmarkCall_alike conf.order draft.msg
  have alike := (blotCallId_alike (unmarked.framed framed) blottedIs).trans unmarked
  obtain ⟨mtype, subId, -⟩ := blotCallId_ids blottedIs
  obtain ⟨-, len1, -, -⟩ := lens_congr conf.order alike.keeps.lens
  have trLen : rmrTrLen conf.order blotted.tpBuf = rmrTrLen conf.order draft.msg.tpBuf := len1
  have framed := alike.framed framed
  rw [← (fresh_congr next.msg alike mtype subId).1, ← (fresh_congr next.msg alike mtype subId).2,
    ← trLen]
  cases mtosendMsg_back framed tried with
  | inl replaced =>
    obtain ⟨ok, back, replaces, state, is⟩ := replaced
    -- The state and the flag that are put in say nothing of the contents.
    have same : blotted.Fresh conf next.msg ↔ blotted.Fresh conf back.msg := by
      rw [is]
      constructor
      · intro fresh
        exact ⟨fresh.len, fresh.mtype, fresh.subId, fresh.trLen, fresh.room⟩
      · intro fresh
        exact ⟨fresh.len, fresh.mtype, fresh.subId, fresh.trLen, fresh.room⟩
    rw [same, replaces.fresh_iff sane plen framed]
    simp [ok]
  | inr kept =>
    obtain ⟨failed, kin⟩ := kept
    rw [kin.fresh_iff]
    simp [failed]

/-- What `rmr_wh_send_msg` returns as sent is fresh if the trace data was that of the context. -/
theorem rmrWhSendMsg_fresh_iff {wormhole : Wormhole} (sane : conf.Sane)
    (plen : (conf.maxPlen : Int) ≤ intMax) (framed : draft.msg.Framed conf.order)
    (sent : rmrWhSendMsg conf left draft wormhole = .ok (some next)) (ok : next.msg.state = .ok) :
    wormhole = .open_ .ok ∧ (draft.msg.Fresh conf next.msg ↔
      rmrTrLen conf.order draft.msg.tpBuf = conf.traceDataLen) := by
  -- The cases are those of the wormhole; only an open one sends.
  cases wormhole with
  | noneOpen =>
    cases sent
    cases ok
  | invalid =>
    cases sent
    cases ok
  | open_ result =>
    obtain ⟨blotted, blottedIs, tried⟩ := bind_eq_ok.mp sent
    have framedOk : ({ draft.msg with state := .ok } : Mbuf).Framed conf.order :=
      framed.keep rfl rfl rfl
    have alike : blotted.Alike { draft.msg with state := .ok } :=
      blotCallId_alike framedOk blottedIs
    obtain ⟨mtype, subId, -⟩ := blotCallId_ids blottedIs
    have alike : blotted.Alike draft.msg :=
      ⟨alike.allocLen, alike.payload, alike.len, alike.addSrc, alike.keeps⟩
    obtain ⟨-, len1, -, -⟩ := lens_congr conf.order alike.keeps.lens
    have trLen : rmrTrLen conf.order blotted.tpBuf = rmrTrLen conf.order draft.msg.tpBuf := len1
    rw [← (fresh_congr next.msg alike mtype subId).1, ← trLen]
    cases trySend_replaces tried with
    | inl went => exact ⟨by rw [went.1], went.2.fresh_iff sane plen (alike.framed framed)⟩
    | inr failed => exact absurd ok failed.2.1

/-- A message that is allocated for a size has room for a payload of it. -/
theorem allocZcmsg_room (sane : conf.Sane) (plen : (conf.maxPlen : Int) ≤ intMax) {allocs : Nat}
    {size trlo : Int} {state : MsgState} (inInt : InInt size)
    (made : allocZcmsg conf left allocs none size state trlo = .ok next) :
    ∃ tpBuf, ∃ room, size ≤ room ∧ InInt room ∧ next.msg = freshMsg conf tpBuf
      (334 + (if 0 < trlo then trlo else (conf.traceDataLen : Int)) + room) state := by
  -- Without a message passed in, the buffer is as large as the lengths asked for add up to.
  obtain ⟨tpBuf, mlen, is, from_⟩ := allocZcmsg_made made
  have asked : zcmsgLen conf size trlo =
      334 + (if 0 < trlo then trlo else (conf.traceDataLen : Int)) +
        (if 0 < size then size else (conf.maxPlen : Int)) := by
    rw [zcmsgLen, sane.ready.data1]
    simp only [mhdrLen, tpHdrLen]
    omega
  cases from_ with
  | inl fresh =>
    rw [asked] at fresh
    refine ⟨tpBuf, if 0 < size then size else (conf.maxPlen : Int), ?_, ?_, fresh.1 ▸ is⟩
    · split <;> omega
    · split
      · exact inInt
      · exact ⟨by simp only [intMin]; omega, plen⟩
  | inr reused =>
    obtain ⟨old, none_, -⟩ := reused
    cases none_

/-- `rmr_alloc_msg` gives the room that it was asked for. -/
theorem rmrAllocMsg_room (sane : conf.Sane) (plen : (conf.maxPlen : Int) ≤ intMax) {size : Int}
    (inInt : InInt size) (made : rmrAllocMsg conf left size = .ok next) :
    size ≤ rmrPayloadSize conf.order next.msg := by
  -- The trace length asked for is not positive, so that the context's is used.
  obtain ⟨tpBuf, room, enough, fits, is⟩ := allocZcmsg_room sane plen inInt made
  have behind : 334 + (if (0 : Int) < -1 then (-1 : Int) else (conf.traceDataLen : Int)) + room -
      (334 + conf.traceDataLen) = room := by
    rw [if_neg (by decide)]
    omega
  rw [is, (freshMsg_room sane _ _ _).2.2, behind, toInt_of_inInt fits]
  exact enough

/-- `rmr_tralloc_msg` does, too. -/
theorem rmrTrallocMsg_room (sane : conf.Sane) (plen : (conf.maxPlen : Int) ≤ intMax) {size : Int}
    {data : List UInt8} (inInt : InInt size) (fits : (data.length : Int) ≤ intMax)
    (made : rmrTrallocMsg conf left size data = .ok next) :
    size ≤ rmrPayloadSize conf.order next.msg := by
  obtain ⟨first, firstIs, set_⟩ := bind_eq_ok.mp made
  obtain ⟨tpBuf, room, enough, roomFits, is⟩ := allocZcmsg_room sane plen inInt firstIs
  obtain ⟨trLen, payload, size_⟩ := freshMsg_room sane tpBuf
    (334 + (if (0 : Int) < data.length then (data.length : Int) else (conf.traceDataLen : Int)) +
      room) .ok
  rw [← is] at trLen payload size_
  by_cases none_ : data = []
  · -- There is no trace data to put in, and the context tells how much there is room for.
    rw [rmrSetTrace, if_pos (by simp [none_])] at set_
    cases set_
    have behind : 334 + (if (0 : Int) < data.length then (data.length : Int)
        else (conf.traceDataLen : Int)) + room - (334 + conf.traceDataLen) = room := by
      rw [if_neg (by simp [none_])]
      omega
    rw [size_, behind, toInt_of_inInt roomFits]
    exact enough
  · have framed := (allocZcmsg_sourced sane firstIs).1
    obtain ⟨-, resized, -⟩ := rmrSetTrace_made framed none_ fits set_
    have starts := resized.starts
    have some_ := List.length_pos_iff.mpr none_
    have allocLen : next.msg.allocLen = toInt (334 + (data.length : Int) + room) := by
      rw [resized.allocLen, is, if_pos (by omega)]
      rfl
    have behind : 334 + (data.length : Int) + room - next.msg.payload = room := by omega
    rw [rmrPayloadSize_behind resized.framed, allocLen, toInt_toInt_sub, behind,
      toInt_of_inInt roomFits]
    exact enough

/-- A message that comes back as sent is a fresh one exactly if the last send went well and the
message had as much trace data as the context tells, or that send did not go well and the message
was blank itself; and a message that is allocated has the room that was asked for. -/
theorem sends_fresh_iff (conf : SendConf) (left : Leftover) (sane : conf.Sane)
    (plen : (conf.maxPlen : Int) ≤ intMax) :
    (∀ (sends : Sends) (draft next : Draft), draft.msg.Framed conf.order →
      sends.back conf left draft = .ok (some next) → next.msg.state = .ok →
      (draft.msg.Fresh conf next.msg ↔
        sends.LastOk ∧ rmrTrLen conf.order draft.msg.tpBuf = conf.traceDataLen ∨
          ¬ sends.LastOk ∧ draft.msg.Blank conf)) ∧
    (∀ (size : Int) (draft : Draft), InInt size → rmrAllocMsg conf left size = .ok draft →
      size ≤ rmrPayloadSize conf.order draft.msg) ∧
    (∀ (size : Int) (data : List UInt8) (draft : Draft), InInt size →
      (data.length : Int) ≤ intMax → rmrTrallocMsg conf left size data = .ok draft →
      size ≤ rmrPayloadSize conf.order draft.msg) := by
  -- One case for each way of sending; what is allocated is told of apart from them.
  refine ⟨?_, fun size draft => rmrAllocMsg_room sane plen,
    fun size data draft => rmrTrallocMsg_room sane plen⟩
  intro sends draft next framed sent ok
  cases sends with
  | send groups => exact rmrSendMsg_fresh_iff sane plen framed sent
  | whSend wormhole =>
    obtain ⟨went, iff_⟩ := rmrWhSendMsg_fresh_iff sane plen framed sent ok
    rw [iff_, Sends.LastOk, went]
    simp

end

/-- A message without trace data that went out, and the room in one of twenty bytes. -/
theorem sends_fresh_twenty :
    Yields (fun draft => Yields (fun back => ∃ next, back = some next ∧
        draft.msg.Fresh SendConf.plain next.msg)
        ((Sends.send [some .ok]).back SendConf.plain (fun _ _ => 0) draft))
      (compose SendConf.plain (fun _ _ => 0) (.alloc 20) [.mtype 7, .payload [1, 2]]) ∧
    Yields (fun draft => 20 ≤ rmrPayloadSize .little draft.msg)
      (rmrAllocMsg SendConf.plain (fun _ _ => 0) 20) := by
  -- The outcome is evaluated; the theorem then gives a fresh message and its room.
  obtain ⟨fresh, room, -⟩ := sends_fresh_iff SendConf.plain (fun _ _ => 0) plain_sane (by decide)
  have goes : Yields (fun draft => rmrTrLen .little draft.msg.tpBuf = 0 ∧
      Yields (fun back => ∃ next ∈ back, next.msg.state = .ok)
        ((Sends.send [some .ok]).back SendConf.plain (fun _ _ => 0) draft))
      (compose SendConf.plain (fun _ _ => 0) (.alloc 20) [.mtype 7, .payload [1, 2]]) := by
    decide +kernel
  have made : Yields (fun draft => draft.allocs = 1)
      (rmrAllocMsg SendConf.plain (fun _ _ => 0) 20) := by
    decide +kernel
  constructor
  · obtain ⟨draft, composed, trLen, sent⟩ := goes.exists
    obtain ⟨back, backIs, next, is, ok⟩ := sent.exists
    obtain rfl := Option.mem_def.mp is
    exact Yields.intro composed (Yields.intro backIs ⟨next, rfl,
      (fresh (.send [some .ok]) draft next (compose_framed plain_sane composed) backIs ok).mpr
        (.inl ⟨rfl, trLen⟩)⟩)
  · obtain ⟨draft, is, -⟩ := made.exists
    exact Yields.intro is (room 20 draft (by decide) is)

/-- A message with trace data of its own comes back as one without any; and one that went to the
first of two groups, but not to the second, comes back as sent with all that it said. -/
theorem sent_not_fresh :
    Yields (fun draft => Yields (fun back => ∃ next ∈ back, next.msg.state = .ok ∧
        rmrGetTrlen .little draft.msg = 1 ∧ rmrGetTrlen .little next.msg = 0 ∧
        ¬ draft.msg.Fresh SendConf.plain next.msg)
        ((Sends.send [some .ok]).back SendConf.plain (fun _ _ => 0) draft))
      (rmrTrallocMsg SendConf.plain (fun _ _ => 0) 20 [7]) ∧
    Yields (fun draft => Yields (fun back => ∃ next ∈ back, next.msg.state = .ok ∧
        next.msg.len = 2 ∧ ¬ draft.msg.Fresh SendConf.plain next.msg)
        ((Sends.send [some .ok, some .failed]).back SendConf.plain (fun _ _ => 0) draft))
      (compose SendConf.plain (fun _ _ => 0) (.alloc 20) [.mtype 7, .payload [1, 2]]) := by
  -- Both messages come back as sent, with another trace length or with their own length.
  have cut : Yields (fun draft => Yields (fun back => ∃ next ∈ back, next.msg.state = .ok ∧
        rmrGetTrlen .little draft.msg = 1 ∧ rmrGetTrlen .little next.msg = 0)
        ((Sends.send [some .ok]).back SendConf.plain (fun _ _ => 0) draft))
      (rmrTrallocMsg SendConf.plain (fun _ _ => 0) 20 [7]) := by
    decide +kernel
  have kept : Yields (fun draft => Yields (fun back => ∃ next ∈ back, next.msg.state = .ok ∧
        next.msg.len = 2)
        ((Sends.send [some .ok, some .failed]).back SendConf.plain (fun _ _ => 0) draft))
      (compose SendConf.plain (fun _ _ => 0) (.alloc 20) [.mtype 7, .payload [1, 2]]) := by
    decide +kernel
  constructor
  · obtain ⟨draft, made, sent⟩ := cut.exists
    obtain ⟨back, backIs, next, is, ok, had, has⟩ := sent.exists
    refine Yields.intro made (Yields.intro backIs ⟨next, is, ok, had, has, fun fresh => ?_⟩)
    have same := fresh.trLen
    change rmrGetTrlen .little next.msg = rmrGetTrlen .little draft.msg at same
    rw [had, has] at same
    cases same
  · obtain ⟨draft, made, sent⟩ := kept.exists
    obtain ⟨back, backIs, next, is, ok, has⟩ := sent.exists
    refine Yields.intro made (Yields.intro backIs ⟨next, is, ok, has, fun fresh => ?_⟩)
    have empty := fresh.len
    rw [has] at empty
    cases empty

end Rmr
