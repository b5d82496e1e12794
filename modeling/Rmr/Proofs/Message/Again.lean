import Rmr.Message.Again
import Rmr.Proofs.Message.Blot

/-! Returning a message to its sender again and again: the source in it is put back each time. -/

namespace Rmr

section
variable {tpBuf next : Block} {start : Nat} {str other : List UInt8}

/-- What is read up to the byte that ends it. -/
theorem Holds.behind (holds : Holds tpBuf start str) :
    ∃ rest, tpBuf.slice start (tpBuf.size - start) = str ++ 0 :: rest := by
  have room := holds.room
  -- The string and the byte that ends it stand in front of the rest of the block.
  obtain ⟨more, whole⟩ : ∃ more, tpBuf.size - start = str.length + 1 + more :=
    ⟨tpBuf.size - start - (str.length + 1), by omega⟩
  refine ⟨tpBuf.slice (start + (str.length + 1)) more, ?_⟩
  rw [whole, Block.slice_add, holds.bytes, List.append_assoc]
  rfl

/-- A string that is followed by a byte that ends it is all that is read. -/
theorem takeWhile_ended (ended : 0 ∉ str) (rest : List UInt8) :
    (str ++ 0 :: rest).takeWhile (· ≠ 0) = str := by
  -- No byte of the string ends it, and the byte behind it does.
  rw [List.takeWhile_append_of_pos]
  · simp
  · intro byte among
    simp only [decide_eq_true_eq]
    exact fun zero => ended (zero ▸ among)

/-- `strdup` copies the string. -/
theorem Holds.strdup (holds : Holds tpBuf start str) : tpBuf.strdup start = .ok str := by
  obtain ⟨rest, is⟩ := holds.behind
  unfold Block.strdup
  dsimp only
  rw [is, if_pos (by simp), takeWhile_ended holds.ended]

/-- It is looked up as a name. -/
theorem Holds.name (holds : Holds tpBuf start str) :
    tpBuf.name start = str.map fun byte => Char.ofNat byte.toNat := by
  obtain ⟨rest, is⟩ := holds.behind
  rw [Block.name, is, takeWhile_ended holds.ended]

/-- A string is there where its bytes are. -/
theorem Holds.congr (holds : Holds tpBuf start str) (size : next.size = tpBuf.size)
    (same : ∀ count, count ≤ rmrMaxSrc → next.slice start count = tpBuf.slice start count) :
    Holds next start str where
  ended := holds.ended
  short := holds.short
  room := size ▸ holds.room
  bytes := (same _ holds.short).trans holds.bytes

/-- A string that is filled in is there, up to the length of the field. -/
theorem Holds.fill (tpBuf : Block) (ended : 0 ∉ str) (short : str.length < rmrMaxSrc)
    (room : start + rmrMaxSrc ≤ tpBuf.size ∨ start + str.length + 1 ≤ tpBuf.size) :
    Holds (ztBufFill tpBuf start str rmrMaxSrc) start str where
  -- The string is short, so that it is followed by its zero byte within the field.
  ended := ended
  short := short
  room := by
    change start + str.length + 1 ≤ tpBuf.size
    omega
  bytes := by
    have whole : ztString str = str ++ [0] := by
      rw [ztString, List.take_of_length_le (by omega)]
    have filled := ztBufFill_string tpBuf start str
    rw [whole, List.length_append, List.length_singleton] at filled
    exact filled

end

section
variable {conf : SendConf} {left : Leftover} {draft : Draft} {back : Option Draft}
  {msg other : Mbuf} {src ip : List UInt8}

/-- A message whose source fields are the same is from the same source. -/
theorem Mbuf.From.congr {next : Mbuf} (from_ : msg.From src ip)
    (size : next.tpBuf.size = msg.tpBuf.size)
    (srcSame : ∀ count, count ≤ 64 → next.tpBuf.slice 126 count = msg.tpBuf.slice 126 count)
    (ipSame : ∀ count, count ≤ 64 → next.tpBuf.slice 266 count = msg.tpBuf.slice 266 count) :
    next.From src ip where
  src := from_.src.congr size srcSame
  ip := from_.ip.congr size ipSame

/-- Turning the call flag off leaves the source alone. -/
theorem Mbuf.From.unmarkCall (from_ : msg.From src ip) (order : ByteOrder) :
    (msg.unmarkCall order).From src ip :=
  -- The flags stand between the two fields.
  from_.congr rfl (fun count within => putFlags_apart _ _ (.inl (by omega)))
    fun count within => putFlags_apart _ _ (.inr (by decide))

/-- A message that the source was put into again is from there. -/
theorem restoreSource_from (draft : Draft) (from_ : msg.From src ip)
    (room : HdrField.srcip.offset + rmrMaxSrc ≤ draft.msg.tpBuf.size ∨
      draft.msg.tpBuf.size = msg.tpBuf.size) :
    (draft.restoreSource src ip).msg.From src ip := by
  have srcRoom := from_.src.room
  have ipRoom := from_.ip.room
  have srcShort := from_.src.short
  simp only [HdrField.offset, tpHdrLen, rmrMaxSrc] at room srcRoom ipRoom srcShort
  have named : Holds (ztBufFill draft.msg.tpBuf HdrField.src.offset src rmrMaxSrc)
      HdrField.src.offset src :=
    Holds.fill _ from_.src.ended from_.src.short (by
      simp only [HdrField.offset, tpHdrLen, rmrMaxSrc]
      omega)
  constructor
  · -- The address is put behind the name.
    refine named.congr rfl fun count within => ?_
    simp only [rmrMaxSrc] at within
    exact ztBufFill_outside _ _ _ _ (by decide) (.inl (by
      simp only [HdrField.offset, tpHdrLen]
      omega))
  · refine Holds.fill _ from_.ip.ended from_.ip.short ?_
    change _ ≤ draft.msg.tpBuf.size ∨ _ ≤ draft.msg.tpBuf.size
    simp only [HdrField.offset, tpHdrLen, rmrMaxSrc]
    omega

/-- `rmr_rts_msg` gives back a message from the same source, whatever sending came to. -/
theorem rmrRtsMsg_from {result : Option SendResult} (from_ : draft.msg.From src ip)
    (kept : draft.msg.noAlloc = false) (tried : rmrRtsMsg conf left draft result = .ok back) :
    ∃ next, back = some next ∧ next.msg.From src ip ∧ next.msg.noAlloc = false := by
  have unmarked := from_.unmarkCall conf.order
  cases result with
  | none =>
    cases tried
    exact ⟨_, rfl, ⟨unmarked.src, unmarked.ip⟩, kept⟩
  | some result =>
    obtain ⟨holdSrc, holdIp, sent, holdSrcIs, holdIpIs, sentIs, rfl⟩ := rmrRtsMsg_steps tried
    -- What is held is what the message had.
    rw [unmarked.src.strdup] at holdSrcIs
    rw [unmarked.ip.strdup] at holdIpIs
    cases holdSrcIs
    cases holdIpIs
    obtain ⟨bytes, -, ⟨-, flagged, -⟩ | ⟨-, -, next, rfl, nextIs⟩ | ⟨-, state, -, rfl⟩⟩ :=
      trySend_cases sentIs
    · exact absurd (kept.symm.trans flagged) (by decide)
    · -- The next message is in memory that has room for a header, or in the buffer of this one.
      obtain ⟨tpBuf, mlen, is, made⟩ := allocZcmsg_made nextIs
      have size : next.msg.tpBuf.size = tpBuf.size := by
        rw [is]
        rfl
      have flag : next.msg.noAlloc = false := by
        rw [is]
        rfl
      refine ⟨_, rfl, restoreSource_from next from_ ?_, flag⟩
      rw [size]
      cases made with
      | inl fresh =>
        have room : (tpHdrLen + mhdrLen : Int) ≤ mlen := fresh.1 ▸ zcmsgLen_room conf _ _
        have held := fresh.2
        simp only [HdrField.offset, tpHdrLen, mhdrLen, rmrMaxSrc] at room ⊢
        omega
      | inr reused =>
        obtain ⟨old, oldIs, -, bufIs, -⟩ := reused
        cases oldIs
        rw [bufIs]
        exact .inr (prepare_size conf _)
    · refine ⟨_, rfl, restoreSource_from _ from_ (.inr ?_), kept⟩
      exact prepare_size conf _

/-- The descriptor that `rmr_rts_msg` sends on is the same where the source, the descriptor of the
message and its version are. -/
theorem rtsSock_congr {σ : Type} {order : ByteOrder} (byName byAddr : σ → CStr → σ × Option Int)
    (state : σ) (from_ : msg.From src ip) (again : other.From src ip)
    (rtsFd : other.rtsFd = msg.rtsFd)
    (version : hdrGet order other.tpBuf .rmrVer = hdrGet order msg.tpBuf .rmrVer) :
    rtsSock order byName byAddr state other = rtsSock order byName byAddr state msg := by
  unfold rtsSock Mbuf.rtsTurn
  rw [again.src.name, again.ip.name, from_.src.name, from_.ip.name, rtsFd, version]

/-- It is in any case where the source can be reached by its name. -/
theorem rtsSock_named {σ : Type} {order : ByteOrder}
    {byName : σ → CStr → σ × Option Int} {state : σ}
    (byAddr : σ → CStr → σ × Option Int) (from_ : msg.From src ip) (again : other.From src ip)
    (reached : (byName state (msg.tpBuf.name HdrField.src.offset)).2 ≠ none) :
    rtsSock order byName byAddr state other = rtsSock order byName byAddr state msg := by
  -- The name is tried first, and it is the same in both messages.
  unfold rtsSock
  rw [again.src.name, from_.src.name]
  rw [from_.src.name] at reached
  cases found : (byName state (src.map fun byte => Char.ofNat byte.toNat)).2 with
  | none => exact absurd found reached
  | some sock => simp only [found]

/-- Filling a source field in leaves the rest of a message alone. -/
theorem fill_kin (msg : Mbuf) (start : Nat) (str : List UInt8) (field : start = 126 ∨ start = 266) :
    ({ msg with tpBuf := ztBufFill msg.tpBuf start str rmrMaxSrc } : Mbuf).Kin msg where
  -- The field is in front of the lengths, or ends where the body begins.
  mtype := rfl
  subId := rfl
  len := rfl
  allocLen := rfl
  payload := rfl
  lens := ztBufFill_lens _ _ _ (by omega)
  body := by
    intro i behind _
    have same : (ztBufFill msg.tpBuf start str rmrMaxSrc).slice i 1 = msg.tpBuf.slice i 1 :=
      ztBufFill_outside _ _ _ _ (by decide) (.inr (by
        simp only [rmrMaxSrc]
        omega))
    exact Block.byte_of_slice (i := 0) same Nat.one_pos

/-- The message that is sent says the same as the one that is returned. -/
theorem rtsMsg_kin (conf : SendConf) (msg : Mbuf) : (msg.rtsMsg conf).Kin msg := by
  have unmarked := unmarkCall_kin conf.order msg
  have filled := (fill_kin (msg.unmarkCall conf.order) 126 conf.myName (.inl rfl)).trans unmarked
  exact filled.keep rfl rfl rfl rfl rfl rfl

/-- So does a message that the source is put into again. -/
theorem restoreSource_kin (draft : Draft) (src ip : List UInt8) :
    (draft.restoreSource src ip).msg.Kin draft.msg := by
  -- The two strings are put back one after the other, and neither of them touches what the message
  -- says.
  have named := fill_kin draft.msg 126 src (.inl rfl)
  have kin := (fill_kin
    { draft.msg with tpBuf := ztBufFill draft.msg.tpBuf 126 src rmrMaxSrc } 266 ip
    (.inr rfl)).trans named
  exact kin.keep rfl rfl rfl rfl rfl rfl

/-- What is put into the header for a send, and taken out again, is the source only. -/
theorem restore_slice {bytes : List UInt8} {state : MsgState} {allocs start count : Nat}
    (apart : 58 ≤ start ∧ start + count ≤ 126 ∨ 190 ≤ start ∧ start + count ≤ 242) :
    (Draft.restoreSource ⟨unsentMsg conf (msg.rtsMsg conf) bytes state, allocs⟩ src
      ip).msg.tpBuf.slice start count = msg.tpBuf.slice start count := by
  -- The range is apart from both source fields and from the words that the send sets.
  have filled : (Draft.restoreSource ⟨unsentMsg conf (msg.rtsMsg conf) bytes state, allocs⟩ src
      ip).msg.tpBuf.slice start count =
        (unsentMsg conf (msg.rtsMsg conf) bytes state).tpBuf.slice start count :=
    (ztBufFill_outside _ _ _ _ (by decide) (by
      simp only [HdrField.offset, tpHdrLen, rmrMaxSrc]
      omega)).trans (ztBufFill_outside _ _ _ _ (by decide) (by
      simp only [HdrField.offset, tpHdrLen, rmrMaxSrc]
      omega))
  have sized : (unsentMsg conf (msg.rtsMsg conf) bytes state).tpBuf.slice start count =
      (prepare conf (msg.rtsMsg conf)).tpBuf.slice start count :=
    Block.overlay_slice_outside _ _ _ _ _ (.inr (by omega))
  rw [filled, sized, prepare_apart (by omega) (by omega) (by omega) (by omega) (by omega),
    rtsMsg_apart _ (by omega) (by omega)]

/-- What `rmr_rts_msg` gives back if it did not return the message. -/
theorem rmrRtsMsg_unsent {result : Option SendResult} {next : Draft}
    (from_ : draft.msg.From src ip) (failed : result ≠ some .ok)
    (tried : rmrRtsMsg conf left draft result = .ok (some next)) :
    next.msg = { draft.msg.unmarkCall conf.order with state := .noEndpt } ∨
      ∃ bytes state, next = Draft.restoreSource
        ⟨unsentMsg conf (draft.msg.rtsMsg conf) bytes state, draft.allocs⟩ src ip := by
  -- Without a way back only the flag is cleared; else the source is put back after the send.
  have unmarked := from_.unmarkCall conf.order
  cases result with
  | none =>
    cases tried
    exact .inl rfl
  | some result =>
    obtain ⟨holdSrc, holdIp, sent, holdSrcIs, holdIpIs, sentIs, backIs⟩ := rmrRtsMsg_steps tried
    rw [unmarked.src.strdup] at holdSrcIs
    rw [unmarked.ip.strdup] at holdIpIs
    cases holdSrcIs
    cases holdIpIs
    obtain ⟨bytes, -, ⟨went, -⟩ | ⟨went, -⟩ | ⟨-, state, -, rfl⟩⟩ := trySend_cases sentIs
    · exact absurd (congrArg some went) failed
    · exact absurd (congrArg some went) failed
    · exact .inr ⟨bytes, state, Option.some.inj backIs⟩

/-- A message that could not be returned has its version and its descriptor. -/
theorem rmrRtsMsg_fallback {result : Option SendResult} {next : Draft}
    (from_ : draft.msg.From src ip) (failed : result ≠ some .ok)
    (tried : rmrRtsMsg conf left draft result = .ok (some next)) :
    next.msg.rtsFd = draft.msg.rtsFd ∧
      hdrGet conf.order next.msg.tpBuf .rmrVer = hdrGet conf.order draft.msg.tpBuf .rmrVer := by
  -- Neither clearing the flag nor the send writes to the version, or to the descriptor.
  cases rmrRtsMsg_unsent from_ failed tried with
  | inl unrouted =>
    rw [unrouted]
    exact ⟨rfl, hdrGet_congr _ _ (putFlags_apart _ _ (.inl (by decide)))⟩
  | inr unsent =>
    obtain ⟨bytes, state, rfl⟩ := unsent
    exact ⟨rfl, hdrGet_congr _ _ (restore_slice (.inl (by decide)))⟩

/-- It says the same, in a buffer of the same size. -/
theorem rmrRtsMsg_kin {result : Option SendResult} {next : Draft}
    (from_ : draft.msg.From src ip) (failed : result ≠ some .ok)
    (tried : rmrRtsMsg conf left draft result = .ok (some next)) :
    next.msg.Kin draft.msg ∧ next.msg.tpBuf.size = draft.msg.tpBuf.size := by
  cases rmrRtsMsg_unsent from_ failed tried with
  | inl unrouted =>
    have unmarked := unmarkCall_kin conf.order draft.msg
    rw [unrouted]
    exact ⟨unmarked.keep rfl rfl rfl rfl rfl rfl, rfl⟩
  | inr unsent =>
    obtain ⟨bytes, state, rfl⟩ := unsent
    -- The flags, the name of this process, the send and the old source: none of them is in the
    -- payload.
    have named := rtsMsg_kin conf draft.msg
    have sent := (unsentMsg_kin conf (draft.msg.rtsMsg conf) bytes state).trans named
    exact ⟨(restoreSource_kin _ src ip).trans sent, prepare_size conf _⟩

/-- It is as it was. -/
theorem rmrRtsMsg_intact {result : Option SendResult} {next : Draft}
    (framed : draft.msg.Framed conf.order) (from_ : draft.msg.From src ip)
    (failed : result ≠ some .ok) (tried : rmrRtsMsg conf left draft result = .ok (some next)) :
    draft.msg.Intact next.msg := by
  have kin := (rmrRtsMsg_kin from_ failed tried).1
  -- The flags, the source and what a send puts in stand in other fields.
  have fields : ∀ start count,
      58 ≤ start ∧ start + count ≤ 126 ∨ 190 ≤ start ∧ start + count ≤ 242 →
      next.msg.tpBuf.slice start count = draft.msg.tpBuf.slice start count := by
    intro start count within
    cases rmrRtsMsg_unsent from_ failed tried with
    | inl unrouted =>
      rw [unrouted]
      exact putFlags_apart _ _ (by omega)
    | inr unsent =>
      obtain ⟨bytes, state, rfl⟩ := unsent
      exact restore_slice within
  exact {
    payload := kin.payloadBytes framed.behind
    len := kin.len
    mtype := kin.mtype
    subId := kin.subId
    xaction := fields _ _ (.inl (by decide))
    meid := fields _ _ (.inr (by decide)) }

/-- A header is set up with the current version. -/
theorem freshHeader_version (conf : SendConf) (tpBuf : Block) :
    hdrGet conf.order (freshHeader conf tpBuf) .rmrVer = rmrMsgVer := by
  have apart : (freshHeader conf tpBuf).slice 58 4 = (clearHeader conf tpBuf).slice 58 4 :=
    freshHeader_apart conf tpBuf (by decide) (by decide)
  -- The words that are set after the version stand behind it.
  rw [hdrGet_congr conf.order .rmrVer apart, clearHeader, hdrGet_hdrSet_ne _ _ _ (by decide),
    hdrGet_hdrSet_ne _ _ _ (by decide), hdrGet_hdrSet_ne _ _ _ (by decide),
    hdrGet_hdrSet_ne _ _ _ (by decide), hdrGet_hdrSet]
  exact toUint_natCast (by decide)

/-- After a success the message has no descriptor any more, and the current version. -/
theorem rmrRtsMsg_returned {next : Draft}
    (tried : rmrRtsMsg conf left draft (some .ok) = .ok (some next)) :
    next.msg.rtsFd = -1 ∧ hdrGet conf.order next.msg.tpBuf .rmrVer = rmrMsgVer := by
  -- The next message is allocated, with no descriptor and a header of the current version.
  obtain ⟨holdSrc, holdIp, sent, -, -, sentIs, made⟩ := rmrRtsMsg_steps tried
  obtain ⟨bytes, -, ⟨-, -, rfl⟩ | ⟨-, -, fresh, rfl, freshIs⟩ | ⟨failed, -⟩⟩ := trySend_cases sentIs
  · cases made
  · cases made
    obtain ⟨tpBuf, mlen, is, -⟩ := allocZcmsg_made freshIs
    have version : hdrGet conf.order fresh.msg.tpBuf .rmrVer = rmrMsgVer := by
      rw [is]
      exact freshHeader_version conf tpBuf
    refine ⟨?_, ?_⟩
    · change fresh.msg.rtsFd = -1
      rw [is]
      rfl
    · refine Eq.trans (hdrGet_congr _ _ ?_) version
      exact (ztBufFill_outside _ _ _ _ (by decide) (.inl (by decide))).trans
        (ztBufFill_outside _ _ _ _ (by decide) (.inl (by decide)))
  · exact absurd rfl failed

/-- A message that can be returned, and in whose buffer another one can be put after that. -/
structure Mbuf.Returnable (conf : SendConf) (msg : Mbuf) : Prop extends msg.Framed conf.order where
  nonneg : 0 ≤ msg.allocLen
  held : msg.allocLen ≤ msg.tpBuf.size
  whole : tpHdrLen + mhdrLen ≤ msg.tpBuf.size
  length : 0 ≤ toInt (toUint (msg.len + rmrHdrLen conf.order msg.tpBuf + tpHdrLen))
  another : zcmsgLen conf 0 (toInt (rmrTrLen conf.order msg.tpBuf)) ≤ intMax

/-- What says the same in a buffer of the same size is as good. -/
theorem Mbuf.Returnable.kin (returnable : msg.Returnable conf) (kin : other.Kin msg)
    (size : other.tpBuf.size = msg.tpBuf.size) : other.Returnable conf where
  toFramed := kin.framed returnable.toFramed
  nonneg := kin.allocLen ▸ returnable.nonneg
  held := kin.allocLen ▸ size ▸ returnable.held
  whole := size ▸ returnable.whole
  length := by
    rw [kin.len, rmrHdrLen_congr conf.order kin.lens]
    exact returnable.length
  another := by
    rw [kin.trLen]
    exact returnable.another

/-- It can be sent. -/
theorem Mbuf.Returnable.shippable (returnable : msg.Returnable conf) :
    msg.Shippable conf.order where
  allocLen := returnable.nonneg
  length := returnable.length
  held := (min_le_left _ _).trans returnable.held

/-- The message that is sent next can be returned in its turn. -/
theorem freshMsg_returnable {old : Mbuf} {bytes : List UInt8} {allocs : Nat} {next : Draft}
    (sane : conf.Sane) (fits : zcmsgLen conf 0 (-1) ≤ intMax) (returnable : old.Returnable conf)
    (made : allocZcmsg conf left allocs (some (unsentMsg conf old bytes old.state)) 0 .ok
      (toInt (rmrTrLen conf.order (unsentMsg conf old bytes old.state).tpBuf)) = .ok next) :
    next.msg.Returnable conf := by
  have framed := (allocZcmsg_sourced sane made).1
  have within := returnable.kin (unsentMsg_kin conf old bytes old.state) (prepare_size conf old)
  obtain ⟨tpBuf, mlen, is, from_⟩ := allocZcmsg_made made
  obtain ⟨headed, starts⟩ :=
    freshHeader_headed sane.ready (insertMlen conf.order (toUint mlen) tpBuf)
  have trace := (freshHeader_lens conf (insertMlen conf.order (toUint mlen) tpBuf) sane.ready.trace
    (by rw [sane.ready.data1]; decide)).2.1
  have traceSmall := sane.ready.trace
  have most : 334 + (conf.traceDataLen : Int) ≤ intMax := by
    have data1 := sane.ready.data1
    simp only [zcmsgLen, mhdrLen, tpHdrLen] at fits
    split at fits <;> split at fits <;> omega
  -- Either way the length is that of the buffer or less, and an `int`.
  have sized : 330 ≤ tpBuf.size ∧ 0 ≤ mlen ∧ mlen ≤ tpBuf.size ∧ mlen ≤ intMax := by
    cases from_ with
    | inl fresh =>
      have low := zcmsgLen_low sane.ready 0
        (toInt (rmrTrLen conf.order (unsentMsg conf old bytes old.state).tpBuf))
      have high := within.another
      have same := fresh.1
      have size := fresh.2
      omega
    | inr reused =>
      obtain ⟨msg, msgIs, -, bufIs, mlenIs⟩ := reused
      cases msgIs
      have whole := within.whole
      rw [bufIs, mlenIs]
      exact ⟨whole, within.nonneg, within.held, within.inInt.2⟩
  obtain ⟨whole, nonneg, held, small⟩ := sized
  have inInt : InInt mlen := ⟨by simp only [intMin]; omega, small⟩
  have allocLen : next.msg.allocLen = mlen := by
    rw [is]
    exact toInt_of_inInt inInt
  have size : next.msg.tpBuf.size = tpBuf.size := by
    rw [is]
    rfl
  exact {
    toFramed := framed
    nonneg := allocLen ▸ nonneg
    held := by
      rw [allocLen, size]
      exact held
    whole := size ▸ whole
    length := by
      have used : ((0 : Int) + rmrHdrLen conf.order next.msg.tpBuf + tpHdrLen) =
          ((334 + conf.traceDataLen : Nat) : Int) := by
        have hdrLen := framed.headed.hdrLen
        have payload : next.msg.payload = 334 + conf.traceDataLen := by
          rw [is]
          exact starts
        omega
      have len : next.msg.len = 0 := by
        rw [is]
        rfl
      rw [len, used, toInt_of_toUint, toInt_natCast (by omega)]
      omega
    another := by
      have trLen : rmrTrLen conf.order next.msg.tpBuf = conf.traceDataLen := by
        rw [is]
        exact trace
      rw [trLen, toInt_natCast traceSmall]
      -- Asking for the trace data of the context is asking for nothing of one's own.
      refine le_of_eq_of_le ?_ fits
      simp only [zcmsgLen]
      split <;> simp }

/-- Whatever sending comes to, `rmr_rts_msg` comes to an end, and what it gives back can be returned
again. -/
theorem rmrRtsMsg_returnable {result : Option SendResult} (sane : conf.Sane)
    (fits : zcmsgLen conf 0 (-1) ≤ intMax) (from_ : draft.msg.From src ip)
    (kept : draft.msg.noAlloc = false) (returnable : draft.msg.Returnable conf) :
    ∃ next, rmrRtsMsg conf left draft result = .ok (some next) ∧ next.msg.Returnable conf := by
  -- The send comes to an end as the message can be shipped, and so does putting the source back.
  have unmarked := from_.unmarkCall conf.order
  have within : (draft.msg.rtsMsg conf).Returnable conf :=
    returnable.kin (rtsMsg_kin conf draft.msg) rfl
  have ends : ∃ back, rmrRtsMsg conf left draft result = .ok back := by
    cases result with
    | none => exact ⟨_, rfl⟩
    | some result =>
      obtain ⟨bytes, sends⟩ := sendMsg_iff.mpr within.shippable
      obtain ⟨sent, sentIs⟩ := @trySend_ends conf left ⟨draft.msg.rtsMsg conf, draft.allocs⟩ result
        bytes within.whole sends
      have held : (draft.msg.unmarkCall conf.order).tpBuf.strdup HdrField.src.offset = .ok src :=
        unmarked.src.strdup
      have heldIp : (draft.msg.unmarkCall conf.order).tpBuf.strdup HdrField.srcip.offset = .ok ip :=
        unmarked.ip.strdup
      exact ⟨_, bind_eq_ok.mpr ⟨src, held, bind_eq_ok.mpr ⟨ip, heldIp,
        bind_eq_ok.mpr ⟨sent, sentIs, rfl⟩⟩⟩⟩
  obtain ⟨back, backIs⟩ := ends
  obtain ⟨next, rfl, -, -⟩ := rmrRtsMsg_from from_ kept backIs
  refine ⟨next, backIs, ?_⟩
  by_cases failed : result = some .ok
  · subst failed
    obtain ⟨holdSrc, holdIp, sent, -, -, sentIs, made⟩ := rmrRtsMsg_steps backIs
    obtain ⟨bytes, -, ⟨-, -, rfl⟩ | ⟨-, -, fresh, rfl, freshIs⟩ | ⟨failed, -⟩⟩ :=
      trySend_cases sentIs
    · cases made
    · cases made
      have again := freshMsg_returnable sane fits within freshIs
      exact again.kin (restoreSource_kin fresh holdSrc holdIp) rfl
    · exact absurd rfl failed
  · obtain ⟨kin, size⟩ := rmrRtsMsg_kin from_ failed backIs
    exact returnable.kin kin size

/-- A message that was returned again and again: it is from the same source, and as long as no send
went well it has its descriptor and its version. After that it has none, and the current version. -/
structure Mbuf.Again (order : ByteOrder) (msg : Mbuf) (results : List (Option SendResult))
    (src ip : List UInt8) (next : Mbuf) : Prop extends next.From src ip where
  kept : next.noAlloc = false
  sock : next.rtsFd = msg.rtsFd ∧ hdrGet order next.tpBuf .rmrVer = hdrGet order msg.tpBuf .rmrVer ∨
    some .ok ∈ results ∧ next.rtsFd = -1 ∧ hdrGet order next.tpBuf .rmrVer = rmrMsgVer

/-- One call after others. -/
theorem rmrRtsMsg_again {result : Option SendResult} {results : List (Option SendResult)}
    (again : msg.Again conf.order results src ip draft.msg)
    (tried : rmrRtsMsg conf left draft result = .ok back) :
    ∃ next, back = some next ∧ msg.Again conf.order (results ++ [result]) src ip next.msg := by
  -- A success puts a new message there; after anything else descriptor and version are kept.
  obtain ⟨next, rfl, from_, kept⟩ := rmrRtsMsg_from again.toFrom again.kept tried
  refine ⟨next, rfl, from_, kept, ?_⟩
  by_cases failed : result = some .ok
  · subst failed
    exact .inr ⟨by simp, rmrRtsMsg_returned tried⟩
  · obtain ⟨rtsFd, version⟩ := rmrRtsMsg_fallback again.toFrom failed tried
    rw [rtsFd, version]
    cases again.sock with
    | inl same => exact .inl same
    | inr other => exact .inr ⟨List.mem_append_left _ other.1, other.2⟩

/-- Any number of calls. -/
theorem rtsCalls_again {results made : List (Option SendResult)}
    (again : msg.Again conf.order made src ip draft.msg)
    (ran : rtsCalls conf left draft results = .ok back) :
    ∃ next, back = some next ∧ msg.Again conf.order (made ++ results) src ip next.msg := by
  -- By induction on the calls: the next one starts from what those before have left.
  induction results generalizing draft made with
  | nil =>
    cases ran
    exact ⟨draft, rfl, (List.append_nil made).symm ▸ again⟩
  | cons result results ih =>
    obtain ⟨sent, sentIs, ran⟩ := bind_eq_ok.mp ran
    obtain ⟨next, rfl, step⟩ := rmrRtsMsg_again again sentIs
    have later := ih step ran
    rwa [List.append_assoc] at later

/-- The header of what comes back leads to its payload. -/
theorem rtsCalls_framed {results : List (Option SendResult)} (sane : conf.Sane)
    (framed : draft.msg.Framed conf.order)
    (ran : rtsCalls conf left draft results = .ok back) :
    ∀ next ∈ back, next.msg.Framed conf.order := by
  -- By induction on the calls; what one of them does not give back ends the run.
  induction results generalizing draft with
  | nil =>
    cases ran
    intro next is
    cases is
    exact framed
  | cons result results ih =>
    obtain ⟨sent, sentIs, ran⟩ := bind_eq_ok.mp ran
    cases sent with
    | none =>
      cases ran
      intro next is
      cases is
    | some sent => exact ih (rmrRtsMsg_sourced sane framed sentIs sent rfl).1 ran

/-- The calls come to an end. -/
theorem rtsCalls_ends {results : List (Option SendResult)} (sane : conf.Sane)
    (fits : zcmsgLen conf 0 (-1) ≤ intMax) (from_ : draft.msg.From src ip)
    (kept : draft.msg.noAlloc = false) (returnable : draft.msg.Returnable conf) :
    ∃ next, rtsCalls conf left draft results = .ok (some next) := by
  -- By induction on the calls, each of which leaves a message that can be returned again.
  induction results generalizing draft with
  | nil => exact ⟨draft, rfl⟩
  | cons result results ih =>
    have step : ∃ next, rmrRtsMsg conf left draft result = .ok (some next) ∧
        next.msg.Returnable conf :=
      rmrRtsMsg_returnable sane fits from_ kept returnable
    obtain ⟨sent, sentIs, within⟩ := step
    obtain ⟨next, is, from_, kept⟩ := rmrRtsMsg_from from_ kept sentIs
    cases is
    have later : ∃ next, rtsCalls conf left sent results = .ok (some next) := ih from_ kept within
    obtain ⟨last, lastIs⟩ := later
    exact ⟨last, bind_eq_ok.mpr ⟨some sent, sentIs, lastIs⟩⟩

/-- A message that is given to an application is a plain one. -/
theorem given_clean {rcvConf : RcvConf} {rawMsg : Block} {msgSize fd : Int} {delivery : Delivery}
    (handed : buf2mbuf rcvConf rawMsg msgSize fd = .ok delivery)
    (given : delivery.given = some msg) :
    msg.noAlloc = false := by
  -- A message is given from the ring or from a chute, without the flag in both cases.
  have clean : ∀ mbuf, delivery.mbuf? = some mbuf → mbuf.noAlloc = false := by
    intro mbuf is
    obtain ⟨-, made⟩ := buf2mbuf_made handed is
    exact (congrArg Marks.noAlloc (Mbuf.refTpbuf_marks made)).trans rfl
  cases delivery with
  | dropped => cases given
  | normal mbuf =>
    cases given
    exact clean mbuf rfl
  | chute callId mbuf =>
    cases given
    exact clean msg rfl

/-- After any number of calls. -/
theorem rtsCalls_retried {allocs : Nat} {results : List (Option SendResult)}
    (from_ : msg.From src ip)
    (kept : msg.noAlloc = false) (ran : rtsCalls conf left ⟨msg, allocs⟩ results = .ok back) :
    ∃ draft, back = some draft ∧ msg.Retried conf.order results src ip draft.msg := by
  -- The first call starts from the message itself, for which no call was made before.
  have first : msg.Again conf.order [] src ip msg := ⟨from_, kept, .inl ⟨rfl, rfl⟩⟩
  have later : ∃ next, back = some next ∧ msg.Again conf.order ([] ++ results) src ip next.msg :=
    rtsCalls_again first ran
  obtain ⟨draft, is, again⟩ := later
  refine ⟨draft, is, again.toFrom, ?_⟩
  intro σ byName byAddr state reached
  cases reached with
  | inl failed =>
    cases again.sock with
    | inl same => exact rtsSock_congr byName byAddr state from_ again.toFrom same.1 same.2
    | inr other => exact absurd other.1 failed
  | inr named => exact rtsSock_named byAddr from_ again.toFrom named

/-- A message that was received can be returned to its sender, and that can be tried again, also
after a success. If its parts lie in its frame, a try that fails leaves what it says as it was; and
each comes to an end if there is a length for the next message. -/
theorem received_returns_again {rcvConf : RcvConf} {rawMsg : Block} {msgSize fd : Int}
    {delivery : Delivery} (sane : conf.Sane) (same : rcvConf.order = conf.order)
    (handed : buf2mbuf rcvConf rawMsg msgSize fd = .ok delivery) (given : delivery.given = some msg)
    (from_ : msg.From src ip) (allocs : Nat) (results : List (Option SendResult)) :
    (∀ back, rtsCalls conf left ⟨msg, allocs⟩ results = .ok back →
      ∃ draft, back = some draft ∧ msg.Retried conf.order results src ip draft.msg) ∧
    (InFrame rcvConf.order msgSize msg → msgSize ≤ rawMsg.size → (rawMsg.size : Int) ≤ intMax →
      (∀ draft, rtsCalls conf left ⟨msg, allocs⟩ results = .ok (some draft) →
        ∀ result next, result ≠ some .ok →
          rmrRtsMsg conf left draft result = .ok (some next) → draft.msg.Intact next.msg) ∧
      (zcmsgLen conf 0 (-1) ≤ intMax →
        zcmsgLen conf 0 (toInt (rmrTrLen conf.order msg.tpBuf)) ≤ intMax →
        ∃ draft, rtsCalls conf left ⟨msg, allocs⟩ results = .ok (some draft))) := by
  -- What is put back rests on the flag being off, as it is in what the application was given.
  have kept : msg.noAlloc = false := given_clean handed given
  refine ⟨fun back ran => rtsCalls_retried from_ kept ran, fun inFrame held small => ?_⟩
  have inside := given_inside handed given inFrame held small
  rw [same] at inside
  constructor
  · intro draft ran result next failed tried
    have framed : draft.msg.Framed conf.order :=
      rtsCalls_framed sane (by exact inside.toFramed) ran draft rfl
    have retried : ∃ last, some draft = some last ∧
        msg.Retried conf.order results src ip last.msg := rtsCalls_retried from_ kept ran
    obtain ⟨last, is, retried⟩ := retried
    cases is
    exact rmrRtsMsg_intact framed retried.toFrom failed tried
  · intro fits another
    have shippable := inside.shippable
    exact rtsCalls_ends sane fits (by exact from_) kept {
      toFramed := inside.toFramed
      nonneg := shippable.allocLen
      held := inside.held
      whole := inside.whole
      length := shippable.length
      another := another }

end

/-- A frame with a payload, from the source `b` at the address `2`. -/
def sourcedFrame (payload : List UInt8) : Block :=
  ((forwardFrame 4 payload).overlay HdrField.src.offset (Block.ofList [98, 0]) 0 2).overlay
    HdrField.srcip.offset (Block.ofList [50, 0]) 0 2

/-- A message is returned after a send that failed, and again after that. -/
theorem received_returns_again_four :
    Yields (fun delivery => ∃ msg, delivery.given = some msg ∧
        ∃ draft, rtsCalls SendConf.plain (fun _ _ => 0) ⟨msg, 0⟩
            [some .failed, some .ok, none, some .blocked] = .ok (some draft) ∧
          msg.Retried .little [some .failed, some .ok, none, some .blocked] [98] [50] draft.msg ∧
          ∀ result next, result ≠ some .ok → rmrRtsMsg SendConf.plain (fun _ _ => 0) draft result =
            .ok (some next) → draft.msg.Intact next.msg)
      (buf2mbuf RcvConf.default (sourcedFrame [1, 2, 3]) 337 9) := by
  -- All conditions of the theorem are decided for the frame that is received.
  have facts : Yields (fun delivery => ∃ msg ∈ delivery.given,
        (0 ≤ msg.len ∧ Behind (traceAddr .little msg.tpBuf) (rmrTrLen .little msg.tpBuf) 337 ∧
          Behind (data1Addr .little msg.tpBuf) 1 337 ∧ Behind msg.payload msg.len.toNat 337) ∧
        zcmsgLen SendConf.plain 0 (toInt (rmrTrLen .little msg.tpBuf)) ≤ intMax ∧
        126 + 2 ≤ msg.tpBuf.size ∧ msg.tpBuf.slice 126 2 = [98] ++ [0] ∧
        266 + 2 ≤ msg.tpBuf.size ∧ msg.tpBuf.slice 266 2 = [50] ++ [0])
      (buf2mbuf RcvConf.default (sourcedFrame [1, 2, 3]) 337 9) := by
    decide +kernel
  obtain ⟨delivery, handed, msg, given, ⟨len, trace, data1, payload⟩, another, srcRoom, src, ipRoom,
    ip⟩ := facts.exists
  have from_ : msg.From [98] [50] :=
    ⟨⟨by decide, by decide, srcRoom, src⟩, ⟨by decide, by decide, ipRoom, ip⟩⟩
  obtain ⟨retried, rest⟩ :=
    @received_returns_again SendConf.plain (fun _ _ => 0) msg [98] [50] _ _ _ _ _
    plain_sane rfl handed given from_ 0 [some .failed, some .ok, none, some .blocked]
  obtain ⟨intact, ends⟩ := rest ⟨len, trace, fun _ => data1, payload⟩ (by decide +kernel)
    (by decide +kernel)
  obtain ⟨draft, ran⟩ := ends (by decide) another
  obtain ⟨last, is, again⟩ := retried _ ran
  cases is
  exact Yields.intro handed ⟨msg, given, draft, ran, again, intact draft ran⟩

/-- A frame whose header proper is told to be so short that the payload stands in the source. -/
def misframed : Block :=
  let hdr := (headersOnly 1).setNet32 .little HdrField.len0.offset 77
  hdr.overlay (HdrField.src.offset + 1) (Block.ofList [7]) 0 1

/-- No endpoint is reached. -/
def unreached (state : Unit) (_ : CStr) : Unit × Option Int := (state, none)

/-- A source that is not reached by its name is sent to over the descriptor that its message arrived
on, but not after a success: that takes the descriptor away. And a payload that stands in the source
is written over by a send that fails. -/
theorem rtsMsg_loses_descriptor :
    Yields (fun delivery => ∃ msg, delivery.given = some msg ∧ msg.From [98] [50] ∧
        ∃ next, rtsCalls SendConf.plain (fun _ _ => 0) ⟨msg, 0⟩ [some .ok] = .ok (some next) ∧
          (rtsSock .little unreached unreached () msg).2 = some 9 ∧
          (rtsSock .little unreached unreached () next.msg).2 = none)
      (buf2mbuf RcvConf.default (sourcedFrame [1, 2, 3]) 337 9) ∧
    Yields (fun delivery => ∃ msg, delivery.given = some msg ∧ msg.From [] [] ∧
        msg.payloadBytes = [7] ∧
        Yields (fun back => ∃ next ∈ back, next.msg.state ≠ .ok ∧ next.msg.payloadBytes = [0])
          (rmrRtsMsg SendConf.plain (fun _ _ => 0) ⟨msg, 0⟩ (some .failed)))
      (buf2mbuf RcvConf.default misframed 330 9) := by
  -- Two frames: one whose source is not reached by name, and one whose payload lies in its source.
  constructor
  · have facts : Yields (fun delivery => ∃ msg ∈ delivery.given,
          (∃ next ∈ (rtsCalls SendConf.plain (fun _ _ => 0) ⟨msg, 0⟩ [some .ok]).toOption.join,
            (rtsSock .little unreached unreached () msg).2 = some 9 ∧
            (rtsSock .little unreached unreached () next.msg).2 = none) ∧
          126 + 2 ≤ msg.tpBuf.size ∧ msg.tpBuf.slice 126 2 = [98] ++ [0] ∧
          266 + 2 ≤ msg.tpBuf.size ∧ msg.tpBuf.slice 266 2 = [50] ++ [0])
        (buf2mbuf RcvConf.default (sourcedFrame [1, 2, 3]) 337 9) := by
      decide +kernel
    obtain ⟨delivery, handed, msg, given, ⟨next, is, socks⟩, srcRoom, src, ipRoom, ip⟩ :=
      facts.exists
    have from_ : msg.From [98] [50] :=
      ⟨⟨by decide, by decide, srcRoom, src⟩, ⟨by decide, by decide, ipRoom, ip⟩⟩
    refine Yields.intro handed ⟨msg, given, from_, next, ?_, socks⟩
    cases ran : rtsCalls SendConf.plain (fun _ _ => 0) ⟨msg, 0⟩ [some .ok] with
    | error fault =>
      rw [ran] at is
      cases is
    | ok back =>
      rw [ran] at is
      exact congrArg Except.ok is
  · have facts : Yields (fun delivery => ∃ msg ∈ delivery.given,
          (msg.payloadBytes = [7] ∧
            Yields (fun back => ∃ next ∈ back, next.msg.state ≠ .ok ∧ next.msg.payloadBytes = [0])
              (rmrRtsMsg SendConf.plain (fun _ _ => 0) ⟨msg, 0⟩ (some .failed))) ∧
          126 + 1 ≤ msg.tpBuf.size ∧ msg.tpBuf.slice 126 1 = [] ++ [0] ∧
          266 + 1 ≤ msg.tpBuf.size ∧ msg.tpBuf.slice 266 1 = [] ++ [0])
        (buf2mbuf RcvConf.default misframed 330 9) := by
      decide +kernel
    obtain ⟨delivery, handed, msg, given, ⟨payload, sent⟩, srcRoom, src, ipRoom, ip⟩ := facts.exists
    have from_ : msg.From [] [] :=
      ⟨⟨by decide, by decide, srcRoom, src⟩, ⟨by decide, by decide, ipRoom, ip⟩⟩
    exact Yields.intro handed ⟨msg, given, from_, payload, sent⟩

end Rmr
