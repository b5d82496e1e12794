import Rmr.Proofs.Message.Compose
import Rmr.Proofs.Receive.Stream
import Rmr.Proofs.Receive.Vetting

/-! What is sent is what is received, from the allocation of a message to its delivery. -/

namespace Rmr

/-- How an application obtains a message. -/
inductive Source where
  | alloc (size : Int)
  | tralloc (size : Int) (data : List UInt8)

/-- The message as the application obtains it. -/
def Source.draft (conf : SendConf) (left : Leftover) : Source → Except Fault Draft
  | .alloc size => rmrAllocMsg conf left size
  | .tralloc size data => rmrTrallocMsg conf left size data

/-- A message from its allocation to the last step before it is sent. -/
def compose (conf : SendConf) (left : Leftover) (source : Source) (ops : List MsgOp) :
    Except Fault Draft := do
  let draft ← source.draft conf left
  draft.applyAll conf.order left ops

/-- The size that the allocation is asked for. -/
def Source.size : Source → Int
  | .alloc size => size
  | .tralloc size _ => size

/-- The length of trace data that the allocation is asked for. -/
def Source.trlo : Source → Int
  | .alloc _ => -1
  | .tralloc _ data => data.length

/-- What is done to the message before the application has it. -/
def Source.first : Source → List MsgOp
  | .alloc _ => []
  | .tralloc _ data => [.trace data]

/-- What the messages say that some chunks produce. -/
def arrivals (conf : RcvConf) (left : Leftover) (chunks : List (Int × List UInt8)) :
    Except Fault (List Content) := do
  let rcv ← Rcv.receive conf left chunks
  let deliveries ← rcv.calls.mapM fun call => buf2mbuf conf call.rawMsg call.msgSize call.fd
  return deliveries.filterMap fun delivery => delivery.mbuf?.map fun mbuf => mbuf.content conf.order

/-- What is sent arrives: the message sent says what was asked for, and however its frame is cut and
whatever memory the receiver finds, the frame produces one message that says the same. -/
def Faithful (conf : SendConf) (rcvConf : RcvConf) (left : Leftover) (source : Source)
    (ops : List MsgOp) : Prop :=
  ∃ draft frame, compose conf left source ops = .ok draft ∧
    draft.msg.content conf.order =
      (source.first ++ ops).foldl Content.apply (initialContent conf left) ∧
    sendMsg conf draft.msg = .ok frame ∧
    ∀ (rcvLeft : Leftover) (fd : Int) (chunks : List (List UInt8)), 0 ≤ fd →
      chunks.flatten = frame → (∀ chunk ∈ chunks, chunk ≠ []) →
      arrivals rcvConf rcvLeft (chunks.map fun chunk => (fd, chunk)) =
        .ok [draft.msg.content conf.order]

/-- When the headers and the payload fit what the message thinks was allocated, and the receiver
can allocate as much. -/
structure Mbuf.Sendable (msg : Mbuf) : Prop where
  fits : (msg.payload : Int) + msg.len ≤ msg.allocLen
  counted : (msg.payload : Int) + msg.len + 128 ≤ intMax

/-- When everything that is done with a message has room. -/
structure Composes (conf : SendConf) (left : Leftover) (source : Source) (ops : List MsgOp) :
    Prop where
  allocates : Allocates conf source.size source.trlo
  fits : ∀ draft, allocZcmsg conf left 0 none source.size .ok source.trlo = .ok draft →
    draft.AllFit conf.order left (source.first ++ ops)
  sendable : ∀ draft, compose conf left source ops = .ok draft → draft.msg.Sendable

/-- Trace data asked for with the allocation is the first thing done with the message. -/
theorem compose_eq (conf : SendConf) (left : Leftover) (source : Source) (ops : List MsgOp) :
    compose conf left source ops =
      (allocZcmsg conf left 0 none source.size .ok source.trlo >>= fun draft =>
        draft.applyAll conf.order left (source.first ++ ops)) := by
  -- Allocating with trace data is allocating with room for it, and then setting the trace.
  cases source with
  | alloc size => rfl
  | tralloc size data =>
    show (allocZcmsg conf left 0 none size .ok data.length >>= fun draft =>
      rmrSetTrace conf.order left draft data) >>= _ = _
    rw [bind_assoc]
    congr 1

/-- A message whose steps all have room is composed, and says what was asked for. -/
theorem Composes.composed {conf : SendConf} {left : Leftover} {source : Source}
    {ops : List MsgOp} (composes : Composes conf left source ops) :
    ∃ draft trLen, compose conf left source ops = .ok draft ∧
      draft.msg.Laid conf.order conf.d1Len trLen ∧ draft.msg.Sendable ∧
      draft.msg.content conf.order =
        (source.first ++ ops).foldl Content.apply (initialContent conf left) := by
  -- The message is allocated, and then each of the steps keeps the layout.
  obtain ⟨first, allocated, laid, content⟩ := allocZcmsg_ok left composes.allocates
  obtain ⟨final, trLen, ran, finalLaid, finalContent⟩ :=
    Draft.applyAll_ok left laid (composes.fits first allocated)
  have composed : compose conf left source ops = .ok final := by
    rw [compose_eq]
    exact bind_eq_ok.mpr ⟨first, allocated, ran⟩
  refine ⟨final, trLen, composed, finalLaid, composes.sendable final composed, ?_⟩
  rw [finalContent, content]

section
variable {conf : SendConf} {trLen : Nat} {msg : Mbuf}

/-- What `send_msg` puts into the header lies in three words of it. -/
theorem prepare_slice (keepSrc : msg.addSrc = false) {start count : Nat}
    (mtype : start + count ≤ 50 ∨ 54 ≤ start) (plen : start + count ≤ 54 ∨ 58 ≤ start)
    (subId : start + count ≤ 262 ∨ 266 ≤ start) :
    (prepare conf msg).tpBuf.slice start count = msg.tpBuf.slice start count := by
  simp only [prepare, keepSrc, Bool.false_eq_true, if_false]
  rw [hdrSet_slice_outside _ _ _ _ plen, hdrSet_slice_outside _ _ _ _ subId,
    hdrSet_slice_outside _ _ _ _ mtype]

/-- The three words that `send_msg` puts into the header. -/
theorem prepare_words (conf : SendConf) (keepSrc : msg.addSrc = false) :
    hdrGet conf.order (prepare conf msg).tpBuf .mtype = toUint msg.mtype ∧
    hdrGet conf.order (prepare conf msg).tpBuf .subId = toUint msg.subId ∧
    hdrGet conf.order (prepare conf msg).tpBuf .plen = toUint msg.len := by
  -- Each word is written once, and the writes after it are to other words.
  simp only [prepare, keepSrc, Bool.false_eq_true, if_false]
  refine ⟨?_, ?_, hdrGet_hdrSet _ _ _ _⟩
  · rw [hdrGet_hdrSet_ne _ _ _ (by decide), hdrGet_hdrSet_ne _ _ _ (by decide), hdrGet_hdrSet]
  · rw [hdrGet_hdrSet_ne _ _ _ (by decide), hdrGet_hdrSet]

/-- The lengths in the header are those from before the send. -/
theorem prepare_lens (laid : msg.Laid conf.order conf.d1Len trLen) :
    hdrGet conf.order (prepare conf msg).tpBuf .len0 = mhdrLen ∧
    hdrGet conf.order (prepare conf msg).tpBuf .len1 = trLen ∧
    hdrGet conf.order (prepare conf msg).tpBuf .len2 = conf.d1Len ∧
    hdrGet conf.order (prepare conf msg).tpBuf .len3 = 0 := by
  -- The words that `send_msg` sets lie in front of the lengths or behind them.
  have word : ∀ field : HdrField, 58 ≤ field.offset → field.offset + 4 ≤ 262 →
      hdrGet conf.order (prepare conf msg).tpBuf field = hdrGet conf.order msg.tpBuf field :=
    fun field low high => hdrGet_congr _ _ (prepare_slice laid.keepSrc (Or.inr (by omega))
      (Or.inr low) (Or.inl high))
  exact ⟨(word _ (by decide) (by decide)).trans laid.len0,
    (word _ (by decide) (by decide)).trans laid.len1,
    (word _ (by decide) (by decide)).trans laid.len2,
    (word _ (by decide) (by decide)).trans laid.len3⟩

/-- A host reads the size that was inserted as the bytes of the host that inserted it say. -/
theorem extractMlen_insertMlen (order receiver : ByteOrder) (len : Nat) (buf : Block) :
    extractMlen receiver (insertMlen order len buf) 0 = word32 receiver (bytes32 order len) := by
  -- The first four bytes of the size field are the size in the order of the sender.
  have first : (insertMlen order len buf).slice 0 4 = bytes32 order len := by
    have part := Block.overlay_slice_part buf 0
      (Block.ofList (bytes32 order len ++ bytes32 .big len ++ [tpSzMarker, 0, 0, 0, 0])) 0 13 0 4
      (by decide)
    rw [Nat.zero_add] at part
    rw [insertMlen, part, Block.ofList_slice _ _ _ (by simp), List.drop_zero, List.append_assoc,
      List.take_left' (bytes32_length _ _)]
  rw [extractMlen_eq, Block.get32, first]

/-- The bytes of a message on the wire, as the transport buffer holds them. -/
def wireBlock (conf : SendConf) (msg : Mbuf) (count : Nat) : Block :=
  insertMlen conf.order count (prepare conf msg).tpBuf

/-- The size field stands before all that the receiver looks at. -/
theorem wireBlock_slice {start count total : Nat} (behind : 50 ≤ start) :
    (wireBlock conf msg total).slice start count =
      (prepare conf msg).tpBuf.slice start count := by
  rw [wireBlock, insertMlen, Block.overlay_slice_outside _ _ _ _ _ (Or.inr (by omega))]

/-- A message that fits what was allocated is sent whole. -/
theorem sendMsg_ok (laid : msg.Laid conf.order conf.d1Len trLen) (sendable : msg.Sendable) :
    sendMsg conf msg =
      .ok ((wireBlock conf msg (msg.payload + msg.len.toNat)).slice 0
        (msg.payload + msg.len.toNat)) := by
  obtain ⟨fits, counted⟩ := sendable
  have len := laid.len
  have payload := laid.payload
  have room := laid.room
  simp only [intMax] at counted
  obtain ⟨total, totalIs⟩ : ∃ total, total = msg.payload + msg.len.toNat := ⟨_, rfl⟩
  have small : total < 4294967296 := by omega
  have whole : ¬ (msg.allocLen : Int) < total := by omega
  have held : ¬ ((total : Int) < 0 ∨ (msg.tpBuf.size : Int) < total) := by omega
  obtain ⟨len0, len1, len2, len3⟩ := prepare_lens laid
  -- None of the sums wraps.
  have header : rmrHdrLen conf.order (prepare conf msg).tpBuf = 280 + trLen + conf.d1Len := by
    rw [rmrHdrLen, len0, len1, len2, len3]
    have sum : ((mhdrLen : Nat) : Int) + trLen + conf.d1Len + (0 : Nat) =
        ((280 + trLen + conf.d1Len : Nat) : Int) := by
      simp only [mhdrLen]
      omega
    rw [sum]
    exact toUint_natCast (by omega)
  have sum : (prepare conf msg).len + rmrHdrLen conf.order (prepare conf msg).tpBuf + tpHdrLen =
      (total : Int) := by
    rw [header, totalIs, show (prepare conf msg).len = msg.len from rfl]
    simp only [tpHdrLen]
    omega
  have totLen : toInt (toUint ((prepare conf msg).len +
      rmrHdrLen conf.order (prepare conf msg).tpBuf + tpHdrLen)) = total := by
    rw [sum]
    exact toInt_toUint (by simp only [InInt, intMin, intMax]; omega)
  have size : (prepare conf msg).tpBuf.size = msg.tpBuf.size := by
    simp only [prepare, laid.keepSrc, Bool.false_eq_true, if_false, hdrSet_size]
  unfold sendMsg
  dsimp only
  rw [totLen, show (prepare conf msg).allocLen = msg.allocLen from rfl, if_neg whole, size,
    if_neg held, Int.toNat_natCast, toUint_natCast small, ← totalIs]
  rfl

/-- What is sent is a frame that the receiver can take. -/
theorem sendMsg_framed (laid : msg.Laid conf.order conf.d1Len trLen) (sendable : msg.Sendable) :
    Framed conf.order ((wireBlock conf msg (msg.payload + msg.len.toNat)).slice 0
      (msg.payload + msg.len.toNat)) := by
  obtain ⟨_, counted⟩ := sendable
  have len := laid.len
  have payload := laid.payload
  simp only [intMax] at counted
  refine ⟨?_, ?_, ?_⟩
  · rw [Block.slice_length]
    simp only [tpSzfieldLen]
    omega
  · rw [Block.slice_length]
    simp only [intMax]
    omega
  · rw [Block.slice_length]
    -- The size field is among the bytes sent.
    have field : (Block.ofList ((wireBlock conf msg (msg.payload + msg.len.toNat)).slice 0
        (msg.payload + msg.len.toNat))).slice 0 9 =
        (wireBlock conf msg (msg.payload + msg.len.toNat)).slice 0 9 := by
      rw [Block.ofList_slice _ _ _ (by rw [Block.slice_length]; omega), List.drop_zero,
        Block.slice_take _ _ _ _ (by omega)]
    rw [extractMlen_congr _ field, wireBlock, extractMlen_insertMlen]
    exact word32_bytes32 _ (by omega)

/-- Bytes within a common start are the same. -/
theorem slice_of_common {left right : Block} {total : Nat}
    (same : left.slice 0 total = right.slice 0 total) {start count : Nat}
    (within : start + count ≤ total) : left.slice start count = right.slice start count := by
  have first := Block.slice_drop_take left 0 total start count within
  have second := Block.slice_drop_take right 0 total start count within
  rw [Nat.zero_add] at first second
  rw [← first, ← second, same]

/-- A call that carries the frame of a message delivers a message that says the same. -/
theorem carries_delivers {rcvConf : RcvConf} {call : Call} (same : rcvConf.order = conf.order)
    (laid : msg.Laid conf.order conf.d1Len trLen) (sendable : msg.Sendable)
    (carries : call.Carries ((wireBlock conf msg (msg.payload + msg.len.toNat)).slice 0
      (msg.payload + msg.len.toNat))) :
    ∃ delivery mbuf, buf2mbuf rcvConf call.rawMsg call.msgSize call.fd = .ok delivery ∧
      delivery.mbuf? = some mbuf ∧ mbuf.content rcvConf.order = msg.content conf.order := by
  obtain ⟨fits, counted⟩ := sendable
  have len := laid.len
  have payload := laid.payload
  obtain ⟨room, bytes, size, callFits⟩ := carries
  rw [Block.slice_length] at room bytes
  obtain ⟨total, totalIs⟩ : ∃ total, total = msg.payload + msg.len.toNat := ⟨_, rfl⟩
  rw [← totalIs] at room bytes
  simp only [intMax] at counted callFits
  have small : total < 4294967296 := by omega
  -- Behind the transport header the receiver finds the bytes that the sender had.
  have part : ∀ {start count : Nat}, 50 ≤ start → start + count ≤ total →
      call.rawMsg.slice start count = (prepare conf msg).tpBuf.slice start count := by
    intro start count behind within
    rw [slice_of_common bytes within, wireBlock_slice behind]
  have word : ∀ field : HdrField, field.offset + 4 ≤ 330 →
      hdrGet conf.order call.rawMsg field = hdrGet conf.order (prepare conf msg).tpBuf field := by
    intro field within
    exact hdrGet_congr _ _ (part (by cases field <;> decide) (by omega))
  obtain ⟨len0, len1, len2, len3⟩ := prepare_lens laid
  obtain ⟨mtype, subId, plen⟩ := prepare_words conf laid.keepSrc
  rw [← word _ (by decide)] at len0 len1 len2 len3 mtype subId plen
  obtain ⟨count, countIs⟩ := Int.eq_ofNat_of_zero_le len
  rw [countIs, toUint_natCast (by omega)] at plen
  have header : rmrHdrLen conf.order call.rawMsg = 280 + trLen + conf.d1Len := by
    rw [rmrHdrLen, len0, len1, len2, len3]
    exact toUint_natCast (by simp only [mhdrLen]; omega)
  have payloadAt : payloadAddr conf.order call.rawMsg = 330 + trLen + conf.d1Len := by
    rw [payloadAddr, data2Addr, data1Addr, traceAddr, len0, len1, len2, len3]
    rfl
  have data1At : data1Addr conf.order call.rawMsg = 330 + trLen := by
    rw [data1Addr, traceAddr, len0, len1]
    rfl
  have fit : lengthsFit rcvConf.order call.rawMsg call.msgSize := by
    have sum : ((280 + trLen + conf.d1Len : Nat) : Int) + tpHdrLen + count = (total : Int) := by
      simp only [tpHdrLen]
      omega
    unfold lengthsFit
    rw [same, header, plen, size, sum, toUint_natCast small, toUint_natCast (by omega)]
    exact room
  -- The message that is made of it is laid out as the one sent.
  have made := Mbuf.refTpbuf_ok rcvConf.order
    { Mbuf.alloc call.rawMsg .unset with
      rtsFd := call.fd
      huge := rcvConf.usual < call.msgSize }
    call.msgSize msg.len ((280 + trLen + conf.d1Len : Nat) : Int)
    (by
      show toInt (hdrGet rcvConf.order call.rawMsg .plen) = _
      rw [same, plen, countIs]
      exact toInt_natCast (by simp only [intMax]; omega))
    (by
      show toInt (rmrHdrLen rcvConf.order call.rawMsg) = _
      rw [same, header]
      exact toInt_natCast (by simp only [intMax]; omega))
    (by simp only [InInt, intMin, intMax]; omega) (by omega)
  obtain ⟨delivery, handed, gives⟩ := buf2mbuf_mbuf fit made (by
    rw [same, data1At, show rmrD1Len conf.order call.rawMsg = conf.d1Len from len2]
    omega)
  refine ⟨delivery, _, handed, gives, ?_⟩
  have mtypeIs : toInt (hdrGet conf.order call.rawMsg .mtype) = msg.mtype := by
    rw [mtype, toInt_toUint laid.mtype]
  have subIdIs : toInt (hdrGet conf.order call.rawMsg .subId) = msg.subId := by
    rw [subId, toInt_toUint laid.subId]
  rw [same]
  -- Both messages are laid out alike, so they are compared part by part.
  have arrived : Mbuf.Laid conf.order conf.d1Len { Mbuf.alloc call.rawMsg .unset with
      rtsFd := call.fd
      huge := rcvConf.usual < call.msgSize
      state := .ok
      len := msg.len
      allocLen := call.msgSize
      payload := payloadAddr conf.order call.rawMsg
      mtype := toInt (hdrGet conf.order call.rawMsg .mtype)
      subId := toInt (hdrGet conf.order call.rawMsg .subId) } trLen := by
    refine ⟨len0, len1, len2, len3, payloadAt, len, ?_, laid.traceFits, rfl, inInt_toInt _,
      inInt_toInt _⟩
    show (payloadAddr conf.order call.rawMsg : Int) + msg.len ≤ call.rawMsg.size
    rw [payloadAt]
    omega
  have bytesOf : ∀ start count : Nat, 58 ≤ start → start + count ≤ total →
      (start + count ≤ 262 ∨ 266 ≤ start) →
      call.rawMsg.slice start count = msg.tpBuf.slice start count := by
    intro start count behind within apart
    rw [part (by omega) within, prepare_slice laid.keepSrc (Or.inr (by omega)) (Or.inr behind)
      apart]
  refine arrived.content_eq.trans ?_
  rw [laid.content_eq]
  show Content.mk (toInt (hdrGet conf.order call.rawMsg .mtype))
    (toInt (hdrGet conf.order call.rawMsg .subId)) msg.len
    (call.rawMsg.slice (330 + trLen + conf.d1Len) msg.len.toNat) (call.rawMsg.slice 62 32)
    (call.rawMsg.slice 190 32) (call.rawMsg.slice 330 trLen) (call.rawMsg.slice 126 64)
    (call.rawMsg.slice 266 64) = _
  rw [bytesOf (330 + trLen + conf.d1Len) msg.len.toNat (by omega) (by omega) (by omega),
    bytesOf 62 32 (by omega) (by omega) (by omega),
    bytesOf 190 32 (by omega) (by omega) (by omega),
    bytesOf 330 trLen (by omega) (by omega) (by omega),
    bytesOf 126 64 (by omega) (by omega) (by omega),
    bytesOf 266 64 (by omega) (by omega) (by omega), mtypeIs, subIdIs]

/-- A lone frame, however it is cut, is handed over in one call. -/
theorem receive_one {rcvConf : RcvConf} (left : Leftover) {frame : List UInt8} {fd : Int}
    {chunks : List (List UInt8)} (framed : Framed rcvConf.order frame) (served : 0 ≤ fd)
    (whole : chunks.flatten = frame) (nonempty : ∀ chunk ∈ chunks, chunk ≠ []) :
    ∃ rcv call, Rcv.receive rcvConf left (chunks.map fun chunk => (fd, chunk)) = .ok rcv ∧
      rcv.calls = [call] ∧ call.Carries frame := by
  have high := framed.high
  have streams : ∀ other, received (chunks.map fun chunk => (fd, chunk)) other =
      if other = fd then frame else [] := by
    intro other
    by_cases same : fd = other
    · simp [received, same, ← whole, List.filter_map, Function.comp_def]
    · have different : ¬ other = fd := fun equal => same equal.symm
      simp [received, same, different]
  have short : ∀ chunk ∈ chunks, chunk.length ≤ frame.length := by
    intro chunk among
    rw [← whole]
    exact (List.sublist_flatten_of_mem among).length_le
  have cut : Cut rcvConf.order (fun other => if other = fd then [frame] else [])
      (chunks.map fun chunk => (fd, chunk)) := by
    refine ⟨fun other one among => ?_, fun other => ?_, ?_, ?_, ?_⟩
    · split at among
      · rw [List.mem_singleton.mp among]
        exact framed
      · simp at among
    · rw [streams]
      split <;> simp
    · simpa using fun _ _ => served
    · simpa using nonempty
    · intro chunk among
      obtain ⟨bytes, member, rfl⟩ := List.mem_map.mp among
      have := short bytes member
      simp only
      omega
  have counts : Counts (fun other => if other = fd then [frame] else [])
      (chunks.map fun chunk => (fd, chunk)) := by
    intro before other chunk after split
    have all := streams other
    rw [split] at all
    have joined : received (before ++ (other, chunk) :: after) other =
        received before other ++ (chunk ++ received after other) := by
      simp [received]
    have most : (received (before ++ (other, chunk) :: after) other).length ≤ frame.length := by
      rw [all]
      split <;> simp
    rw [joined, List.length_append, List.length_append] at most
    have part := unfinished_le (if other = fd then [frame] else []) (received before other).length
    dsimp only
    omega
  obtain ⟨rcv, ran, follows⟩ := Rcv.receive_follows left cut counts
  have own := follows.completed fd
  rw [streams, if_pos rfl] at own
  simp only [if_true, completed, if_pos (Nat.le_refl frame.length)] at own
  obtain ⟨call, rest, carries, others, callsOf⟩ := List.forall₂_cons_right_iff.mp own
  rw [List.forall₂_nil_right_iff] at others
  subst others
  refine ⟨rcv, call, ran, ?_, carries⟩
  -- No other descriptor has a call, so these are all calls.
  have mine : ∀ made ∈ rcv.calls, made.fd = fd := by
    intro made among
    by_contra different
    have none_ := follows.completed made.fd
    simp only [if_neg different, completed, List.forall₂_nil_right_iff] at none_
    have member : made ∈ rcv.callsOf made.fd := List.mem_filter.mpr ⟨among, by simp⟩
    rw [none_] at member
    simp at member
  rw [← callsOf, Rcv.callsOf, List.filter_eq_self.mpr]
  intro made among
  simpa using mine made among

end

/-- What is sent arrives, when everything that is done with the message has room. -/
theorem faithful_of_composes (conf : SendConf) (rcvConf : RcvConf) (left : Leftover)
    (source : Source) (ops : List MsgOp) (same : rcvConf.order = conf.order)
    (composes : Composes conf left source ops) :
    Faithful conf rcvConf left source ops := by
  -- The frame is received by one call, which is delivered as a message with the same content.
  obtain ⟨draft, trLen, composed, laid, sendable, asked⟩ := composes.composed
  refine ⟨draft, _, composed, asked, sendMsg_ok laid sendable, ?_⟩
  intro rcvLeft fd chunks served whole nonempty
  have framed := sendMsg_framed laid sendable
  rw [← same] at framed
  obtain ⟨rcv, call, ran, calls, carries⟩ := receive_one rcvLeft framed served whole nonempty
  obtain ⟨delivery, mbuf, handed, gives, content⟩ := carries_delivers same laid sendable carries
  refine bind_eq_ok.mpr ⟨rcv, ran, bind_eq_ok.mpr ⟨[delivery], ?_, ?_⟩⟩
  · rw [calls]
    simp [handed]
  · show Except.ok ([delivery].filterMap _) = _
    simp [gives, content]

/-- A context that sends no trace data of its own. -/
def SendConf.plain : SendConf where
  order := .little
  traceDataLen := 0
  d1Len := 4
  maxPlen := 4096
  myName := [97]
  myIp := [49]

/-- A message with room left that is given trace data after its payload arrives. -/
theorem faithful_of_composes_traced :
    Composes SendConf.plain (fun _ _ => 0) (.alloc 8) [.mtype 10, .payload [1, 2], .trace [7]] ∧
    Faithful SendConf.plain RcvConf.default (fun _ _ => 0) (.alloc 8)
      [.mtype 10, .payload [1, 2], .trace [7]] := by
  -- The steps are evaluated from the allocation on, so that the room for each is decided.
  have composes : Composes SendConf.plain (fun _ _ => 0) (.alloc 8)
      [.mtype 10, .payload [1, 2], .trace [7]] := by
    refine ⟨⟨by decide, by decide, by decide⟩, fun draft allocated => ?_, fun draft composed => ?_⟩
    · have fit : Yields (fun draft => Draft.AllFit .little (fun _ _ => 0) draft
            [.mtype 10, .payload [1, 2], .trace [7]])
          (allocZcmsg SendConf.plain (fun _ _ => 0) 0 none 8 .ok (-1)) := by
        decide +kernel
      exact fit.of_ok allocated
    · have sendable : Yields (fun draft => (draft.msg.payload : Int) + draft.msg.len ≤
              draft.msg.allocLen ∧ (draft.msg.payload : Int) + draft.msg.len + 128 ≤ intMax)
          (compose SendConf.plain (fun _ _ => 0) (.alloc 8)
            [.mtype 10, .payload [1, 2], .trace [7]]) := by
        decide +kernel
      obtain ⟨fits, counted⟩ := sendable.of_ok composed
      exact ⟨fits, counted⟩
  exact ⟨composes, faithful_of_composes _ _ _ _ _ rfl composes⟩

/-- A payload as large as was offered, and then one byte of trace data: the frame is cut to what was
allocated, and the byte of the payload does not arrive. -/
theorem longer_trace_cuts_payload :
    (∃ draft, rmrAllocMsg SendConf.plain (fun _ _ => 0) 1 = .ok draft ∧
      rmrPayloadSize SendConf.plain.order draft.msg = 1) ∧
    ¬ Faithful SendConf.plain RcvConf.default (fun _ _ => 0) (.alloc 1)
      [.payload [1], .trace [7]] := by
  constructor
  · have offered : Yields (fun draft => rmrPayloadSize SendConf.plain.order draft.msg = 1)
        (rmrAllocMsg SendConf.plain (fun _ _ => 0) 1) := by
      decide +kernel
    exact offered.exists
  · intro ⟨draft, frame, composed, asked, sent, arrives⟩
    -- What arrives is found by running both sides.
    have payloads : Yields (fun draft => Yields (fun frame => frame ≠ [] ∧
          Yields (fun contents => contents.map Content.payload = [[0]])
            (arrivals RcvConf.default (fun _ _ => 0) [(5, frame)]))
        (sendMsg SendConf.plain draft.msg))
        (compose SendConf.plain (fun _ _ => 0) (.alloc 1) [.payload [1], .trace [7]]) := by
      decide +kernel
    obtain ⟨nonempty, arrived⟩ := (payloads.of_ok composed).of_ok sent
    have stale := arrived.of_ok (arrives (fun _ _ => 0) 5 [frame] (by decide) (by simp)
      (by simpa using nonempty))
    rw [asked] at stale
    simp [Source.first, Content.apply] at stale

end Rmr
