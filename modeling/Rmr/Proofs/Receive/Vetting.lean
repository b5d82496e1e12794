import Rmr.Lib.Run
import Rmr.Receive.Deliver

/-! What the vetting of a received header is worth: when the parts it tells of lie in the frame. -/

namespace Rmr

/-- A message that is not longer than its buffer is taken as it is. -/
theorem Mbuf.refTpbuf_ok (order : ByteOrder) (mbuf : Mbuf) (alen len hlen : Int)
    (lenIs : toInt (hdrGet order mbuf.tpBuf .plen) = len)
    (hlenIs : toInt (rmrHdrLen order mbuf.tpBuf) = hlen) (inside : InInt (alen - hlen))
    (fits : len ≤ alen - hlen) :
    mbuf.refTpbuf order alen = .ok { mbuf with
      state := .ok
      len := len
      allocLen := alen
      payload := payloadAddr order mbuf.tpBuf
      mtype := toInt (hdrGet order mbuf.tpBuf .mtype)
      subId := toInt (hdrGet order mbuf.tpBuf .subId) } := by
  -- The payload is not longer than the space behind the headers, so that it is not cut.
  unfold Mbuf.refTpbuf
  dsimp only
  rw [lenIs, hlenIs]
  refine bind_eq_ok.mpr ⟨alen - hlen, subInt_ok inside, ?_⟩
  rw [if_neg (by omega)]
  rfl

/-- The message that `buf2mbuf` makes of a raw message, before it finds out where it goes. -/
theorem buf2mbuf_mbuf {rcvConf : RcvConf} {rawMsg : Block} {msgSize senderFd : Int} {mbuf : Mbuf}
    (fit : lengthsFit rcvConf.order rawMsg msgSize)
    (made : Mbuf.refTpbuf rcvConf.order { Mbuf.alloc rawMsg .unset with
      rtsFd := senderFd
      huge := rcvConf.usual < msgSize } msgSize = .ok mbuf)
    (data1 : rmrD1Len rcvConf.order rawMsg ≠ 0 →
      data1Addr rcvConf.order rawMsg < rawMsg.size) :
    ∃ delivery, buf2mbuf rcvConf rawMsg msgSize senderFd = .ok delivery ∧
      delivery.mbuf? = some mbuf := by
  -- The cases are those of `buf2mbuf`: a call, a response, and all other messages.
  unfold buf2mbuf
  rw [if_neg (not_not.mpr fit)]
  by_cases call : rawMsg.get32 rcvConf.order HdrField.flags.offset &&& hflCallMsg ≠ 0
  · refine ⟨.normal mbuf, bind_eq_ok.mpr ⟨mbuf, made, ?_⟩, rfl⟩
    rw [if_pos call]
    rfl
  by_cases without : rmrD1Len rcvConf.order rawMsg = 0
  · refine ⟨.normal mbuf, bind_eq_ok.mpr ⟨mbuf, made, ?_⟩, rfl⟩
    rw [if_neg call, if_pos without]
    rfl
  have inside : ¬ rawMsg.size ≤ data1Addr rcvConf.order rawMsg := Nat.not_le.mpr (data1 without)
  by_cases zero : rawMsg.byte (data1Addr rcvConf.order rawMsg) = 0
  · refine ⟨.normal mbuf, bind_eq_ok.mpr ⟨mbuf, made, ?_⟩, rfl⟩
    rw [if_neg call, if_neg without, if_neg inside, if_pos zero]
    rfl
  · refine ⟨.chute (rawMsg.byte (data1Addr rcvConf.order rawMsg)) mbuf,
      bind_eq_ok.mpr ⟨mbuf, made, ?_⟩, rfl⟩
    rw [if_neg call, if_neg without, if_neg inside, if_neg zero]
    rfl

/-- What `ref_tpbuf` makes of a message: its parts are found by the header in the buffer. -/
theorem Mbuf.refTpbuf_found {order : ByteOrder} {msg mbuf : Mbuf} {alen : Int}
    (made : msg.refTpbuf order alen = .ok mbuf) :
    mbuf.tpBuf = msg.tpBuf ∧ mbuf.payload = payloadAddr order msg.tpBuf ∧
      mbuf.len = min (toInt (hdrGet order msg.tpBuf .plen))
        (alen - toInt (rmrHdrLen order msg.tpBuf)) := by
  -- The length is the one told, or the space that is left where that is smaller.
  obtain ⟨space, left, found⟩ := bind_eq_ok.mp made
  have spaceIs : space = alen - toInt (rmrHdrLen order msg.tpBuf) := by
    unfold subInt at left
    split at left
    · cases left
      rfl
    · cases left
  subst spaceIs
  dsimp only at found
  split at found
  · rename_i less
    cases found
    refine ⟨rfl, rfl, ?_⟩
    dsimp only
    omega
  · rename_i enough
    cases found
    refine ⟨rfl, rfl, ?_⟩
    dsimp only
    omega

/-- A message that was not dropped passed the check, and is the one that `ref_tpbuf` made. -/
theorem buf2mbuf_made {conf : RcvConf} {rawMsg : Block} {msgSize senderFd : Int}
    {delivery : Delivery} {mbuf : Mbuf}
    (handed : buf2mbuf conf rawMsg msgSize senderFd = .ok delivery)
    (is : delivery.mbuf? = some mbuf) :
    lengthsFit conf.order rawMsg msgSize ∧
      Mbuf.refTpbuf conf.order { Mbuf.alloc rawMsg .unset with
        rtsFd := senderFd
        huge := conf.usual < msgSize } msgSize = .ok mbuf := by
  unfold buf2mbuf at handed
  split at handed
  · cases handed
    cases is
  · rename_i fit
    refine ⟨not_not.mp fit, ?_⟩
    obtain ⟨made, taken, went⟩ := bind_eq_ok.mp handed
    rw [taken]
    -- Wherever the message goes, it is the one that was made.
    split at went
    · cases went
      exact congrArg Except.ok (Option.some.inj is)
    split at went
    · cases went
      exact congrArg Except.ok (Option.some.inj is)
    split at went
    · cases went
    split at went
    · cases went
      exact congrArg Except.ok (Option.some.inj is)
    · cases went
      exact congrArg Except.ok (Option.some.inj is)

/-- A message that passed the check is not dropped. -/
theorem buf2mbuf_taken {conf : RcvConf} {rawMsg : Block} {msgSize senderFd : Int}
    {delivery : Delivery} (handed : buf2mbuf conf rawMsg msgSize senderFd = .ok delivery)
    (fit : lengthsFit conf.order rawMsg msgSize) : ∃ mbuf, delivery.mbuf? = some mbuf := by
  -- Every branch of `buf2mbuf` behind the check of the lengths hands a message on.
  unfold buf2mbuf at handed
  rw [if_neg (not_not.mpr fit)] at handed
  obtain ⟨made, _, went⟩ := bind_eq_ok.mp handed
  split at went
  · cases went
    exact ⟨made, rfl⟩
  split at went
  · cases went
    exact ⟨made, rfl⟩
  split at went
  · cases went
  split at went
  · cases went
    exact ⟨made, rfl⟩
  · cases went
    exact ⟨made, rfl⟩

/-- Bytes of a frame that lie behind the fixed header. -/
def Behind (start count : Nat) (msgSize : Int) : Prop :=
  tpHdrLen + mhdrLen ≤ start ∧ (start + count : Int) ≤ msgSize

instance (start count : Nat) (msgSize : Int) : Decidable (Behind start count msgSize) :=
  inferInstanceAs (Decidable (_ ∧ _))

/-- The parts of a received message lie in its frame, behind the fixed header. -/
structure InFrame (order : ByteOrder) (msgSize : Int) (mbuf : Mbuf) : Prop where
  len : 0 ≤ mbuf.len
  trace : Behind (traceAddr order mbuf.tpBuf) (rmrTrLen order mbuf.tpBuf) msgSize
  data1 : 0 < rmrD1Len order mbuf.tpBuf → Behind (data1Addr order mbuf.tpBuf) 1 msgSize
  payload : Behind mbuf.payload mbuf.len.toNat msgSize

/-- The lengths that a header tells of, over unbounded integers. -/
structure Lengths where
  (len0 len1 len2 len3 plen : Nat)

/-- The lengths that stand in a header. -/
def lengthsIn (order : ByteOrder) (rawMsg : Block) : Lengths where
  len0 := hdrGet order rawMsg .len0
  len1 := hdrGet order rawMsg .len1
  len2 := hdrGet order rawMsg .len2
  len3 := hdrGet order rawMsg .len3
  plen := hdrGet order rawMsg .plen

namespace Lengths

variable (lens : Lengths) {msgSize : Int}

/-- Where the payload starts. -/
def start : Nat := tpHdrLen + lens.len0 + lens.len1 + lens.len2 + lens.len3

/-- The cross-check, in 32 bit arithmetic. -/
def Fit (msgSize : Int) : Prop :=
  toUint ((toUint ((lens.len0 : Int) + lens.len1 + lens.len2 + lens.len3) : Int) + tpHdrLen +
    lens.plen) ≤ toUint msgSize

/-- Where the sum does not wrap, the check is the one over unbounded integers. -/
theorem Fit.unwrapped {lens : Lengths} (fit : lens.Fit msgSize)
    (small : lens.start + lens.plen < 4294967296) (low : 0 ≤ msgSize) (high : msgSize ≤ intMax) :
    (lens.start + lens.plen : Int) ≤ msgSize := by
  -- Neither of the two unsigned sums reaches `2^32`, so that each is the sum itself.
  simp only [start, tpHdrLen, intMax] at small high ⊢
  have sum : toUint ((lens.len0 : Int) + lens.len1 + lens.len2 + lens.len3) =
      lens.len0 + lens.len1 + lens.len2 + lens.len3 := by
    have cast := toUint_natCast (n := lens.len0 + lens.len1 + lens.len2 + lens.len3) (by omega)
    push_cast at cast
    exact cast
  have all : toUint (((lens.len0 + lens.len1 + lens.len2 + lens.len3 : Nat) : Int) + tpHdrLen +
      lens.plen) = lens.len0 + lens.len1 + lens.len2 + lens.len3 + tpHdrLen + lens.plen := by
    have cast := toUint_natCast
      (n := lens.len0 + lens.len1 + lens.len2 + lens.len3 + tpHdrLen + lens.plen)
      (by simp only [tpHdrLen]; omega)
    push_cast at cast ⊢
    exact cast
  have size : toUint msgSize = msgSize.toNat := by
    have cast := toUint_natCast (n := msgSize.toNat) (by omega)
    rwa [Int.toNat_of_nonneg low] at cast
  rw [Fit, sum, all, size] at fit
  simp only [tpHdrLen] at fit
  omega

/-- A header that starts its payload in the frame is as long as it tells. -/
theorem hlen (high : msgSize ≤ intMax) (inside : (lens.start : Int) ≤ msgSize) :
    toInt (toUint ((lens.len0 : Int) + lens.len1 + lens.len2 + lens.len3)) =
      (lens.start : Int) - tpHdrLen := by
  -- The lengths together stay below the frame's, so that no conversion changes their sum.
  simp only [start, tpHdrLen, intMax] at inside high ⊢
  have cast := toUint_natCast (n := lens.len0 + lens.len1 + lens.len2 + lens.len3) (by omega)
  push_cast at cast
  rw [cast, toInt_natCast (by simp only [intMax]; omega)]
  push_cast
  omega

end Lengths

/-- The sum of all lengths in a header, over unbounded integers, is no more than a word holds, and
the header is not told to be shorter than it is. -/
def Unwrapped (order : ByteOrder) (rawMsg : Block) : Prop :=
  mhdrLen ≤ (lengthsIn order rawMsg).len0 ∧
    (lengthsIn order rawMsg).start + (lengthsIn order rawMsg).plen < 4294967296

instance (order : ByteOrder) (rawMsg : Block) : Decidable (Unwrapped order rawMsg) :=
  inferInstanceAs (Decidable (_ ∧ _))

/-- The parts of a message lie in its frame if and only if its payload ends there and its header is
not told to be shorter than it is. -/
theorem inFrame_iff {order : ByteOrder} {msgSize : Int} {mbuf : Mbuf} {lens : Lengths}
    (is : lengthsIn order mbuf.tpBuf = lens) (payload : mbuf.payload = lens.start) :
    InFrame order msgSize mbuf ↔
      0 ≤ mbuf.len ∧ mhdrLen ≤ lens.len0 ∧ (lens.start + mbuf.len : Int) ≤ msgSize := by
  -- The addresses of the parts are sums of the lengths, so that each bound is one about them.
  have trace : traceAddr order mbuf.tpBuf = tpHdrLen + lens.len0 := by
    rw [← is]
    rfl
  have data1 : data1Addr order mbuf.tpBuf = tpHdrLen + lens.len0 + lens.len1 := by
    rw [← is]
    rfl
  have len1 : rmrTrLen order mbuf.tpBuf = lens.len1 := by
    rw [← is]
    rfl
  have len2 : rmrD1Len order mbuf.tpBuf = lens.len2 := by
    rw [← is]
    rfl
  constructor
  · rintro ⟨low, ⟨long, _⟩, _, _, area⟩
    rw [trace] at long
    rw [payload] at area
    exact ⟨low, by omega, by omega⟩
  · rintro ⟨low, long, area⟩
    have start : lens.start = tpHdrLen + lens.len0 + lens.len1 + lens.len2 + lens.len3 := rfl
    refine ⟨low, ?_, ?_, ?_⟩
    · rw [trace, len1]
      exact ⟨by omega, by omega⟩
    · intro some_
      rw [len2] at some_
      rw [data1]
      exact ⟨by omega, by omega⟩
    · rw [payload]
      exact ⟨by omega, by omega⟩

/-- Where the sum of the lengths did not wrap, all parts lie in the frame. -/
theorem Unwrapped.inFrame {conf : RcvConf} {rawMsg : Block} {msgSize : Int} (senderFd : Int)
    (unwrapped : Unwrapped conf.order rawMsg) (fits : msgSize ≤ intMax)
    (whole : (tpHdrLen + mhdrLen : Int) ≤ msgSize) (held : msgSize ≤ rawMsg.size)
    (fit : lengthsFit conf.order rawMsg msgSize) :
    ∃ delivery mbuf, buf2mbuf conf rawMsg msgSize senderFd = .ok delivery ∧
      delivery.mbuf? = some mbuf ∧ InFrame conf.order msgSize mbuf := by
  -- With no wrap the payload is as long as the header tells, and nothing is cut off.
  obtain ⟨lens, is⟩ : ∃ lens, lengthsIn conf.order rawMsg = lens := ⟨_, rfl⟩
  have fit' : lens.Fit msgSize := is ▸ fit
  rw [Unwrapped, is] at unwrapped
  have inside := fit'.unwrapped unwrapped.2 (by omega) fits
  have transport : tpHdrLen = 50 := rfl
  have starts : (lens.start : Int) ≤ msgSize := by omega
  have small : (lens.plen : Int) ≤ intMax := by omega
  have enough : (lens.plen : Int) ≤ msgSize - (lens.start - tpHdrLen) := by omega
  have start : lens.start = tpHdrLen + lens.len0 + lens.len1 + lens.len2 + lens.len3 := rfl
  have space : InInt (msgSize - (lens.start - tpHdrLen)) := by
    simp only [InInt, intMin, intMax] at fits ⊢
    omega
  have room : lens.len2 ≠ 0 → tpHdrLen + lens.len0 + lens.len1 < rawMsg.size := by
    intro some_
    omega
  have len : toInt (hdrGet conf.order rawMsg .plen) = lens.plen := by
    rw [show hdrGet conf.order rawMsg .plen = lens.plen from congrArg Lengths.plen is]
    exact toInt_natCast small
  have hlen : toInt (rmrHdrLen conf.order rawMsg) = lens.start - tpHdrLen := by
    have header : rmrHdrLen conf.order rawMsg =
        toUint ((lens.len0 : Int) + lens.len1 + lens.len2 + lens.len3) := by
      rw [← is]
      rfl
    rw [header]
    exact lens.hlen fits starts
  have made := Mbuf.refTpbuf_ok conf.order
    { Mbuf.alloc rawMsg .unset with
      rtsFd := senderFd
      huge := conf.usual < msgSize } msgSize _ _ len hlen space enough
  have data1 : rmrD1Len conf.order rawMsg ≠ 0 → data1Addr conf.order rawMsg < rawMsg.size := by
    rw [show rmrD1Len conf.order rawMsg = lens.len2 from congrArg Lengths.len2 is,
      show data1Addr conf.order rawMsg = tpHdrLen + lens.len0 + lens.len1 by rw [← is]; rfl]
    exact room
  obtain ⟨delivery, handed, gives⟩ := buf2mbuf_mbuf fit made data1
  have payload : payloadAddr conf.order rawMsg = lens.start := by
    rw [← is]
    rfl
  refine ⟨delivery, _, handed, gives, (inFrame_iff is payload).mpr ?_⟩
  exact ⟨Int.natCast_nonneg _, unwrapped.1, inside⟩

/-- A payload that was cut down to the space behind the header still reaches out of the frame: the
transport header is not counted there. -/
theorem cut_outside (start msgSize : Int) :
    ¬ start + (msgSize - (start - tpHdrLen)) ≤ msgSize := by
  simp only [tpHdrLen]
  omega

/-- What ends in a frame is no more than a word holds. -/
theorem unwrapped_of_inside {start plen : Nat} {msgSize : Int} (fits : msgSize ≤ intMax)
    (inside : (start + plen : Int) ≤ msgSize) : start + plen < 4294967296 := by
  simp only [intMax] at fits
  omega

/-- A message whose parts lie in its frame tells of lengths that do not wrap. -/
theorem InFrame.unwrapped {conf : RcvConf} {rawMsg : Block} {msgSize senderFd : Int} {mbuf : Mbuf}
    (inside : InFrame conf.order msgSize mbuf) (fits : msgSize ≤ intMax)
    (made : Mbuf.refTpbuf conf.order { Mbuf.alloc rawMsg .unset with
      rtsFd := senderFd
      huge := conf.usual < msgSize } msgSize = .ok mbuf) :
    Unwrapped conf.order rawMsg := by
  -- A cut length would end past the frame, and a length from `2^31` on is read as a negative one.
  obtain ⟨buf, payload, len⟩ := Mbuf.refTpbuf_found made
  obtain ⟨lens, is⟩ : ∃ lens, lengthsIn conf.order rawMsg = lens := ⟨_, rfl⟩
  have buf : mbuf.tpBuf = rawMsg := buf
  have payload : mbuf.payload = lens.start := by
    rw [← is]
    exact payload
  have len : mbuf.len = min (toInt lens.plen)
      (msgSize - toInt (toUint ((lens.len0 : Int) + lens.len1 + lens.len2 + lens.len3))) := by
    rw [← is]
    exact len
  obtain ⟨low, long, area⟩ := (inFrame_iff (buf ▸ is) payload).mp inside
  have starts : (lens.start : Int) ≤ msgSize := by omega
  have word : lens.plen < 4294967296 := by
    rw [← is]
    exact hdrGet_lt _ _ _
  rw [lens.hlen fits starts] at len
  have told : mbuf.len = toInt lens.plen := by
    rcases min_choice (toInt lens.plen) (msgSize - (lens.start - tpHdrLen)) with whole | cut
    · exact len.trans whole
    · exact absurd area (by rw [len, cut]; exact cut_outside _ _)
  have small : (lens.plen : Int) ≤ intMax := by
    by_contra large
    have negative := toInt_neg (not_le.mp large) word
    rw [← told] at negative
    exact absurd low (not_le.mpr negative)
  rw [told, toInt_natCast small] at area
  rw [Unwrapped, is]
  exact ⟨long, unwrapped_of_inside fits area⟩

/-- Of a frame of any content, either the message is dropped or all of its parts lie in the frame,
if and only if the lengths that pass the check do not wrap. -/
theorem buf2mbuf_inFrame_iff (conf : RcvConf) (rawMsg : Block) (msgSize senderFd : Int)
    (fits : msgSize ≤ intMax) (whole : (tpHdrLen + mhdrLen : Int) ≤ msgSize)
    (held : msgSize ≤ rawMsg.size) :
    Yields (fun delivery => ∀ mbuf ∈ delivery.mbuf?, InFrame conf.order msgSize mbuf)
        (buf2mbuf conf rawMsg msgSize senderFd) ↔
      (lengthsFit conf.order rawMsg msgSize → Unwrapped conf.order rawMsg) := by
  -- A frame that fails the check is dropped; one that passes is in the frame unless its lengths
  -- wrap.
  constructor
  · intro yields fit
    obtain ⟨delivery, handed, inside⟩ := yields.exists
    obtain ⟨mbuf, is⟩ := buf2mbuf_taken handed fit
    exact (inside mbuf is).unwrapped fits (buf2mbuf_made handed is).2
  · intro unwrapped
    by_cases fit : lengthsFit conf.order rawMsg msgSize
    · obtain ⟨delivery, mbuf, handed, is, inside⟩ :=
        (unwrapped fit).inFrame senderFd fits whole held fit
      refine Yields.intro handed fun other also => ?_
      rw [is] at also
      cases also
      exact inside
    · have dropped : buf2mbuf conf rawMsg msgSize senderFd = .ok .dropped := by
        unfold buf2mbuf
        rw [if_pos fit]
      refine Yields.intro dropped fun mbuf is => ?_
      cases is

/-- A frame of nothing but its headers, without trace and data, that tells of a payload. -/
def headersOnly (plen : Nat) : Block :=
  (((Block.ofList (List.replicate (tpHdrLen + mhdrLen) 0)).setNet32 .little
    HdrField.len0.offset mhdrLen).setNet32 .little HdrField.plen.offset plen)

/-- A frame without a payload is taken. -/
theorem buf2mbuf_inFrame_iff_empty :
    Yields (fun delivery => ∀ mbuf ∈ delivery.mbuf?, InFrame .little 330 mbuf)
      (buf2mbuf RcvConf.default (headersOnly 0) 330 7) := by
  -- The only length of the frame is that of the header, which ends where the frame does.
  have unwrapped : Unwrapped .little (headersOnly 0) := by
    decide +kernel
  have held : (330 : Int) ≤ (headersOnly 0).size := by
    decide +kernel
  exact (buf2mbuf_inFrame_iff RcvConf.default (headersOnly 0) 330 7 (by decide) (by decide)
    held).mpr fun _ => unwrapped

/-- A payload length of all ones wraps the sum around to one less than the headers: the message is
taken, and its length is negative. -/
theorem buf2mbuf_takes_negative_length :
    ¬ Yields (fun delivery => ∀ mbuf ∈ delivery.mbuf?, InFrame .little 330 mbuf)
      (buf2mbuf RcvConf.default (headersOnly 4294967295) 330 7) := by
  -- A payload length of `2^32 - 1` makes the sum 329, which is within the 330 bytes.
  intro yields
  have taken : Yields (fun delivery => delivery.mbuf?.map (·.len) = some (-1))
      (buf2mbuf RcvConf.default (headersOnly 4294967295) 330 7) := by
    decide +kernel
  obtain ⟨delivery, handed, inside⟩ := yields.exists
  have len := taken.of_ok handed
  obtain ⟨mbuf, is, len⟩ := Option.map_eq_some_iff.mp len
  have low := (inside mbuf is).len
  omega

end Rmr
