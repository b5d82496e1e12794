import Rmr.Proofs.Receive.Reassembly

/-! Whole runs of data callbacks over streams of frames, cut and interleaved in any way. -/

namespace Rmr

/-- Chunks that cut streams of frames, one stream for each descriptor. -/
structure Cut (order : ByteOrder) (frames : Int → List (List UInt8))
    (chunks : List (Int × List UInt8)) : Prop where
  framed : ∀ fd, ∀ frame ∈ frames fd, Framed order frame
  /-- Nothing else is received than the streams. -/
  streams : ∀ fd, received chunks fd <+: (frames fd).flatten
  served : ∀ chunk ∈ chunks, 0 ≤ chunk.1
  nonempty : ∀ chunk ∈ chunks, chunk.2 ≠ []
  /-- The length of a chunk is passed in as an `int`. -/
  fits : ∀ chunk ∈ chunks, (chunk.2.length : Int) ≤ intMax

/-- Each chunk, with the bytes of the frame that it goes on with, is counted by an `int`. -/
def Counts (frames : Int → List (List UInt8)) (chunks : List (Int × List UInt8)) : Prop :=
  ∀ before fd chunk after, chunks = before ++ (fd, chunk) :: after →
    ((unfinished (frames fd) (received before fd).length + chunk.length : Nat) : Int) ≤ intMax

/-- One chunk more is received on its own descriptor only. -/
theorem received_append (chunks : List (Int × List UInt8)) (fd other : Int)
    (chunk : List UInt8) :
    received (chunks ++ [(fd, chunk)]) other =
      received chunks other ++ if other = fd then chunk else [] := by
  -- Only chunks of the descriptor are joined.
  by_cases same : other = fd
  · simp [received, same]
  · have different : fd ≠ other := fun equal => same equal.symm
    simp [received, same, different]

/-- Chunks that are cut short at some point still cut the streams. -/
theorem Cut.init {order : ByteOrder} {frames : Int → List (List UInt8)}
    {chunks : List (Int × List UInt8)} {fd : Int} {chunk : List UInt8}
    (cut : Cut order frames (chunks ++ [(fd, chunk)])) : Cut order frames chunks := by
  -- Each condition on the chunks is about fewer of them, and the streams are received less far.
  refine ⟨cut.framed, fun other => ?_, fun earlier among => cut.served earlier (by simp [among]),
    fun earlier among => cut.nonempty earlier (by simp [among]),
    fun earlier among => cut.fits earlier (by simp [among])⟩
  have all := cut.streams other
  rw [received_append] at all
  exact (List.prefix_append _ _).trans all

/-- What holds between the callbacks: each river is where its stream has got to. -/
structure Rcv.Follows (conf : RcvConf) (frames : Int → List (List UInt8))
    (chunks : List (Int × List UInt8)) (rcv : Rcv) : Prop where
  ok : rcv.Ok conf
  idle : rcv.busy = none
  streams : ∀ fd, ∃ done rest bytes, frames fd = done ++ rest ∧
    received chunks fd = done.flatten ++ bytes ∧ Begun rest bytes ∧
    List.Forall₂ Call.Carries (rcv.callsOf fd) done ∧ (rcv.river conf fd).Holds rest bytes

/-- At first nothing has been received. -/
theorem Rcv.follows_init {conf : RcvConf} {frames : Int → List (List UInt8)}
    (framed : ∀ fd, ∀ frame ∈ frames fd, Framed conf.order frame) :
    Rcv.init.Follows conf frames [] := by
  refine ⟨Rcv.init_ok conf, rfl, fun fd => ?_⟩
  refine ⟨[], frames fd, [], rfl, rfl, begun_nil fun frame among => ?_, List.Forall₂.nil, ?_⟩
  · have low := (framed fd frame among).low
    simp only [tpSzfieldLen] at low
    omega
  · -- Every river is new, so it holds nothing.
    have new : (Rcv.init.river conf fd).state = .new := by
      simp [Rcv.river, Rcv.init, River.zero]
    refine ⟨by simp [new], fun _ => rfl, fun good => ?_, fun good => ?_⟩ <;> simp [new] at good

/-- The calls of a descriptor after some more were made for one. -/
theorem Rcv.callsOf_append {rcv next : Rcv} {calls : List Call} {fd : Int}
    (added : next.calls = rcv.calls ++ calls) (own : ∀ call ∈ calls, call.fd = fd) (other : Int) :
    next.callsOf other = rcv.callsOf other ++ if other = fd then calls else [] := by
  -- The new calls are all of that descriptor, so that the filter keeps all of them or none.
  rw [Rcv.callsOf, added, List.filter_append, ← Rcv.callsOf]
  congr 1
  by_cases same : other = fd
  · rw [if_pos same, List.filter_eq_self]
    intro call among
    simp [own call among, same]
  · rw [if_neg same, List.filter_eq_nil_iff]
    intro call among
    simpa [own call among] using fun equal : fd = other => same equal.symm

/-- Where a stream has got to tells which of its frames are completed. -/
theorem Rcv.Follows.completed {conf : RcvConf} {frames : Int → List (List UInt8)}
    {chunks : List (Int × List UInt8)} {rcv : Rcv} (follows : rcv.Follows conf frames chunks)
    (fd : Int) : List.Forall₂ Call.Carries (rcv.callsOf fd)
      (completed (frames fd) (received chunks fd).length) := by
  -- The frames are split where the bytes get to, and those in front of it were carried.
  obtain ⟨done, rest, bytes, split, stream, begun, carried, _⟩ := follows.streams fd
  rw [split, stream, completed_begun begun]
  exact carried

/-- One more chunk that an `int` can count is followed. -/
theorem Rcv.Follows.next {conf : RcvConf} (left : Leftover) {frames : Int → List (List UInt8)}
    {chunks : List (Int × List UInt8)} {fd : Int} {chunk : List UInt8} {rcv : Rcv}
    (follows : rcv.Follows conf frames chunks)
    (cut : Cut conf.order frames (chunks ++ [(fd, chunk)]))
    (counts : ((unfinished (frames fd) (received chunks fd).length + chunk.length : Nat) : Int)
      ≤ intMax) :
    ∃ next, rcv.mtDataCb conf left fd chunk = .ok next ∧
      next.Follows conf frames (chunks ++ [(fd, chunk)]) := by
  obtain ⟨done, rest, bytes, split, stream, begun, carried, holds⟩ := follows.streams fd
  -- What the stream has left begins with the bytes held and the chunk.
  have starts : bytes ++ chunk <+: rest.flatten := by
    have all := cut.streams fd
    rw [received_append, if_pos rfl, stream, split, List.flatten_append, List.append_assoc] at all
    exact (List.prefix_append_right_inj _).mp all
  rw [split, stream, unfinished_begun begun] at counts
  have framed : ∀ frame ∈ rest, Framed conf.order frame :=
    fun frame among => cut.framed fd frame (by simp [split, among])
  obtain ⟨next, ends, gathered⟩ := Rcv.mtDataCb_gathers left follows.ok
    (cut.served (fd, chunk) (by simp)) (cut.nonempty (fd, chunk) (by simp)) framed holds starts
    counts
  obtain ⟨idle, nextOk, others, calls, more, remaining, behind, added, own, restSplit, cutAt,
    nextBegun, nextCarried, nextHolds⟩ := gathered
  refine ⟨next, ends, nextOk, idle, fun other => ?_⟩
  rw [received_append, Rcv.callsOf_append added own]
  by_cases same : other = fd
  · -- On this descriptor the newly completed frames join those before.
    subst same
    refine ⟨done ++ more, remaining, behind, ?_, ?_, nextBegun, ?_, nextHolds⟩
    · rw [split, restSplit, List.append_assoc]
    · rw [if_pos rfl, stream, List.append_assoc, cutAt, List.flatten_append, List.append_assoc]
    · rw [if_pos rfl]
      exact List.rel_append carried nextCarried
  · -- Any other stream is where it was.
    rw [if_neg same, if_neg same, List.append_nil, List.append_nil, others other same]
    exact follows.streams other

/-- One more chunk that an `int` can not count is not received. -/
theorem Rcv.Follows.overflows {conf : RcvConf} (left : Leftover)
    {frames : Int → List (List UInt8)} {chunks : List (Int × List UInt8)} {fd : Int}
    {chunk : List UInt8} {rcv next : Rcv} (follows : rcv.Follows conf frames chunks)
    (cut : Cut conf.order frames (chunks ++ [(fd, chunk)]))
    (many : intMax <
      ((unfinished (frames fd) (received chunks fd).length + chunk.length : Nat) : Int)) :
    rcv.mtDataCb conf left fd chunk ≠ .ok next := by
  -- The bytes held are those of the unfinished frame, so that the sum is the one that overflows.
  obtain ⟨done, rest, bytes, split, stream, begun, carried, holds⟩ := follows.streams fd
  have starts : bytes ++ chunk <+: rest.flatten := by
    have all := cut.streams fd
    rw [received_append, if_pos rfl, stream, split, List.flatten_append, List.append_assoc] at all
    exact (List.prefix_append_right_inj _).mp all
  rw [split, stream, unfinished_begun begun] at many
  exact Rcv.mtDataCb_overflows left follows.ok (cut.served (fd, chunk) (by simp))
    (cut.nonempty (fd, chunk) (by simp))
    (fun frame among => cut.framed fd frame (by simp [split, among])) holds starts many

/-- Receiving one chunk more goes through the state before it. -/
theorem Rcv.receive_append_ok {conf : RcvConf} {left : Leftover}
    {chunks : List (Int × List UInt8)} {fd : Int} {chunk : List UInt8} {rcv : Rcv} :
    Rcv.receive conf left (chunks ++ [(fd, chunk)]) = .ok rcv ↔
      ∃ mid, Rcv.receive conf left chunks = .ok mid ∧ mid.mtDataCb conf left fd chunk =
        .ok rcv := by
  unfold Rcv.receive
  rw [foldlM_append_ok]
  simp

/-- Chunks before the last one are counted when all are. -/
theorem Counts.init {frames : Int → List (List UInt8)} {chunks : List (Int × List UInt8)}
    {last : Int × List UInt8} (counts : Counts frames (chunks ++ [last])) :
    Counts frames chunks := by
  intro before fd chunk after split
  exact counts before fd chunk (after ++ [last]) (by simp [split])

/-- Chunks that are all counted are received, and followed. -/
theorem Rcv.receive_follows {conf : RcvConf} (left : Leftover)
    {frames : Int → List (List UInt8)} {chunks : List (Int × List UInt8)}
    (cut : Cut conf.order frames chunks) (counts : Counts frames chunks) :
    ∃ rcv, Rcv.receive conf left chunks = .ok rcv ∧ rcv.Follows conf frames chunks := by
  -- By induction on the chunks from the end: the last one is received by what the others lead to.
  induction chunks using List.reverseRecOn with
  | nil => exact ⟨Rcv.init, rfl, Rcv.follows_init cut.framed⟩
  | append_singleton chunks last ih =>
    obtain ⟨mid, ran, follows⟩ := ih cut.init counts.init
    obtain ⟨next, ends, onward⟩ := follows.next left cut (counts chunks last.1 last.2 [] rfl)
    exact ⟨next, Rcv.receive_append_ok.mpr ⟨mid, ran, ends⟩, onward⟩

/-- Chunks that are received were all counted. -/
theorem Rcv.receive_counts {conf : RcvConf} {left : Leftover}
    {frames : Int → List (List UInt8)} {chunks : List (Int × List UInt8)} {rcv : Rcv}
    (cut : Cut conf.order frames chunks) (ran : Rcv.receive conf left chunks = .ok rcv) :
    Counts frames chunks := by
  -- Induction from the last chunk: the ones before it were received as well.
  induction chunks using List.reverseRecOn generalizing rcv with
  | nil =>
    intro before fd chunk after split
    simp at split
  | append_singleton chunks last ih =>
    obtain ⟨mid, ranMid, ends⟩ := Rcv.receive_append_ok.mp ran
    have earlier : Counts frames chunks := ih cut.init ranMid
    intro before fd chunk after split
    rcases List.eq_nil_or_concat after with none_ | ⟨others, final, some_⟩
    · -- The chunk is the last one, and a chunk that is not counted has no outcome.
      subst none_
      obtain ⟨rfl, same⟩ := List.append_inj' split (by simp)
      obtain ⟨rfl⟩ : last = (fd, chunk) := by simpa using same
      obtain ⟨other, ranOther, follows⟩ := Rcv.receive_follows left cut.init earlier
      rw [ranMid] at ranOther
      cases ranOther
      by_contra many
      exact follows.overflows left cut (not_le.mp many) ends
    · -- Any other one is among the chunks before.
      subst some_
      rw [List.concat_eq_append, ← List.cons_append, ← List.append_assoc] at split
      exact earlier before fd chunk others (List.append_inj' split (by simp)).1

/-- What is received from streams of frames is, for each descriptor, the frames completed so far, in
order and each once, exactly when every chunk is counted by an `int`.

The frames completed are a matter of the number of bytes received alone, so it makes no difference
how the streams were cut and interleaved. -/
theorem Rcv.receive_completed_iff (conf : RcvConf) (left : Leftover)
    {frames : Int → List (List UInt8)} {chunks : List (Int × List UInt8)}
    (cut : Cut conf.order frames chunks) :
    (∃ rcv, Rcv.receive conf left chunks = .ok rcv ∧
      ∀ fd, List.Forall₂ Call.Carries (rcv.callsOf fd)
        (completed (frames fd) (received chunks fd).length)) ↔
      Counts frames chunks := by
  -- Where the chunks are counted the run follows the streams; a chunk too large stops it.
  constructor
  · rintro ⟨rcv, ran, _⟩
    exact Rcv.receive_counts cut ran
  · intro counts
    obtain ⟨rcv, ran, follows⟩ := Rcv.receive_follows left cut counts
    exact ⟨rcv, ran, follows.completed⟩

/-- Two bytes, and the other seven of a frame that is only a size field, are received as one. -/
theorem Rcv.receive_completed_iff_split_size :
    Cut .little (fun fd => if fd = 5 then [[9, 0, 0, 0, 0, 0, 0, 0, 0]] else [])
      [(5, [9, 0]), (5, [0, 0, 0, 0, 0, 0, 0])] ∧
    ((∃ rcv, Rcv.receive RcvConf.default (fun _ _ => 0)
        [(5, [9, 0]), (5, [0, 0, 0, 0, 0, 0, 0])] = .ok rcv ∧
      ∀ fd, List.Forall₂ Call.Carries (rcv.callsOf fd)
        (completed (if fd = 5 then [[9, 0, 0, 0, 0, 0, 0, 0, 0]] else [])
          (received [(5, [9, 0]), (5, [0, 0, 0, 0, 0, 0, 0])] fd).length)) ↔
      Counts (fun fd => if fd = 5 then [[9, 0, 0, 0, 0, 0, 0, 0, 0]] else [])
        [(5, [9, 0]), (5, [0, 0, 0, 0, 0, 0, 0])]) := by
  -- The only stream is that of descriptor 5, cut within the size field of its frame.
  have cut : Cut .little (fun fd => if fd = 5 then [[9, 0, 0, 0, 0, 0, 0, 0, 0]] else [])
      [(5, [9, 0]), (5, [0, 0, 0, 0, 0, 0, 0])] := by
    refine ⟨fun fd frame among => ?_, fun fd => ?_, by decide, by decide, by decide⟩
    · split at among
      · obtain rfl : frame = [9, 0, 0, 0, 0, 0, 0, 0, 0] := by simpa using among
        exact ⟨by decide, by decide, by decide⟩
      · simp at among
    · by_cases same : fd = 5
      · subst same
        decide
      · have different : ¬ 5 = fd := fun equal => same equal.symm
        simp [received, different]
  exact ⟨cut, Rcv.receive_completed_iff RcvConf.default (fun _ _ => 0) cut⟩

/-- A frame of some size on a little endian host, as a back level sender would write it. -/
def sizedFrame (size : Nat) : List UInt8 :=
  bytes32 .little size ++ List.replicate (size - 4) 0

/-- A stream received on a descriptor in a number of chunks of one size. -/
def chopped (fd : Int) (stream : List UInt8) (size count : Nat) : List (Int × List UInt8) :=
  (List.range count).map fun nth => (fd, (stream.drop (size * nth)).take size)

/-- Such a frame has the length asked for. -/
theorem sizedFrame_length (size : Nat) (four : 4 ≤ size) : (sizedFrame size).length = size := by
  simp only [sizedFrame, List.length_append, bytes32_length, List.length_replicate]
  omega

/-- Such a frame announces its own length. -/
theorem sizedFrame_framed {size : Nat} (low : 9 ≤ size) (high : (size : Int) + 128 ≤ intMax) :
    Framed .little (sizedFrame size) := by
  have length := sizedFrame_length size (by omega)
  refine ⟨by rw [length]; exact low, by rw [length]; exact high, ?_⟩
  -- The byte behind both sizes is no marker, so the first size counts.
  have marker : (Block.ofList (sizedFrame size)).byte (0 + 8) = 0 := by
    have behind : 8 - 4 < size - 4 := by omega
    simp only [Block.ofList, sizedFrame, List.getD, Nat.zero_add]
    rw [List.getElem?_append_right (by simp), bytes32_length]
    simp [behind]
  have first : (Block.ofList (sizedFrame size)).slice 0 4 = bytes32 .little size := by
    rw [Block.ofList_slice _ _ _ (by rw [length]; omega), List.drop_zero]
    exact List.take_left' (bytes32_length _ _)
  simp only [intMax] at high
  rw [length, extractMlen, marker, if_neg (by decide), Block.get32, first]
  exact word32_bytes32 .little (by omega)

/-- A chopped stream is received from its start, on its own descriptor only. -/
theorem received_chopped (fd other : Int) (stream : List UInt8) (size count : Nat) :
    received (chopped fd stream size count) other =
      if other = fd then stream.take (size * count) else [] := by
  -- By induction on the number of chunks; each takes the next piece of the stream.
  induction count with
  | zero => simp [chopped, received]
  | succ count ih =>
    have more : chopped fd stream size (count + 1) =
        chopped fd stream size count ++ [(fd, (stream.drop (size * count)).take size)] := by
      simp [chopped, List.range_succ]
    rw [more, received_append, ih]
    by_cases same : other = fd
    · rw [if_pos same, if_pos same, if_pos same, Nat.mul_succ, List.take_add]
    · simp [same]

/-- Two frames that fill a number of chunks are cut by them. -/
theorem chopped_cut (first second size count : Nat) (fits : (size : Int) ≤ intMax)
    (positive : 0 < size) (whole : first + second = size * count)
    (firstLow : 9 ≤ first) (firstHigh : (first : Int) + 128 ≤ intMax) (secondLow : 9 ≤ second)
    (secondHigh : (second : Int) + 128 ≤ intMax) :
    Cut .little (fun fd => if fd = 5 then [sizedFrame first, sizedFrame second] else [])
      (chopped 5 (sizedFrame first ++ sizedFrame second) size count) := by
  have length : (sizedFrame first ++ sizedFrame second).length = size * count := by
    rw [List.length_append, sizedFrame_length _ (by omega), sizedFrame_length _ (by omega), whole]
  refine ⟨fun fd frame among => ?_, fun fd => ?_, ?_, ?_, ?_⟩
  · split at among
    · rcases List.mem_pair.mp among with rfl | rfl
      · exact sizedFrame_framed firstLow firstHigh
      · exact sizedFrame_framed secondLow secondHigh
    · simp at among
  · rw [received_chopped]
    by_cases same : fd = 5
    · simp only [if_pos same, ← length, List.take_length, List.flatten_cons, List.flatten_nil,
        List.append_nil]
      exact List.prefix_rfl
    · simp [same]
  · intro chunk among
    obtain ⟨nth, _, rfl⟩ := List.mem_map.mp among
    show (0 : Int) ≤ 5
    decide
  · intro chunk among
    obtain ⟨nth, within, rfl⟩ := List.mem_map.mp among
    -- The chunk starts within the stream, as its number is below the count.
    have below : size * nth + size ≤ size * count := by
      rw [← Nat.mul_succ]
      exact Nat.mul_le_mul_left size (List.mem_range.mp within)
    apply List.ne_nil_of_length_pos
    rw [List.length_take, List.length_drop, length]
    omega
  · intro chunk among
    obtain ⟨nth, _, rfl⟩ := List.mem_map.mp among
    have short := List.length_take_le size
      ((sizedFrame first ++ sizedFrame second).drop (size * nth))
    simp only
    omega

/-- A first frame that ends short of `2^31` bytes into its chunks is not received with the last. -/
theorem chopped_overflows {first second size count : Nat} (left : Leftover)
    (cut : Cut .little (fun fd => if fd = 5 then [sizedFrame first, sizedFrame second] else [])
      (chopped 5 (sizedFrame first ++ sizedFrame second) size (count + 1)))
    (low : 4 ≤ first) (lowSecond : 4 ≤ second) (within : size * count < first)
    (whole : first + second = size * count + size)
    (many : intMax < ((size * count + size : Nat) : Int)) :
    ¬ ∃ rcv, Rcv.receive RcvConf.default left
      (chopped 5 (sizedFrame first ++ sizedFrame second) size (count + 1)) = .ok rcv := by
  rintro ⟨rcv, ran⟩
  have counts := Rcv.receive_counts cut ran
  have length : (sizedFrame first ++ sizedFrame second).length = size * count + size := by
    rw [List.length_append, sizedFrame_length _ low, sizedFrame_length _ lowSecond, whole]
  have last := counts (chopped 5 (sizedFrame first ++ sizedFrame second) size count) 5
    (((sizedFrame first ++ sizedFrame second).drop (size * count)).take size) []
    (by simp [chopped, List.range_succ])
  -- All bytes before the last chunk belong to the first frame, which they do not complete.
  have before : (received (chopped 5 (sizedFrame first ++ sizedFrame second) size count)
      5).length = size * count := by
    rw [received_chopped, if_pos rfl, List.length_take, length]
    omega
  have begun : unfinished [sizedFrame first, sizedFrame second] (size * count) = size * count := by
    rw [unfinished, sizedFrame_length _ low, if_neg (by omega)]
  simp only [before, if_true, begun, List.length_take, List.length_drop, length] at last
  omega

/-- A frame of the largest size and one of 129 bytes, read 8192 bytes at a time, are cut into
frames as they should be, but the last read counts `2^31` bytes. -/
theorem Rcv.receive_largest_frame_overflows :
    Cut .little (fun fd => if fd = 5 then [sizedFrame 2147483519, sizedFrame 129] else [])
      (chopped 5 (sizedFrame 2147483519 ++ sizedFrame 129) 8192 262144) ∧
    ¬ ∃ rcv, Rcv.receive RcvConf.default (fun _ _ => 0)
      (chopped 5 (sizedFrame 2147483519 ++ sizedFrame 129) 8192 262144) = .ok rcv := by
  -- The chunks are cut from the two frames, and the count overflows at the last one.
  have cut := chopped_cut 2147483519 129 8192 262144 (by decide)
    (by decide) (by decide) (by decide) (by decide) (by decide) (by decide)
  exact ⟨cut, chopped_overflows _ cut (by decide) (by decide) (by decide) (by decide) (by decide)⟩

end Rmr
