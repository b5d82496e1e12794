import Rmr.Lib.CInt

/-! Blocks of memory, checked copies between them, and 32 bit words in either byte order. -/

namespace Rmr

/-- A block of allocated memory.

Bytes past `size` are whatever lies behind the block, so only a checked access may look there. -/
@[ext] structure Block where
  /-- The number of bytes really allocated. -/
  size : Nat
  /-- The byte at each offset. -/
  byte : Nat → UInt8

namespace Block

/-- A block that holds exactly the given bytes. -/
def ofList (bytes : List UInt8) : Block where
  size := bytes.length
  byte := fun i => bytes.getD i 0

/-- The `count` bytes that start at an offset. -/
def slice (block : Block) (start count : Nat) : List UInt8 :=
  (List.range count).map fun i => block.byte (start + i)

/-- The block with `count` bytes from another one laid over it. -/
def overlay (dst : Block) (start : Nat) (src : Block) (origin count : Nat) : Block where
  size := dst.size
  byte := fun i =>
    if start ≤ i ∧ i < start + count then src.byte (origin + (i - start)) else dst.byte i

/-- A `memcpy`, defined only while both ends of it stay inside their blocks. -/
def memcpy (dst : Block) (start : Int) (src : Block) (origin count : Int) :
    Except Fault Block :=
  if 0 ≤ count ∧ 0 ≤ start ∧ start + count ≤ dst.size ∧ 0 ≤ origin ∧ origin + count ≤ src.size
  then .ok (dst.overlay start.toNat src origin.toNat count.toNat)
  else .error .range

/-- A slice is as long as asked for, wherever it is. -/
@[simp] theorem slice_length (block : Block) (start count : Nat) :
    (block.slice start count).length = count := by
  simp [slice]

/-- A slice of no bytes is empty. -/
@[simp] theorem slice_zero (block : Block) (start : Nat) : block.slice start 0 = [] := rfl

/-- A block of bytes is as large as there are bytes. -/
@[simp] theorem ofList_size (bytes : List UInt8) : (ofList bytes).size = bytes.length := rfl

/-- Laying bytes over a block keeps its size. -/
@[simp] theorem overlay_size (dst : Block) (start : Nat) (src : Block) (origin count : Nat) :
    (dst.overlay start src origin count).size = dst.size := rfl

/-- One byte of a slice is the byte of the block at that place. -/
theorem slice_getElem? (block : Block) (start count i : Nat) (within : i < count) :
    (block.slice start count)[i]? = some (block.byte (start + i)) := by
  simp [slice, within]

/-- Two slices agree as soon as the blocks agree on every byte of them. -/
theorem slice_congr {left right : Block} {start other count : Nat}
    (same : ∀ i, i < count → left.byte (start + i) = right.byte (other + i)) :
    left.slice start count = right.slice other count := by
  simp only [slice, List.map_inj_left, List.mem_range]
  exact same

/-- Equal slices agree on each of their bytes. -/
theorem byte_of_slice {left right : Block} {start other count : Nat}
    (same : left.slice start count = right.slice other count) {i : Nat} (within : i < count) :
    left.byte (start + i) = right.byte (other + i) := by
  -- Both sides are the byte at the same place of the equal slices.
  have byte := congrArg (fun bytes => bytes[i]?) same
  simp only [slice_getElem? _ _ _ _ within] at byte
  exact Option.some.inj byte

/-- A slice is its first part followed by the rest. -/
theorem slice_add (block : Block) (start first rest : Nat) :
    block.slice start (first + rest) =
      block.slice start first ++ block.slice (start + first) rest := by
  simp [slice, List.range_add, Nat.add_assoc, Function.comp_def]

/-- A part of a slice is the slice of that part. -/
theorem slice_drop_take (block : Block) (start count skip part : Nat)
    (within : skip + part ≤ count) :
    ((block.slice start count).drop skip).take part = block.slice (start + skip) part := by
  -- The slice falls into what is skipped, the part, and what is behind it.
  obtain ⟨rest, rfl⟩ := Nat.exists_eq_add_of_le within
  rw [slice_add, slice_add, List.append_assoc, List.drop_append_of_le_length (by simp),
    List.drop_of_length_le (by simp), List.nil_append, List.take_append_of_le_length (by simp),
    List.take_of_length_le (by simp)]

/-- The first part of a slice is the shorter slice. -/
theorem slice_take (block : Block) (start count part : Nat) (within : part ≤ count) :
    (block.slice start count).take part = block.slice start part := by
  simpa using slice_drop_take block start count 0 part (by omega)

/-- Slicing a block made of bytes reads those bytes. -/
theorem ofList_slice (bytes : List UInt8) (start count : Nat)
    (within : start + count ≤ bytes.length) :
    (ofList bytes).slice start count = (bytes.drop start).take count := by
  -- Both lists are as long, and agree at each index inside the bytes.
  apply List.ext_getElem
  · simp only [slice_length, List.length_take, List.length_drop]
    omega
  · intro i low _
    have inside : start + i < bytes.length := by
      simp only [slice_length] at low
      omega
    simp [slice, ofList, inside]

/-- The bytes just copied are those of the source. -/
theorem overlay_slice_inside (dst : Block) (start : Nat) (src : Block) (origin count : Nat) :
    (dst.overlay start src origin count).slice start count = src.slice origin count := by
  apply slice_congr
  intro i within
  have inside : start ≤ start + i ∧ start + i < start + count := by omega
  simp [overlay, inside]

/-- A part of the copied range reads the matching part of the source. -/
theorem overlay_slice_part (dst : Block) (start : Nat) (src : Block) (origin count : Nat)
    (skip part : Nat) (within : skip + part ≤ count) :
    (dst.overlay start src origin count).slice (start + skip) part =
      src.slice (origin + skip) part := by
  apply slice_congr
  intro i below
  have inside : start ≤ start + skip + i ∧ start + skip + i < start + count := by omega
  have offset : origin + (start + skip + i - start) = origin + skip + i := by omega
  simp [overlay, inside, offset]

/-- A range that the copy does not touch keeps its bytes. -/
theorem overlay_slice_outside (dst : Block) (start : Nat) (src : Block) (origin count : Nat)
    {other part : Nat} (apart : other + part ≤ start ∨ start + count ≤ other) :
    (dst.overlay start src origin count).slice other part = dst.slice other part := by
  -- A byte outside the copied range is taken from the old block.
  apply slice_congr
  intro i below
  have outside : ¬ (start ≤ other + i ∧ other + i < start + count) := by omega
  simp [overlay, outside]

/-- A copy inside both blocks succeeds with the source bytes laid over the destination. -/
theorem memcpy_ok (dst : Block) (start : Nat) (src : Block) (origin count : Nat)
    (room : start + count ≤ dst.size) (held : origin + count ≤ src.size) :
    dst.memcpy start src origin count = .ok (dst.overlay start src origin count) := by
  have inside : (0 : Int) ≤ (count : Int) ∧ (0 : Int) ≤ (start : Int) ∧
      (start : Int) + count ≤ dst.size ∧ (0 : Int) ≤ (origin : Int) ∧
      (origin : Int) + count ≤ src.size := by omega
  simp [memcpy, inside]

/-- A copy that succeeds stayed inside both blocks. -/
theorem memcpy_inside {dst src out : Block} {start origin count : Int}
    (copied : dst.memcpy start src origin count = .ok out) :
    (0 ≤ count ∧ 0 ≤ start ∧ start + count ≤ dst.size ∧ 0 ≤ origin ∧
      origin + count ≤ src.size) ∧
      out = dst.overlay start.toNat src origin.toNat count.toNat := by
  unfold memcpy at copied
  split at copied
  · exact ⟨by assumption, (Except.ok.inj copied).symm⟩
  · cases copied

/-- A copy outside one of its blocks is a fault. -/
theorem memcpy_range {dst src : Block} {start origin count : Int}
    (outside : ¬ (0 ≤ count ∧ 0 ≤ start ∧ start + count ≤ dst.size ∧ 0 ≤ origin ∧
      origin + count ≤ src.size)) :
    dst.memcpy start src origin count = .error .range := by
  simp only [memcpy, if_neg outside]

end Block

/-- The two orders a host may store the bytes of a word in. -/
inductive ByteOrder where
  | little
  | big
  deriving DecidableEq, Repr

/-- The number whose bytes, least significant first, are the given ones. -/
def wordLe : List UInt8 → Nat
  | [] => 0
  | byte :: rest => byte.toNat + 256 * wordLe rest

/-- The four bytes of a word, least significant first. -/
def bytesLe (word : Nat) : List UInt8 :=
  [UInt8.ofNat word, UInt8.ofNat (word / 256), UInt8.ofNat (word / 65536),
    UInt8.ofNat (word / 16777216)]

/-- The word a host reads from its bytes in memory. -/
def word32 : ByteOrder → List UInt8 → Nat
  | .little, bytes => wordLe bytes
  | .big, bytes => wordLe bytes.reverse

/-- The bytes a host stores a word as. -/
def bytes32 : ByteOrder → Nat → List UInt8
  | .little, word => bytesLe word
  | .big, word => (bytesLe word).reverse

/-- Network to host order: the bytes of the stored word read as a big endian number. -/
def ntohl (order : ByteOrder) (word : Nat) : Nat := word32 .big (bytes32 order word)

/-- Host to network order: the word whose stored bytes are the big endian ones. -/
def htonl (order : ByteOrder) (word : Nat) : Nat := word32 order (bytes32 .big word)

/-- A word has four bytes. -/
@[simp] theorem bytes32_length (order : ByteOrder) (word : Nat) :
    (bytes32 order word).length = 4 := by
  cases order <;> simp [bytes32, bytesLe]

/-- Four bytes make a number below `2^32`. -/
theorem wordLe_lt {bytes : List UInt8} (four : bytes.length = 4) :
    wordLe bytes < 4294967296 := by
  -- Each of the four bytes is below 256, which bounds the sum of their weights.
  match bytes, four with
  | [a, b, c, d], _ =>
    simp only [wordLe]
    have := a.toNat_lt
    have := b.toNat_lt
    have := c.toNat_lt
    have := d.toNat_lt
    omega

/-- A word read from memory is below `2^32`. -/
theorem word32_lt (order : ByteOrder) {bytes : List UInt8} (four : bytes.length = 4) :
    word32 order bytes < 4294967296 := by
  -- Either order reads four bytes as a word; big endian reads them from the other end.
  cases order
  · exact wordLe_lt four
  · exact wordLe_lt (by simpa using four)

/-- Storing a number and reading it back gives the number. -/
theorem wordLe_bytesLe {word : Nat} (small : word < 4294967296) :
    wordLe (bytesLe word) = word := by
  simp only [bytesLe, wordLe, UInt8.toNat_ofNat']
  omega

/-- Reading four bytes and storing the number gives the bytes back. -/
theorem bytesLe_wordLe (bytes : List UInt8) (four : bytes.length = 4) :
    bytesLe (wordLe bytes) = bytes := by
  -- Byte by byte: dividing by the weight and cutting to a byte gives that byte back.
  match bytes, four with
  | [a, b, c, d], _ =>
    have := a.toNat_lt
    have := b.toNat_lt
    have := c.toNat_lt
    have := d.toNat_lt
    simp only [bytesLe, wordLe, List.cons.injEq, and_true]
    refine ⟨?_, ?_, ?_, ?_⟩ <;>
    · apply UInt8.toNat.inj
      rw [UInt8.toNat_ofNat']
      omega

/-- A stored word reads back as itself on the host that stored it. -/
theorem word32_bytes32 (order : ByteOrder) {word : Nat} (small : word < 4294967296) :
    word32 order (bytes32 order word) = word := by
  -- Big endian stores and reads the same bytes from the other end.
  cases order
  · exact wordLe_bytesLe small
  · simp [word32, bytes32, wordLe_bytesLe small]

/-- The bytes of a word read from memory are the bytes it was read from. -/
theorem bytes32_word32 (order : ByteOrder) {bytes : List UInt8} (four : bytes.length = 4) :
    bytes32 order (word32 order bytes) = bytes := by
  cases order
  · exact bytesLe_wordLe bytes four
  · simp [word32, bytes32, bytesLe_wordLe bytes.reverse (by simpa using four)]

/-- Converting a word read from memory is reading its bytes in network order. -/
theorem ntohl_word32 (order : ByteOrder) {bytes : List UInt8} (four : bytes.length = 4) :
    ntohl order (word32 order bytes) = word32 .big bytes := by
  rw [ntohl, bytes32_word32 order four]

/-- The stored bytes of a converted word are the number's big endian bytes. -/
theorem bytes32_htonl (order : ByteOrder) (word : Nat) :
    bytes32 order (htonl order word) = bytes32 .big word := by
  rw [htonl, bytes32_word32 order (bytes32_length _ _)]

namespace Block

/-- The word at an offset, as the host reads it. -/
def get32 (order : ByteOrder) (block : Block) (at_ : Nat) : Nat :=
  word32 order (block.slice at_ 4)

/-- The block with a word stored at an offset. -/
def put32 (order : ByteOrder) (block : Block) (at_ : Nat) (word : Nat) : Block :=
  block.overlay at_ (ofList (bytes32 order word)) 0 4

/-- A word of the block, converted from network order. -/
def net32 (order : ByteOrder) (block : Block) (at_ : Nat) : Nat :=
  ntohl order (block.get32 order at_)

/-- The block with a number stored at an offset in network order. -/
def setNet32 (order : ByteOrder) (block : Block) (at_ : Nat) (word : Nat) : Block :=
  block.put32 order at_ (htonl order word)

/-- Putting a word into a block keeps its size. -/
@[simp] theorem put32_size (order : ByteOrder) (block : Block) (at_ word : Nat) :
    (block.put32 order at_ word).size = block.size := rfl

/-- So does putting one in in network order. -/
@[simp] theorem setNet32_size (order : ByteOrder) (block : Block) (at_ word : Nat) :
    (block.setNet32 order at_ word).size = block.size := rfl

/-- A converted word depends only on its four bytes, and not on the host. -/
theorem net32_eq (order : ByteOrder) (block : Block) (at_ : Nat) :
    block.net32 order at_ = word32 .big (block.slice at_ 4) := by
  rw [net32, get32, ntohl_word32 order (slice_length _ _ _)]

/-- What is read in network order is a word. -/
theorem net32_lt (order : ByteOrder) (block : Block) (at_ : Nat) :
    block.net32 order at_ < 4294967296 := by
  rw [net32_eq]
  exact word32_lt _ (slice_length _ _ _)

/-- So is what is read as the host has it. -/
theorem get32_lt (order : ByteOrder) (block : Block) (at_ : Nat) :
    block.get32 order at_ < 4294967296 :=
  word32_lt _ (slice_length _ _ _)

/-- A stored word occupies its four bytes. -/
theorem put32_slice (order : ByteOrder) (block : Block) (at_ word : Nat) :
    (block.put32 order at_ word).slice at_ 4 = bytes32 order word := by
  rw [put32, overlay_slice_inside, ofList_slice _ _ _ (by simp)]
  simp

/-- Storing a word leaves every other byte alone. -/
theorem put32_slice_outside (order : ByteOrder) (block : Block) (at_ word : Nat)
    {other part : Nat} (apart : other + part ≤ at_ ∨ at_ + 4 ≤ other) :
    (block.put32 order at_ word).slice other part = block.slice other part :=
  overlay_slice_outside _ _ _ _ _ apart

/-- A number stored in network order reads back as itself. -/
theorem net32_setNet32 (order : ByteOrder) (block : Block) (at_ : Nat) {word : Nat}
    (small : word < 4294967296) : (block.setNet32 order at_ word).net32 order at_ = word := by
  rw [net32_eq, setNet32, put32_slice, bytes32_htonl, word32_bytes32 _ small]

/-- A number stored in network order leaves every other byte alone. -/
theorem setNet32_slice_outside (order : ByteOrder) (block : Block) (at_ word : Nat)
    {other part : Nat} (apart : other + part ≤ at_ ∨ at_ + 4 ≤ other) :
    (block.setNet32 order at_ word).slice other part = block.slice other part :=
  put32_slice_outside _ _ _ _ apart

end Block

end Rmr
