/-!
How bytes lie in blocks. A file is a row of blocks of `blockSize` bytes; a transfer of bytes is cut
into chunks, one for each block it touches, in ascending order. The limits of the cache stand here
too, since every module agrees on them.
-/

namespace BlockCache

/-- The number of bytes in a block. -/
def blockSize : Nat := 4096

/-- The number of slots of a cache that is created without a capacity of its own. -/
def defaultCapacity : Nat := 1024

/-- The number of files that can be open at a time. -/
def maxHandles : Nat := 128

/-- The largest offset a cursor can be moved to or a write can end at, the top of a signed 64-bit
word. -/
def maxOffset : Nat := 0x7fffffffffffffff

/-- The number of words, which have 64 bits. The offsets and sizes that can be told are below it. -/
def wordBound : Nat := 0x10000000000000000

/-- The block an offset falls in. -/
def blockOf (offset : Nat) : Nat := offset / blockSize

/-- The place of an offset within its block. -/
def placeInBlock (offset : Nat) : Nat := offset % blockSize

theorem blockSize_pos : 0 < blockSize := by decide

theorem placeInBlock_lt (offset : Nat) : placeInBlock offset < blockSize :=
  Nat.mod_lt _ blockSize_pos

/-- A block and a place within it name one offset. -/
theorem blockOf_mul_add_placeInBlock (offset : Nat) :
    blockOf offset * blockSize + placeInBlock offset = offset := by
  rw [blockOf, placeInBlock, Nat.mul_comm]
  exact Nat.div_add_mod offset blockSize

/-! ### Chunks of a transfer -/

/-- The part of a transfer that falls in one block: `length` bytes from `start` within the block,
which are the bytes from `position` on within the transfer. -/
structure Chunk where
  block : Nat
  start : Nat
  position : Nat
  length : Nat
  deriving DecidableEq, Repr

/-- The length of the first chunk of a transfer of `count` bytes at `offset`. -/
def chunkLength (offset count : Nat) : Nat := min (blockSize - placeInBlock offset) count

theorem chunkLength_pos {offset count : Nat} (h : 0 < count) : 0 < chunkLength offset count := by
  have := placeInBlock_lt offset
  unfold chunkLength
  omega

theorem chunkLength_le (offset count : Nat) : chunkLength offset count ≤ count :=
  Nat.min_le_right _ _

/-- The chunks of the `count` bytes at `offset`, the first of which stands at `position` within the
transfer. -/
def chunksFrom (offset position count : Nat) : List Chunk :=
  if h : count = 0 then []
  else
    have : 0 < chunkLength offset count := chunkLength_pos (Nat.pos_of_ne_zero h)
    ⟨blockOf offset, placeInBlock offset, position, chunkLength offset count⟩ ::
      chunksFrom (offset + chunkLength offset count) (position + chunkLength offset count)
        (count - chunkLength offset count)
termination_by count

/-- The chunks of a transfer of `count` bytes at `offset`, in ascending order of blocks. -/
def chunks (offset count : Nat) : List Chunk := chunksFrom offset 0 count

@[simp] theorem chunksFrom_zero (offset position : Nat) : chunksFrom offset position 0 = [] := by
  rw [chunksFrom, dif_pos rfl]

theorem chunksFrom_of_pos {offset position count : Nat} (h : 0 < count) :
    chunksFrom offset position count =
      ⟨blockOf offset, placeInBlock offset, position, chunkLength offset count⟩ ::
        chunksFrom (offset + chunkLength offset count) (position + chunkLength offset count)
          (count - chunkLength offset count) := by
  rw [chunksFrom, dif_neg (Nat.ne_of_gt h)]

end BlockCache
