import BlockCache.Bytes
import BlockCache.Layout

/-!
Where the chunks of a transfer lie. Every chunk lies within its block and within the transfer, at
the place in its file that its place in the transfer stands for. Together they are an exact cover:
one chunk for each block of the range, each byte of the transfer in one of them, and no more than
two of them shorter than a block.
-/

namespace BlockCache

/-- A chunk of a transfer lies within one block, at the offset that its position in the transfer
stands for. -/
theorem mem_chunksFrom {offset position count : Nat} {chunk : Chunk}
    (h : chunk ∈ chunksFrom offset position count) :
    chunk.start + chunk.length ≤ blockSize ∧ 0 < chunk.length ∧ position ≤ chunk.position ∧
      chunk.position + chunk.length ≤ position + count ∧
      chunk.block * blockSize + chunk.start + position = offset + chunk.position := by
  induction offset, position, count using chunksFrom.induct with
  | case1 offset position =>
      rw [chunksFrom_zero] at h
      cases h
  | case2 offset position count hcount hpos ih =>
      rw [chunksFrom_of_pos (Nat.pos_of_ne_zero hcount)] at h
      have hplace := placeInBlock_lt offset
      have hlength : chunkLength offset count ≤ blockSize - placeInBlock offset :=
        Nat.min_le_left _ _
      have hle := chunkLength_le offset count
      rcases List.mem_cons.mp h with rfl | hrest
      · have hoffset := blockOf_mul_add_placeInBlock offset
        dsimp only
        omega
      · have := ih hrest
        omega

/-- The chunks after the first one are in other blocks than it is. -/
theorem blockOf_ne_of_mem_chunksFrom {offset position count j : Nat} {chunk : Chunk}
    (hj : j < chunkLength offset count)
    (h : chunk ∈ chunksFrom (offset + chunkLength offset count) position
      (count - chunkLength offset count)) : blockOf (offset + j) ≠ chunk.block := by
  have hspec := mem_chunksFrom h
  simp only [chunkLength, blockOf, placeInBlock, blockSize] at *
  omega

/-- The chunks up to the edge of a block are followed by those from there on. -/
theorem chunksFrom_add {offset position done : Nat} (hedge : placeInBlock (offset + done) = 0)
    (more : Nat) :
    chunksFrom offset position (done + more) =
      chunksFrom offset position done ++ chunksFrom (offset + done) (position + done) more := by
  induction offset, position, done using chunksFrom.induct with
  | case1 offset position => simp
  | case2 offset position done hdone hpos ih =>
      have hle := chunkLength_le offset done
      have hfirst : chunkLength offset (done + more) = chunkLength offset done := by
        simp only [chunkLength, placeInBlock, blockSize] at hedge ⊢
        omega
      have hrest : done + more - chunkLength offset done =
          done - chunkLength offset done + more := by omega
      have hback : chunkLength offset done + (done - chunkLength offset done) = done := by omega
      have hlater := ih (by rwa [Nat.add_assoc, hback])
      rw [Nat.add_assoc, hback, Nat.add_assoc, hback] at hlater
      rw [chunksFrom_of_pos (Nat.add_pos_left (Nat.pos_of_ne_zero hdone) more), hfirst, hrest,
        hlater, chunksFrom_of_pos (Nat.pos_of_ne_zero hdone), List.cons_append]

theorem mem_chunks {offset count : Nat} {chunk : Chunk} (h : chunk ∈ chunks offset count) :
    chunk.start + chunk.length ≤ blockSize ∧ 0 < chunk.length ∧
      chunk.position + chunk.length ≤ count ∧
      chunk.block * blockSize + chunk.start = offset + chunk.position := by
  have := mem_chunksFrom h
  omega

/-! ### The chunks as a cover -/

/-- Whether a chunk has a byte of the transfer. -/
def Chunk.covers (chunk : Chunk) (i : Nat) : Bool :=
  chunk.position ≤ i && i < chunk.position + chunk.length

theorem Chunk.covers_iff {chunk : Chunk} {i : Nat} :
    chunk.covers i = true ↔ chunk.position ≤ i ∧ i < chunk.position + chunk.length := by
  rw [covers, Bool.and_eq_true, decide_eq_true_iff, decide_eq_true_iff]

/-- A chunk has each of its bytes at the place in its block where the offset of the byte is. -/
theorem place_of_mem_chunks {offset count i : Nat} {chunk : Chunk} (h : chunk ∈ chunks offset count)
    (hcovers : chunk.covers i = true) :
    i < count ∧ chunk.block = blockOf (offset + i) ∧
      chunk.start + (i - chunk.position) = placeInBlock (offset + i) := by
  have hspec := mem_chunks h
  rw [Chunk.covers_iff] at hcovers
  simp only [blockOf, placeInBlock, blockSize] at *
  omega

/-- The first chunk has the bytes of its block at the places up to its end. -/
theorem firstChunk_iff {offset count block p : Nat} (hp : p < blockSize) :
    (block = blockOf offset ∧ placeInBlock offset ≤ p ∧
        p < placeInBlock offset + chunkLength offset count) ↔
      offset ≤ block * blockSize + p ∧
        block * blockSize + p < offset + chunkLength offset count := by
  simp only [chunkLength, blockOf, placeInBlock, blockSize] at *
  omega

/-- The blocks of the chunks are those of the range, in ascending order. -/
theorem map_block_chunksFrom {offset position count : Nat} (hpos : 0 < count) :
    (chunksFrom offset position count).map (·.block) =
      List.range' (blockOf offset) (blockOf (offset + count - 1) - blockOf offset + 1) := by
  induction offset, position, count using chunksFrom.induct with
  | case1 => exact absurd hpos (Nat.lt_irrefl 0)
  | case2 offset position count hcount hlength ih =>
      have hle := chunkLength_le offset count
      rw [chunksFrom_of_pos hpos, List.map_cons, List.range'_succ]
      congr 1
      by_cases hlast : count - chunkLength offset count = 0
      · have hblocks : blockOf (offset + count - 1) - blockOf offset = 0 := by
          simp only [chunkLength, blockOf, placeInBlock, blockSize] at *
          omega
        rw [hlast, chunksFrom_zero, hblocks]
        rfl
      · have hnext : blockOf (offset + chunkLength offset count) = blockOf offset + 1 := by
          simp only [chunkLength, blockOf, placeInBlock, blockSize] at *
          omega
        have hend : offset + chunkLength offset count + (count - chunkLength offset count) - 1 =
            offset + count - 1 := by omega
        have hblocks : blockOf (offset + count - 1) - (blockOf offset + 1) + 1 =
            blockOf (offset + count - 1) - blockOf offset := by
          simp only [chunkLength, blockOf, placeInBlock, blockSize] at *
          omega
        rw [ih (Nat.pos_of_ne_zero hlast), hnext, hend, hblocks]

/-- Each byte of the transfer is in one chunk. -/
theorem countP_covers_chunksFrom (offset position count i : Nat) :
    (chunksFrom offset position count).countP (·.covers i) =
      if position ≤ i ∧ i < position + count then 1 else 0 := by
  induction offset, position, count using chunksFrom.induct with
  | case1 offset position =>
      rw [chunksFrom_zero, List.countP_nil, if_neg (by omega)]
  | case2 offset position count hcount hlength ih =>
      have hle := chunkLength_le offset count
      rw [chunksFrom_of_pos (Nat.pos_of_ne_zero hcount), List.countP_cons, ih]
      simp only [Chunk.covers_iff]
      by_cases hfirst : position ≤ i ∧ i < position + chunkLength offset count
      · rw [if_pos hfirst, if_neg (by omega), if_pos (by omega)]
      · have hrest : (position + chunkLength offset count ≤ i ∧
            i < position + chunkLength offset count + (count - chunkLength offset count)) ↔
            position ≤ i ∧ i < position + count := by omega
        rw [if_neg hfirst, Nat.add_zero]
        simp only [hrest]

/-- A transfer that starts with a block has no chunk that is shorter than one but the last. -/
theorem countP_partial_of_aligned {offset position count : Nat}
    (haligned : placeInBlock offset = 0) :
    (chunksFrom offset position count).countP (·.length < blockSize) ≤ 1 := by
  induction offset, position, count using chunksFrom.induct with
  | case1 offset position => rw [chunksFrom_zero, List.countP_nil]; exact Nat.zero_le 1
  | case2 offset position count hcount hlength ih =>
      rw [chunksFrom_of_pos (Nat.pos_of_ne_zero hcount), List.countP_cons]
      by_cases hwhole : blockSize ≤ count
      · -- the first chunk is a whole block, and what is left starts with a block again
        have hfirst : chunkLength offset count = blockSize := by
          rw [chunkLength, haligned]
          omega
        have hnext : placeInBlock (offset + chunkLength offset count) = 0 := by
          rw [hfirst, placeInBlock, Nat.add_mod_right]
          exact haligned
        rw [if_neg (by rw [decide_eq_true_iff, hfirst]; exact Nat.lt_irrefl _)]
        exact ih hnext
      · have hlast : count - chunkLength offset count = 0 := by
          rw [chunkLength, haligned]
          omega
        rw [hlast, chunksFrom_zero, List.countP_nil, Nat.zero_add]
        split
        · exact Nat.le_refl 1
        · exact Nat.zero_le 1

/-- No more than two chunks are shorter than a block, the first and the last. -/
theorem countP_partial_chunks (offset count : Nat) :
    (chunks offset count).countP (·.length < blockSize) ≤ 2 := by
  rw [chunks]
  cases count with
  | zero => rw [chunksFrom_zero, List.countP_nil]; exact Nat.zero_le 2
  | succ count =>
      rw [chunksFrom_of_pos (Nat.succ_pos count), List.countP_cons]
      by_cases hlast : count + 1 - chunkLength offset (count + 1) = 0
      · rw [hlast, chunksFrom_zero, List.countP_nil]
        split <;> omega
      · have haligned : placeInBlock (offset + chunkLength offset (count + 1)) = 0 := by
          simp only [chunkLength, placeInBlock, blockSize] at *
          omega
        have hrest : (chunksFrom (offset + chunkLength offset (count + 1))
            (0 + chunkLength offset (count + 1))
            (count + 1 - chunkLength offset (count + 1))).countP (·.length < blockSize) ≤ 1 :=
          countP_partial_of_aligned haligned
        split
        · exact Nat.add_le_add_right hrest 1
        · exact Nat.le_succ_of_le hrest

end BlockCache
