import BlockCache.Bytes
import BlockCache.Layout
import BlockCache.Record

/-!
Buffers of a fixed length, which a transfer fills or empties. A block is a buffer of `blockSize`
bytes. Buffers keep their length under every operation: what would fall outside is left out.
-/

namespace BlockCache

/-- A buffer of `n` bytes. -/
structure Buffer (n : Nat) where
  bytes : ByteArray
  size_bytes : bytes.size = n

abbrev Block := Buffer blockSize

namespace Buffer

variable {n : Nat}

attribute [simp] size_bytes

/-- The byte at an index, zero past the end. -/
def byteAt (b : Buffer n) (i : Nat) : UInt8 := Bytes.byteAt b.bytes i

def zero (n : Nat) : Buffer n := ⟨Bytes.zeros n, Bytes.size_zeros n⟩

/-- A byte string as a buffer of its own length. -/
def ofBytes (bytes : ByteArray) : Buffer bytes.size := ⟨bytes, rfl⟩

/-- The first bytes of a buffer, as many as asked for or there are. -/
def first (b : Buffer n) (count : Nat) : Buffer (min count n) :=
  ⟨Bytes.slice b.bytes 0 count, by simp⟩

/-- The buffer with the bytes from `start` on replaced by those of a byte string, as far as they
fall in the buffer. -/
def blit (b : Buffer n) (start : Nat) (bytes : ByteArray) : Buffer n :=
  ⟨bytes.copySlice 0 b.bytes start (n - start), by
    simp only [ByteArray.copySlice_eq_append, ByteArray.size_append, ByteArray.size_extract,
      ByteArray.size_data, size_bytes]
    omega⟩

/-- The buffer with zeros from `start` on. -/
def zeroFrom (b : Buffer n) (start : Nat) : Buffer n :=
  if start < n then b.blit start (Bytes.zeros (n - start)) else b

/-- The buffer with the bytes from `start` on replaced, if all of them fall in it. -/
def patch? (b : Buffer n) (start : Nat) (bytes : ByteArray) : Option (Buffer n) :=
  if start + bytes.size ≤ n then some (b.blit start bytes) else none

/-- The bytes of a range of the buffer, if it lies in it. -/
def slice? (b : Buffer n) (start length : Nat) : Option ByteArray :=
  if start + length ≤ n then some (Bytes.slice b.bytes start length) else none

def text (_ : Buffer n) (address : String) : String :=
  recordText "AlignedBlock" [("addr", address), ("len", toString n)]

/-! ### Bytes of the results -/

theorem byteAt_of_le (b : Buffer n) {i : Nat} (h : n ≤ i) : b.byteAt i = 0 :=
  Bytes.byteAt_of_size_le (by rw [b.size_bytes]; exact h)

@[simp] theorem byteAt_zero (n i : Nat) : (zero n).byteAt i = 0 := Bytes.byteAt_zeros n i

theorem byteAt_blit (b : Buffer n) (start : Nat) (bytes : ByteArray) (i : Nat) :
    (b.blit start bytes).byteAt i =
      if start ≤ i ∧ i < start + bytes.size ∧ i < n then Bytes.byteAt bytes (i - start)
      else b.byteAt i := by
  simp only [blit, byteAt, ByteArray.copySlice_eq_append, Bytes.byteAt_append, Bytes.byteAt_extract,
    ByteArray.size_append, ByteArray.size_extract, ByteArray.size_data, size_bytes, Nat.zero_add,
    Nat.sub_zero]
  by_cases h₁ : i < start
  · by_cases hn : i < n
    · rw [if_pos (by omega), if_pos (by omega), if_pos h₁, if_neg (by omega)]
    · have hz : Bytes.byteAt b.bytes i = 0 := byteAt_of_le b (by omega)
      rw [if_neg (by omega), if_neg (by omega), if_neg (by omega), hz]
  · by_cases h₂ : i < start + bytes.size ∧ i < n
    · rw [if_pos (by omega), if_neg (by omega), if_pos (by omega), if_pos (by omega)]
      congr 1
      omega
    · rw [if_neg (show ¬ (start ≤ i ∧ i < start + bytes.size ∧ i < n) by omega)]
      by_cases hn : i < n
      · rw [if_neg (by omega), if_pos (by omega)]
        congr 1
        omega
      · have hz : Bytes.byteAt b.bytes i = 0 := byteAt_of_le b (by omega)
        rw [if_neg (by omega), if_neg (by omega), hz]

theorem byteAt_zeroFrom (b : Buffer n) (start i : Nat) :
    (b.zeroFrom start).byteAt i = if i < start then b.byteAt i else 0 := by
  unfold zeroFrom
  by_cases hs : start < n
  · rw [if_pos hs, byteAt_blit, Bytes.byteAt_zeros, Bytes.size_zeros]
    by_cases hi : i < start
    · rw [if_neg (by omega), if_pos hi]
    · rw [if_neg hi]
      split
      · rfl
      · exact b.byteAt_of_le (by omega)
  · rw [if_neg hs]
    split
    · rfl
    · exact b.byteAt_of_le (by omega)

/-- Buffers with the same bytes are equal. -/
theorem ext_byteAt {a b : Buffer n} (h : ∀ i, i < n → a.byteAt i = b.byteAt i) : a = b := by
  obtain ⟨x, hx⟩ := a
  obtain ⟨y, hy⟩ := b
  have : x = y := Bytes.ext_byteAt (hx.trans hy.symm) fun i hi => h i (hx ▸ hi)
  subst this
  rfl

end Buffer

end BlockCache
