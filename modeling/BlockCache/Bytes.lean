/-!
Byte strings of any length. Every operation is described by its size and by `byteAt`, the byte at an
index, which is zero past the end.
-/

namespace BlockCache.Bytes

/-- The byte at an index, zero past the end. -/
def byteAt (bytes : ByteArray) (i : Nat) : UInt8 := bytes.data[i]?.getD 0

def zeros (n : Nat) : ByteArray := ⟨Array.replicate n 0⟩

/-- The bytes from `start` on, `length` of them or as many as there are. -/
def slice (bytes : ByteArray) (start length : Nat) : ByteArray :=
  bytes.extract start (start + length)

/-- The bytes lengthened with zeros to at least a given size. -/
def padTo (bytes : ByteArray) (size : Nat) : ByteArray :=
  if bytes.size < size then bytes ++ zeros (size - bytes.size) else bytes

/-- The bytes cut or lengthened with zeros to a given size. -/
def resize (bytes : ByteArray) (size : Nat) : ByteArray :=
  if size < bytes.size then bytes.extract 0 size else padTo bytes size

/-- The bytes with those from `start` on replaced by a patch, lengthened where the patch reaches
beyond them; a gap before the patch is zero. -/
def overlay (bytes : ByteArray) (start : Nat) (patch : ByteArray) : ByteArray :=
  patch.copySlice 0 (padTo bytes start) start patch.size

/-! ### Sizes -/

@[simp] theorem size_zeros (n : Nat) : (zeros n).size = n := by
  simp [zeros, ByteArray.size]

@[simp] theorem size_slice (bytes : ByteArray) (start length : Nat) :
    (slice bytes start length).size = min length (bytes.size - start) := by
  simp only [slice, ByteArray.size_extract]
  omega

@[simp] theorem size_padTo (bytes : ByteArray) (size : Nat) :
    (padTo bytes size).size = max bytes.size size := by
  unfold padTo
  split
  · simp only [ByteArray.size_append, size_zeros]
    omega
  · omega

@[simp] theorem size_resize (bytes : ByteArray) (size : Nat) : (resize bytes size).size = size := by
  unfold resize
  split
  · simp only [ByteArray.size_extract]
    omega
  · rw [size_padTo]
    omega

@[simp] theorem size_overlay (bytes : ByteArray) (start : Nat) (patch : ByteArray) :
    (overlay bytes start patch).size = max bytes.size (start + patch.size) := by
  simp only [overlay, ByteArray.copySlice_eq_append, ByteArray.size_append, ByteArray.size_extract,
    size_padTo, ByteArray.size_data]
  omega

/-! ### Bytes -/

theorem byteAt_of_size_le {bytes : ByteArray} {i : Nat} (h : bytes.size ≤ i) :
    byteAt bytes i = 0 := by
  have h' : bytes.data.size ≤ i := h
  simp [byteAt, Array.getElem?_eq_none h']

@[simp] theorem byteAt_empty (i : Nat) : byteAt ByteArray.empty i = 0 := by
  simp [byteAt]

@[simp] theorem byteAt_zeros (n i : Nat) : byteAt (zeros n) i = 0 := by
  simp only [byteAt, zeros, Array.getElem?_replicate]
  split <;> rfl

theorem byteAt_append (a b : ByteArray) (i : Nat) :
    byteAt (a ++ b) i = if i < a.size then byteAt a i else byteAt b (i - a.size) := by
  simp only [byteAt, ByteArray.data_append, Array.getElem?_append, ByteArray.size_data]
  split <;> rfl

theorem byteAt_extract (bytes : ByteArray) (start stop i : Nat) :
    byteAt (bytes.extract start stop) i =
      if start + i < stop then byteAt bytes (start + i) else 0 := by
  simp only [byteAt, ByteArray.data_extract, Array.getElem?_extract, ByteArray.size_data]
  by_cases h : i < min stop bytes.size - start
  · rw [if_pos h, if_pos (by omega)]
  · rw [if_neg h]
    split
    · have h' : bytes.data.size ≤ start + i := by
        rw [ByteArray.size_data]
        omega
      rw [Array.getElem?_eq_none h']
    · rfl

theorem byteAt_slice (bytes : ByteArray) (start length i : Nat) :
    byteAt (slice bytes start length) i = if i < length then byteAt bytes (start + i) else 0 := by
  rw [slice, byteAt_extract]
  by_cases h : i < length
  · rw [if_pos h, if_pos (by omega)]
  · rw [if_neg h, if_neg (by omega)]

@[simp] theorem byteAt_padTo (bytes : ByteArray) (size i : Nat) :
    byteAt (padTo bytes size) i = byteAt bytes i := by
  unfold padTo
  split
  · rw [byteAt_append]
    split
    · rfl
    · rw [byteAt_zeros, byteAt_of_size_le (by omega)]
  · rfl

theorem byteAt_resize (bytes : ByteArray) (size i : Nat) :
    byteAt (resize bytes size) i = if i < size then byteAt bytes i else 0 := by
  unfold resize
  split
  · rw [byteAt_extract, Nat.zero_add]
  · rw [byteAt_padTo]
    split
    · rfl
    · exact byteAt_of_size_le (by omega)

theorem byteAt_overlay (bytes : ByteArray) (start : Nat) (patch : ByteArray) (i : Nat) :
    byteAt (overlay bytes start patch) i =
      if start ≤ i ∧ i < start + patch.size then byteAt patch (i - start) else byteAt bytes i := by
  have hpad : start ≤ (padTo bytes start).size := by
    rw [size_padTo]
    omega
  simp only [overlay, ByteArray.copySlice_eq_append, byteAt_append, byteAt_extract,
    ByteArray.size_append, ByteArray.size_extract, ByteArray.size_data, byteAt_padTo, Nat.zero_add,
    Nat.sub_zero, Nat.min_self]
  rw [Nat.min_eq_left hpad]
  by_cases h₁ : i < start
  · rw [if_pos (by omega), if_pos h₁, if_pos h₁, if_neg (by omega)]
  · by_cases h₂ : i < start + patch.size
    · rw [if_pos h₂, if_neg h₁, if_pos (by omega), if_pos (by omega)]
    · rw [if_neg h₂, if_neg (show ¬ (start ≤ i ∧ i < start + patch.size) by omega)]
      by_cases h₃ : i < (padTo bytes start).size
      · rw [if_pos (by omega)]
        congr 1
        omega
      · rw [if_neg (by omega)]
        rw [size_padTo] at h₃
        exact (byteAt_of_size_le (by omega)).symm

/-- Byte strings of one size with the same bytes are equal. -/
theorem ext_byteAt {a b : ByteArray} (hsize : a.size = b.size)
    (h : ∀ i, i < a.size → byteAt a i = byteAt b i) : a = b := by
  apply ByteArray.ext_getElem hsize
  intro i hi hi'
  have hi₁ : i < a.data.size := hi
  have hi₂ : i < b.data.size := hi'
  have := h i hi
  simpa [byteAt, Array.getElem?_eq_getElem hi₁, Array.getElem?_eq_getElem hi₂,
    ByteArray.getElem_eq_getElem_data] using this

end BlockCache.Bytes
