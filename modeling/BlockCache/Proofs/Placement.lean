import BlockCache.Proofs.Contents
import BlockCache.Proofs.Sizes

/-!
What the writes through a handle do to the blocks of its file, if the file cannot be read. Every
chunk of a write replaces a part of its block. If it is not the whole block, and the block is in no
slot, all other bytes of the block are lost, since they cannot be read in.

Where no byte was lost, this comes to the writes themselves.
-/

namespace BlockCache

/-- The bytes of a file with those of one block zero. -/
def blank (bytes : Nat → UInt8) (block i : Nat) : UInt8 := if blockOf i = block then 0 else bytes i

def Written.apply (bytes : Nat → UInt8) (w : Written) : Nat → UInt8 := patch bytes w.start w.bytes

/-- What a write does to one block. -/
structure Placed where
  block : Nat
  written : Written
  /-- Whether all other bytes of the block are lost. -/
  blanks : Bool

namespace Placed

def apply (bytes : Nat → UInt8) (p : Placed) : Nat → UInt8 :=
  p.written.apply (if p.blanks then blank bytes p.block else bytes)

/-- A byte that a write does not reach stays zero. -/
theorem apply_of_zero {bytes : Nat → UInt8} {p : Placed} {i : Nat} (hi : p.written.stop ≤ i)
    (hzero : bytes i = 0) : p.apply bytes i = 0 := by
  have hout : ¬ (p.written.start ≤ i ∧ i < p.written.start + p.written.bytes.size) := by
    unfold Written.stop at hi
    omega
  rw [apply, Written.apply, patch, if_neg hout]
  split
  · rw [blank, hzero, ite_self]
  · exact hzero

theorem foldl_apply_of_zero {placed : List Placed} {bytes : Nat → UInt8} {i : Nat}
    (hi : ∀ p ∈ placed, p.written.stop ≤ i) (hzero : bytes i = 0) :
    placed.foldl apply bytes i = 0 := by
  induction placed generalizing bytes with
  | nil => exact hzero
  | cons p rest ih =>
      exact ih (fun q hq => hi q (List.mem_cons_of_mem _ hq))
        (apply_of_zero (hi p List.mem_cons_self) hzero)

/-- In a block of which nothing is lost, the bytes are those that were written. -/
theorem foldl_apply_of_kept {placed : List Placed} {bytes bytes' : Nat → UInt8} {i : Nat}
    (hkept : ∀ p ∈ placed, p.blanks = true → p.block ≠ blockOf i) (hsame : bytes i = bytes' i) :
    placed.foldl apply bytes i = (placed.map written).foldl Written.apply bytes' i := by
  induction placed generalizing bytes bytes' with
  | nil => exact hsame
  | cons p rest ih =>
      refine ih (fun q hq => hkept q (List.mem_cons_of_mem _ hq)) ?_
      rw [apply, Written.apply, Written.apply, patch, patch]
      congr 1
      split
      · rename_i hblanks
        rw [blank, if_neg (hkept p List.mem_cons_self hblanks).symm, hsame]
      · exact hsame

end Placed

namespace Cache

variable {σ φ : Type} [Storage σ φ] {c : Cache σ φ} {h : Handle} {f : OpenFile φ}

/-- What a chunk of a byte string writes. -/
def writtenOf (data : ByteArray) (chunk : Chunk) : Written :=
  ⟨chunk.block * blockSize + chunk.start, Bytes.slice data chunk.position chunk.length⟩

/-- What a chunk does to its block. The other bytes of the block are lost if there are any and no
slot holds the block. -/
def placedFor (f : OpenFile φ) (data : ByteArray) (c : Cache σ φ) (chunk : Chunk) : Placed :=
  ⟨chunk.block, writtenOf data chunk,
    decide (chunk.length ≠ blockSize) && !c.pool.holds ⟨f.descriptor, chunk.block⟩⟩

def placedBy (f : OpenFile φ) (data : ByteArray) : List Chunk → Cache σ φ → List Placed
  | [], _ => []
  | chunk :: rest, c =>
      placedFor f data c chunk :: placedBy f data rest (copyIn f data [chunk] c).2

/-- What a request does to the blocks of the file of a handle. -/
def placedIn (h : Handle) (c : Cache σ φ) (request : Request) : List Placed :=
  match writeThrough? h c request, c.table.get? h with
  | some w, some f =>
      placedBy f w.bytes (chunks w.start w.bytes.size)
        { c with table := c.table.modify h (·.moveTo w.start) }
  | _, _ => []

/-- What requests do to the blocks of the file of a handle, one after the other. -/
def placedThrough (h : Handle) : List Request → Cache σ φ → List Placed
  | [], _ => []
  | request :: rest, c => placedIn h c request ++ placedThrough h rest (serve request c).2

/-- Where the cursor is does not matter for what chunks do. -/
theorem placedBy_moveTo (f : OpenFile φ) (offset : Nat) (data : ByteArray) (cs : List Chunk)
    (c : Cache σ φ) : placedBy (f.moveTo offset) data cs c = placedBy f data cs c := by
  induction cs generalizing c with
  | nil => rfl
  | cons chunk rest ih =>
      rw [placedBy, placedBy, ih, copyIn_moveTo]
      rfl

theorem map_written_placedBy (f : OpenFile φ) (data : ByteArray) (cs : List Chunk)
    (c : Cache σ φ) :
    (placedBy f data cs c).map Placed.written = cs.map (writtenOf data) := by
  induction cs generalizing c with
  | nil => rfl
  | cons chunk rest ih =>
      rw [placedBy, List.map_cons, ih]
      rfl

/-- No chunk of a byte string is written past its end. -/
theorem stop_of_mem_placedBy {data : ByteArray} {offset : Nat} {p : Placed}
    (hp : p ∈ placedBy f data (chunks offset data.size) c) :
    p.written.stop ≤ offset + data.size := by
  have hmem : p.written ∈ List.map Placed.written _ := List.mem_map_of_mem hp
  rw [map_written_placedBy] at hmem
  obtain ⟨chunk, hchunk, hwritten⟩ := List.mem_map.mp hmem
  have hspec := mem_chunks hchunk
  rw [← hwritten, writtenOf, Written.stop, Bytes.size_slice]
  dsimp only
  omega

/-- What chunks write is what they store in an image. -/
theorem foldl_writtenOf (h : Handle) (data : ByteArray) (cs : List Chunk) (image : Image) :
    (cs.map (writtenOf data)).foldl Written.apply (image h) =
      (cs.map (storeOf h data)).foldl Action.apply image h := by
  induction cs generalizing image with
  | nil => rfl
  | cons chunk rest ih =>
      rw [List.map_cons, List.map_cons, List.foldl_cons, List.foldl_cons, ← ih, storeOf,
        Action.apply, Function.update_self]
      rfl

/-- Writing all chunks of a byte string writes the byte string. -/
theorem foldl_writtenOf_chunks (data : ByteArray) (offset : Nat) (bytes : Nat → UInt8) :
    ((chunks offset data.size).map (writtenOf data)).foldl Written.apply bytes =
      patch bytes offset data := by
  rw [foldl_writtenOf ⟨0⟩ data _ fun _ => bytes, foldl_storeOf_chunks, Function.update_self]

theorem foldl_placedBy (f : OpenFile φ) (data : ByteArray) (offset : Nat) (c : Cache σ φ)
    (bytes : Nat → UInt8) :
    ((placedBy f data (chunks offset data.size) c).map Placed.written).foldl Written.apply bytes =
      patch bytes offset data := by
  rw [map_written_placedBy, foldl_writtenOf_chunks]

/-- What a request writes through a handle is written to its open file. -/
theorem get?_of_writeThrough? {request : Request} {w : Written}
    (hw : writeThrough? h c request = some w) :
    ∃ f, c.table.get? h = some f ∧ request = .write h w.bytes ∧ w.start = writeStart f := by
  cases request with
  | write h' data =>
      rw [writeThrough?] at hw
      split at hw
      · rename_i f _ hf
        by_cases hh : h' = h
        · rw [if_pos hh] at hw
          obtain rfl := Option.some.inj hw
          exact ⟨f, hh ▸ hf, by rw [hh], rfl⟩
        · rw [if_neg hh] at hw
          cases hw
      · cases hw
  | _ => cases hw

theorem placedIn_of_none {request : Request} (hw : writeThrough? h c request = none) :
    placedIn h c request = [] := by
  rw [placedIn, hw]

/-- What a write writes through a handle, unless it reaches too far. -/
theorem writeThrough?_of_some (hf : c.table.get? h = some f) (data : ByteArray) :
    writeThrough? h c (.write h data) =
      if maxOffset < writeStart f + data.size then none else some ⟨writeStart f, data⟩ := by
  rcases write_of_some hf data with ⟨hfar, hfail, -⟩ | ⟨hnear, hok, -⟩
  · rw [writeThrough?, hfail, if_pos hfar]
  · rw [writeThrough?, hok, hf, if_neg (Nat.not_lt.mpr hnear)]
    exact if_pos rfl

theorem placedIn_of_near (hf : c.table.get? h = some f) {data : ByteArray}
    (hnear : writeStart f + data.size ≤ maxOffset) :
    placedIn h c (.write h data) = placedBy f data (chunks (writeStart f) data.size)
      { c with table := c.table.modify h (·.moveTo (writeStart f)) } := by
  rw [placedIn, writeThrough?_of_some hf, if_neg (Nat.not_lt.mpr hnear), hf]

/-- Nothing is placed past the end of what a request writes. -/
theorem stop_of_mem_placedIn {request : Request} {p : Placed} (hp : p ∈ placedIn h c request) :
    ∃ w, writeThrough? h c request = some w ∧ p.written.stop ≤ w.stop := by
  cases hw : writeThrough? h c request with
  | none =>
      rw [placedIn_of_none hw] at hp
      cases hp
  | some w =>
      obtain ⟨f, hf, -⟩ := get?_of_writeThrough? hw
      rw [placedIn, hw, hf] at hp
      exact ⟨w, rfl, stop_of_mem_placedBy hp⟩

/-- What is written block by block is what is written. -/
theorem foldl_placedThrough (h : Handle) (requests : List Request) (c : Cache σ φ)
    (bytes : Nat → UInt8) :
    ((placedThrough h requests c).map Placed.written).foldl Written.apply bytes =
      (writesThrough h requests c).foldl Written.apply bytes := by
  induction requests generalizing c bytes with
  | nil => rfl
  | cons request rest ih =>
      rw [placedThrough, writesThrough, List.map_append, List.foldl_append, List.foldl_append, ih,
        placedIn]
      congr 1
      cases hw : writeThrough? h c request with
      | none => rfl
      | some w =>
          obtain ⟨f, hf, -⟩ := get?_of_writeThrough? hw
          rw [hf]
          exact foldl_placedBy f w.bytes w.start _ bytes

end Cache

end BlockCache
