import BlockCache.Proofs.Placement

/-!
What requests do to the bytes that a cache has for a file which it cannot write back. What is
written through a handle stays in the pool as long as its block does. A block that is asked for and
is in no slot has its stored bytes again, and all that was written to it is forgotten.

So each byte is the stored one, or the one that was last written to its place.
-/

namespace BlockCache

/-- A change of the bytes that a cache has for a file. -/
inductive Change where
  /-- All that was written to a block is forgotten. -/
  | forget (block : Nat)
  | write (w : Written)

namespace Change

/-- The bytes of a file with those of one block as they are stored. -/
def restore (stored bytes : Nat → UInt8) (block i : Nat) : UInt8 :=
  if blockOf i = block then stored i else bytes i

def apply (stored bytes : Nat → UInt8) : Change → Nat → UInt8
  | .forget block => restore stored bytes block
  | .write w => w.apply bytes

def written? : Change → Option Written
  | .forget _ => none
  | .write w => some w

/-- A byte is the stored one, or the one that it would be if nothing were forgotten. -/
theorem foldl_apply_cases {stored bytes bytes' : Nat → UInt8} {i : Nat} (changes : List Change)
    (hbytes : bytes i = stored i ∨ bytes i = bytes' i) :
    changes.foldl (apply stored) bytes i = stored i ∨
      changes.foldl (apply stored) bytes i =
        (changes.filterMap written?).foldl Written.apply bytes' i := by
  induction changes generalizing bytes bytes' with
  | nil => exact hbytes
  | cons change rest ih =>
      cases change with
      | forget block =>
          refine ih ?_
          rw [apply, restore]
          split
          · exact Or.inl rfl
          · exact hbytes
      | write w =>
          refine @ih _ (w.apply bytes') ?_
          rw [apply, Written.apply, Written.apply, patch, patch]
          split
          · exact Or.inr rfl
          · exact hbytes

end Change

/-- A byte that no write covers stays. -/
theorem Written.foldl_apply_of_outside {writes : List Written} {bytes : Nat → UInt8} {i : Nat}
    (hout : ∀ w ∈ writes, i < w.start ∨ w.stop ≤ i) :
    writes.foldl Written.apply bytes i = bytes i := by
  induction writes generalizing bytes with
  | nil => rfl
  | cons w rest ih =>
      have hw := hout w List.mem_cons_self
      rw [Written.stop] at hw
      rw [List.foldl_cons, ih fun w' hw' => hout w' (List.mem_cons_of_mem _ hw'), Written.apply,
        patch, if_neg (by omega)]

namespace Cache

variable {σ φ : Type} {c : Cache σ φ} {h : Handle} {f : OpenFile φ} {stored bytes : Nat → UInt8}

/-- What asking for a block changes. -/
def changesFor (c : Cache σ φ) (key : BlockId) : List Change :=
  if c.pool.holds key then [] else [.forget key.index]

theorem foldl_changesFor_of_other {key : BlockId} {i : Nat} (hother : blockOf i ≠ key.index) :
    (changesFor c key).foldl (Change.apply stored) bytes i = bytes i := by
  rw [changesFor]
  split
  · rfl
  · exact if_neg hother

theorem written_changesFor (c : Cache σ φ) (key : BlockId) :
    (changesFor c key).filterMap Change.written? = [] := by
  rw [changesFor]
  split <;> rfl

variable [Storage σ φ]

def changesOut (f : OpenFile φ) : List Chunk → Cache σ φ → List Change
  | [], _ => []
  | chunk :: rest, c =>
      changesFor c ⟨f.descriptor, chunk.block⟩ ++ changesOut f rest (slotToRead f chunk.block c).2

def changesIn (f : OpenFile φ) (data : ByteArray) : List Chunk → Cache σ φ → List Change
  | [], _ => []
  | chunk :: rest, c =>
      changesFor c ⟨f.descriptor, chunk.block⟩ ++ [.write (writtenOf data chunk)] ++
        changesIn f data rest (copyIn f data [chunk] c).2

/-- What a request changes of the file of a handle. -/
def changesOf (h : Handle) (c : Cache σ φ) : Request → List Change
  | .read h' buffer =>
      match c.table.get? h' with
      | some f => if h' = h then changesOut f (readChunks f buffer.size) c else []
      | none => []
  | .write h' data =>
      match writeThrough? h c (.write h' data), c.table.get? h' with
      | some w, some f =>
          changesIn f data (chunks w.start data.size)
            { c with table := c.table.modify h' (·.moveTo w.start) }
      | _, _ => []
  | _ => []

/-- What requests change of the file of a handle, one after the other. -/
def changesThrough (h : Handle) : List Request → Cache σ φ → List Change
  | [], _ => []
  | request :: rest, c => changesOf h c request ++ changesThrough h rest (serve request c).2

theorem changesOut_of_ok {c' : Cache σ φ} {i : Nat} (chunk : Chunk) {rest : List Chunk}
    (hslot : slotToRead f chunk.block c = (.ok i, c')) :
    changesOut f (chunk :: rest) c =
      changesFor c ⟨f.descriptor, chunk.block⟩ ++ changesOut f rest c' := by
  rw [changesOut, hslot]

/-- Reading chunks changes no bytes of other blocks. -/
theorem foldl_changesOut_of_other {cs : List Chunk} {i : Nat}
    (hother : ∀ chunk ∈ cs, blockOf i ≠ chunk.block) :
    (changesOut f cs c).foldl (Change.apply stored) bytes i = bytes i := by
  induction cs generalizing c bytes with
  | nil => rfl
  | cons chunk rest ih =>
      rw [changesOut, List.foldl_append,
        ih fun chunk' hmem => hother chunk' (List.mem_cons_of_mem _ hmem)]
      exact foldl_changesFor_of_other (hother chunk List.mem_cons_self)

theorem written_changesOut (f : OpenFile φ) (cs : List Chunk) (c : Cache σ φ) :
    (changesOut f cs c).filterMap Change.written? = [] := by
  induction cs generalizing c with
  | nil => rfl
  | cons chunk rest ih => rw [changesOut, List.filterMap_append, ih, written_changesFor]; rfl

theorem written_changesIn (f : OpenFile φ) (data : ByteArray) (cs : List Chunk) (c : Cache σ φ) :
    (changesIn f data cs c).filterMap Change.written? = cs.map (writtenOf data) := by
  induction cs generalizing c with
  | nil => rfl
  | cons chunk rest ih =>
      rw [changesIn, List.filterMap_append, List.filterMap_append, ih, written_changesFor]
      rfl

/-- Where the cursor is does not matter for what writing chunks changes. -/
theorem changesIn_moveTo (f : OpenFile φ) (offset : Nat) (data : ByteArray) (cs : List Chunk)
    (c : Cache σ φ) : changesIn (f.moveTo offset) data cs c = changesIn f data cs c := by
  induction cs generalizing c with
  | nil => rfl
  | cons chunk rest ih =>
      rw [changesIn, changesIn, ih, copyIn_moveTo]
      rfl

/-- A request that neither reads nor writes through a handle changes nothing of its file. -/
theorem changesOf_of_other {request : Request} (hread : ∀ buffer, request ≠ .read h buffer)
    (hwrite : ∀ data, request ≠ .write h data) : changesOf h c request = [] := by
  cases request with
  | read h' buffer =>
      rw [changesOf]
      split
      · exact if_neg fun hh : h' = h => hread buffer (by rw [hh])
      · rfl
  | write h' data =>
      rw [changesOf]
      cases hw : writeThrough? h c (.write h' data) with
      | none => rfl
      | some w =>
          obtain ⟨f, -, heq, -⟩ := get?_of_writeThrough? hw
          exact absurd heq (hwrite _)
  | _ => rfl

theorem changesOf_of_near (hf : c.table.get? h = some f) {data : ByteArray}
    (hnear : writeStart f + data.size ≤ maxOffset) :
    changesOf h c (.write h data) = changesIn f data (chunks (writeStart f) data.size)
      { c with table := c.table.modify h (·.moveTo (writeStart f)) } := by
  rw [changesOf, writeThrough?_of_some hf, if_neg (Nat.not_lt.mpr hnear), hf]

/-- Where nothing is forgotten, the bytes change by what a request writes. -/
theorem foldl_changesOf (h : Handle) (c : Cache σ φ) (request : Request) (bytes : Nat → UInt8) :
    ((changesOf h c request).filterMap Change.written?).foldl Written.apply bytes =
      (writeThrough? h c request).toList.foldl Written.apply bytes := by
  cases request with
  | read h' buffer =>
      rw [show writeThrough? h c (.read h' buffer) = none from rfl, changesOf]
      split
      · split
        · rw [written_changesOut]
          rfl
        · rfl
      · rfl
  | write h' data =>
      rw [changesOf]
      cases hw : writeThrough? h c (.write h' data) with
      | none => rfl
      | some w =>
          obtain ⟨f, hf, hrequest, -⟩ := get?_of_writeThrough? hw
          obtain ⟨rfl, rfl⟩ := Request.write.inj hrequest
          rw [hf]
          dsimp only
          rw [written_changesIn, foldl_writtenOf_chunks]
          rfl
  | _ => rfl

/-- What is written chunk by chunk is what is written. -/
theorem foldl_changesThrough (h : Handle) (requests : List Request) (c : Cache σ φ)
    (bytes : Nat → UInt8) :
    ((changesThrough h requests c).filterMap Change.written?).foldl Written.apply bytes =
      (writesThrough h requests c).foldl Written.apply bytes := by
  induction requests generalizing c bytes with
  | nil => rfl
  | cons request rest ih =>
      rw [changesThrough, writesThrough, List.filterMap_append, List.foldl_append,
        List.foldl_append,
        foldl_changesOf, ih]

theorem changesThrough_append (h : Handle) (requests requests' : List Request) (c : Cache σ φ) :
    changesThrough h (requests ++ requests') c =
      changesThrough h requests c ++ changesThrough h requests' (session requests c).2 := by
  induction requests generalizing c with
  | nil => rfl
  | cons request rest ih =>
      rw [List.cons_append, changesThrough, changesThrough, ih, List.append_assoc, session_cons]

/-- What a last read changes comes after all the rest. -/
theorem foldl_changesThrough_read {requests : List Request}
    (hf : (session requests c).2.table.get? h = some f) {n : Nat} (buffer : Buffer n) :
    (changesThrough h (requests ++ [.read h buffer.bytes]) c).foldl (Change.apply stored) bytes =
      (changesOut f (readChunks f n) (session requests c).2).foldl (Change.apply stored)
        ((changesThrough h requests c).foldl (Change.apply stored) bytes) := by
  rw [changesThrough_append, List.foldl_append, changesThrough, changesThrough, List.append_nil,
    changesOf, hf, buffer.size_bytes]
  exact congrArg (List.foldl _ _) (if_pos rfl)

/-- A byte is the stored one, or what it would be if nothing had been forgotten. -/
theorem foldl_changesThrough_cases (h : Handle) (requests : List Request) (c : Cache σ φ)
    (stored : Nat → UInt8) (i : Nat) :
    (changesThrough h requests c).foldl (Change.apply stored) stored i = stored i ∨
      (changesThrough h requests c).foldl (Change.apply stored) stored i =
        (writesThrough h requests c).foldl Written.apply stored i := by
  rw [← foldl_changesThrough]
  exact Change.foldl_apply_cases _ (Or.inl rfl)

end Cache

end BlockCache
