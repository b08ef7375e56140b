import BlockCache.Cache

/-!
Reading and writing through the pool. A transfer is cut into chunks, and each chunk is copied
between the caller's buffer and a slot that holds its block. A block that is only partly written is
read in first; one that is written whole is not.
-/

namespace BlockCache

namespace Cache

variable {σ φ : Type} [Storage σ φ]

/-- A slot that holds a block of a file for reading. If the block cannot be read in, the slot that
was made free for it stays free. -/
def slotToRead (f : OpenFile φ) (block : Nat) : StateM (Cache σ φ) (Except Error Nat) := do
  let key : BlockId := ⟨f.descriptor, block⟩
  match ← find key with
  | some slot => pure (.ok slot)
  | none =>
      let slot ← makeRoom
      match ← onPool (Pool.fill slot key (fetchBlock f.file key)) with
      | .ok () => pure (.ok slot)
      | .error e =>
          report [.readFailed key e]
          pure (.error e)

/-- Copies chunks into a buffer, up to the first whose block cannot be had. -/
def copyOut {n : Nat} (f : OpenFile φ) :
    List Chunk → Buffer n → StateM (Cache σ φ) (Except Error Unit × Buffer n)
  | [], buffer => pure (.ok (), buffer)
  | chunk :: rest, buffer => do
      match ← slotToRead f chunk.block with
      | .error e => pure (.error e, buffer)
      | .ok slot =>
          let bytes := Bytes.slice ((← get).pool.blockAt slot).bytes chunk.start chunk.length
          copyOut f rest (buffer.blit chunk.position bytes)

/-- Reads from the cursor of a handle into a buffer, as far as the file and the buffer go, and moves
the cursor past what was read. If a block cannot be read the cursor stays, and the buffer has the
bytes before that block. -/
def read {n : Nat} (h : Handle) (buffer : Buffer n) :
    StateM (Cache σ φ) (Except Error Nat × Buffer n) := do
  match (← get).table.get h with
  | .error e => pure (.error e, buffer)
  | .ok f =>
      if f.size ≤ f.cursor then pure (.ok 0, buffer)
      else
        let count := min n (f.size - f.cursor)
        let (outcome, buffer) ← copyOut f (chunks f.cursor count) buffer
        match outcome with
        | .error e => pure (.error e, buffer)
        | .ok () =>
            onTable (·.modify h (·.moveBy count false))
            report [.hasRead f.descriptor f.cursor count]
            pure (.ok count, buffer)

/-- A slot that holds a block of a file for writing. A block of which every byte is about to be
written is not read in, and one that cannot be read in counts as zeros. -/
def slotToWrite (f : OpenFile φ) (block : Nat) (whole : Bool) : StateM (Cache σ φ) Nat := do
  let key : BlockId := ⟨f.descriptor, block⟩
  match ← find key with
  | some slot => pure slot
  | none =>
      let slot ← makeRoom
      if whole then
        onPool fun pool => pure ((), pool.assign slot key)
      else
        match ← onPool (Pool.fillOrZero slot key (fetchBlock f.file key)) with
        | some e => report [.preReadFailed key e]
        | none => pure ()
      pure slot

def copyIn (f : OpenFile φ) (data : ByteArray) : List Chunk → StateM (Cache σ φ) Unit
  | [] => pure ()
  | chunk :: rest => do
      let slot ← slotToWrite f chunk.block (chunk.length = blockSize)
      let bytes := Bytes.slice data chunk.position chunk.length
      onPool fun pool => pure ((), pool.write slot chunk.start bytes)
      copyIn f data rest

/-- Writes a byte string at the cursor of a handle and moves the cursor past it. A handle that
appends first moves its cursor to the end of the file, and leaves it there if it cannot write. -/
def write (h : Handle) (data : ByteArray) : StateM (Cache σ φ) (Except Error Nat) := do
  match (← get).table.get h with
  | .error e => pure (.error e)
  | .ok f =>
      let offset := if f.flags.contains OpenFlags.append then f.size else f.cursor
      onTable (·.modify h (·.moveTo offset))
      if maxOffset < offset + data.size then pure (.error .writeTooFar)
      else
        copyIn f data (chunks offset data.size)
        onTable (·.modify h (·.moveBy data.size true))
        report [.hasWritten f.descriptor offset data.size]
        pure (.ok data.size)

end Cache

end BlockCache
