import BlockCache.Cache.Session

/-!
The cache on a machine of 64-bit words, with every sum, difference, product, index and range judged
before it is used. A checked call does what the call does, step by step, and stops without a result
where a number does not fit its word, where a slot or a range does not exist, and where a handle
that was open when the call began is open no more. The block of a file is asked for at the handle
each time, and the bytes of a transfer are counted as they are copied.
-/

namespace BlockCache

/-- Whether a number is one of the wide words with a sign in which a seek is computed. -/
def fitsWide (n : Int) : Prop :=
  -0x80000000000000000000000000000000 ≤ n ∧ n < 0x80000000000000000000000000000000

instance decFitsWide (n : Int) : Decidable (fitsWide n) := inferInstanceAs (Decidable (_ ∧ _))

/-- Whether the arguments of a request fit a machine: buffers have a length with a sign, offsets and
blocks are words, and distances are words with a sign. -/
def Request.Fits : Request → Prop
  | .read _ buffer => buffer.size ≤ maxOffset
  | .write _ data => data.size ≤ maxOffset
  | .seek _ (.start offset) => offset < wordBound
  | .seek _ (.current delta) | .seek _ (.fromEnd delta) =>
      -0x8000000000000000 ≤ delta ∧ delta ≤ maxOffset
  | .isResident _ block => block < wordBound
  | .openFile .. | .close _ | .sync _ | .position _ | .length _ | .flags _ => True

instance Request.decFits : (request : Request) → Decidable request.Fits
  | .read _ buffer => inferInstanceAs (Decidable (buffer.size ≤ maxOffset))
  | .write _ data => inferInstanceAs (Decidable (data.size ≤ maxOffset))
  | .seek _ (.start offset) => inferInstanceAs (Decidable (offset < wordBound))
  | .seek _ (.current _) | .seek _ (.fromEnd _) => inferInstanceAs (Decidable (_ ∧ _))
  | .isResident _ block => inferInstanceAs (Decidable (block < wordBound))
  | .openFile .. | .close _ | .sync _ | .position _ | .length _ | .flags _ => .isTrue trivial

namespace Cache

/-- What works on the state of a cache and may stop without a result. -/
abbrev Checked (σ φ : Type) := StateT (Cache σ φ) Option

namespace Checked

variable {σ φ α : Type}

/-- What is done without a check. -/
def exactly (action : StateM (Cache σ φ) α) : Checked σ φ α := fun c => some (action c)

/-! ### Checks -/

/-- Stops unless a condition holds. -/
def ensure (condition : Prop) [Decidable condition] : Checked σ φ Unit :=
  fun c => if condition then some ((), c) else none

def add (a b : Nat) : Checked σ φ { n : Nat // n = a + b } :=
  fun c => if a + b < wordBound then some (⟨a + b, rfl⟩, c) else none

def sub (a b : Nat) : Checked σ φ { n : Nat // n + b = a } :=
  fun c => if h : b ≤ a then some (⟨a - b, Nat.sub_add_cancel h⟩, c) else none

/-- Where a block starts in its file. -/
def offsetOf (key : BlockId) : Checked σ φ { n : Nat // n = key.offset } :=
  fun c => if key.offset < wordBound then some (⟨key.offset, rfl⟩, c) else none

/-- Judges a range of a row of `n` bytes. -/
def range (start stop n : Nat) : Checked σ φ Unit := ensure (start ≤ stop ∧ stop ≤ n)

def slotAt (slot : Nat) : Checked σ φ Slot := fun c => c.pool.slots[slot]?.map (·, c)

def fileOf (h : Handle) : Checked σ φ (OpenFile φ) := fun c => (c.table.get? h).map (·, c)

/-! ### Slots -/

def find (key : BlockId) : Checked σ φ (Option Nat) := do
  let pool := (← get).pool
  match Lookup.find pool.index pool.slots key with
  | some slot =>
      let _ ← slotAt slot
      exactly (Cache.find key)
  | none => exactly (Cache.find key)

/-- A block with zeros from `start` on. -/
def cleared (block : Block) (start : Nat) : Checked σ φ Block := do
  range start blockSize blockSize
  pure (block.blit start (Bytes.zeros (blockSize - start)))

variable [Storage σ φ]

def makeRoom : Checked σ φ Nat := do
  let s ← slotAt (← get).pool.victim
  match s with
  | ⟨_, true, some tenant⟩ =>
      let _ ← offsetOf tenant.key
      exactly Cache.makeRoom
  | _ => exactly Cache.makeRoom

/-- Reads a block of the file of a handle into a slot. -/
def fetch (h : Handle) (slot : Nat) (key : BlockId) :
    Checked σ φ (Except Error Nat × Block) := do
  let f ← fileOf h
  let s ← slotAt slot
  let ⟨offset, _⟩ ← offsetOf key
  let (outcome, block) ← exactly (onStorage (Storage.readAt f.file s.block offset))
  pure (outcome.mapError .storage, block)

/-- Puts a block in a slot. -/
def settleIn (slot : Nat) (key : BlockId) (block : Block) : Checked σ φ Unit := do
  let _ ← slotAt slot
  exactly (onPool fun pool =>
    pure ((), ((pool.modifySlot slot (·.setBlock block)).assign slot key).count Stats.filled))

/-- A slot that holds a block of the file of a handle for reading. -/
def slotToRead (h : Handle) (key : BlockId) : Checked σ φ (Except Error Nat) := do
  match ← find key with
  | some slot => pure (.ok slot)
  | none =>
      let slot ← makeRoom
      match ← fetch h slot key with
      | (.ok n, block) =>
          settleIn slot key (← cleared block (min n blockSize))
          pure (.ok slot)
      | (.error e, block) =>
          let _ ← slotAt slot
          exactly (onPool fun pool => pure ((), pool.modifySlot slot (·.setBlock block)))
          exactly (report [.readFailed key e])
          pure (.error e)

/-- A slot that holds a block of the file of a handle for writing. -/
def slotToWrite (h : Handle) (key : BlockId) (whole : Bool) : Checked σ φ Nat := do
  match ← find key with
  | some slot => pure slot
  | none =>
      let slot ← makeRoom
      if whole then
        let _ ← slotAt slot
        exactly (onPool fun pool => pure ((), pool.assign slot key))
      else
        match ← fetch h slot key with
        | (.ok n, block) => settleIn slot key (← cleared block (min n blockSize))
        | (.error e, _) =>
            exactly (report [.preReadFailed key e])
            settleIn slot key (Buffer.zero blockSize)
      pure slot

/-! ### Transfers -/

/-- Copies bytes into a buffer, of which `done` out of `count` are there. -/
def copyOut {n : Nat} (h : Handle) (f : OpenFile φ) (count done : Nat) (buffer : Buffer n) :
    Checked σ φ (Except Error Unit × Buffer n) := do
  if _ : done < count then
    let ⟨offset, _⟩ ← add f.cursor done
    let start := placeInBlock offset
    let ⟨room, _⟩ ← sub blockSize start
    let ⟨left, _⟩ ← sub count done
    let length := min room left
    match ← slotToRead h ⟨f.descriptor, blockOf offset⟩ with
    | .error e => pure (.error e, buffer)
    | .ok slot =>
        let s ← slotAt slot
        let ⟨stop, _⟩ ← add start length
        range start stop blockSize
        let ⟨next, _⟩ ← add done length
        range done next n
        copyOut h f count next (buffer.blit done (Bytes.slice s.block.bytes start length))
  else pure (.ok (), buffer)
termination_by count - done
decreasing_by
  have := placeInBlock_lt offset
  omega

/-- Copies bytes of a byte string into the pool, of which `done` are there. -/
def copyIn (h : Handle) (f : OpenFile φ) (cursor : Nat) (data : ByteArray) (done : Nat) :
    Checked σ φ Unit := do
  if _ : done < data.size then
    let ⟨offset, _⟩ ← add cursor done
    let start := placeInBlock offset
    let ⟨room, _⟩ ← sub blockSize start
    let ⟨left, _⟩ ← sub data.size done
    let length := min room left
    let slot ← slotToWrite h ⟨f.descriptor, blockOf offset⟩ (length = blockSize)
    let _ ← slotAt slot
    let ⟨stop, _⟩ ← add start length
    range start stop blockSize
    let ⟨next, _⟩ ← add done length
    range done next data.size
    exactly (onPool fun pool => pure ((), pool.write slot start (Bytes.slice data done length)))
    copyIn h f cursor data next
  else pure ()
termination_by data.size - done
decreasing_by
  have := placeInBlock_lt offset
  omega

/-- Moves the cursor of a handle past bytes. -/
def advance (h : Handle) (count : Nat) (extend : Bool) : Checked σ φ Unit := do
  let f ← fileOf h
  let _ ← add f.cursor count
  exactly (onTable (·.modify h (·.moveBy count extend)))

/-! ### Calls -/

def openFile (path : String) (flags : OpenFlags) (mode : Nat) :
    Checked σ φ (Except Error Handle) := do
  match ← exactly (Cache.openFile path flags mode) with
  | .error e => pure (.error e)
  | .ok h =>
      ensure (h.index < (← get).table.entries.size)
      pure (.ok h)

def read {n : Nat} (h : Handle) (buffer : Buffer n) :
    Checked σ φ (Except Error Nat × Buffer n) := do
  match (← get).table.get h with
  | .error e => pure (.error e, buffer)
  | .ok f =>
      if f.size ≤ f.cursor then pure (.ok 0, buffer)
      else
        let ⟨rest, _⟩ ← sub f.size f.cursor
        let count := min n rest
        match ← copyOut h f count 0 buffer with
        | (.error e, buffer) => pure (.error e, buffer)
        | (.ok (), buffer) =>
            advance h count false
            exactly (report [.hasRead f.descriptor f.cursor count])
            pure (.ok count, buffer)

/-- Writing asks whether the end is a word, and does not stop if it is none. -/
def write (h : Handle) (data : ByteArray) : Checked σ φ (Except Error Nat) := do
  match (← get).table.get h with
  | .error e => pure (.error e)
  | .ok f =>
      let cursor := if f.flags.contains OpenFlags.append then f.size else f.cursor
      exactly (onTable (·.modify h (·.moveTo cursor)))
      if cursor + data.size < wordBound ∧ cursor + data.size ≤ maxOffset then
        copyIn h f cursor data 0
        advance h data.size true
        exactly (report [.hasWritten f.descriptor cursor data.size])
        pure (.ok data.size)
      else pure (.error .writeTooFar)

omit [Storage σ φ] in
def seek (h : Handle) (target : SeekTarget) : Checked σ φ (Except Error Nat) := do
  match (← get).table.get h with
  | .error e => pure (.error e)
  | .ok f =>
      ensure (fitsWide (f.targetOffset target))
      match f.seek target with
      | .error e => pure (.error e)
      | .ok moved =>
          ensure (0 ≤ f.targetOffset target ∧ f.targetOffset target < wordBound)
          exactly (onTable (·.modify h fun _ => moved))
          pure (.ok moved.cursor)

def sync (h : Handle) : Checked σ φ (Except Error Unit) := do
  match (← get).table.get h with
  | .error e => pure (.error e)
  | .ok f =>
      ensure (∀ dirty ∈ (← get).pool.dirtyBlocks f.descriptor, dirty.key.offset < wordBound)
      exactly (Cache.sync h)

def close (h : Handle) : Checked σ φ (Except Error Unit) := do
  match (← get).table.get h with
  | .error e => pure (.error e)
  | .ok _ =>
      let synced ← sync h
      match synced with
      | .ok () => pure ()
      | .error e => exactly (report [.closeSyncFailed h.index e])
      let f ← fileOf h
      exactly (onTable (·.remove h))
      let forgotten ← exactly (onPool fun pool => pure (pool.forget f.descriptor))
      exactly (report [.closed h.index f.descriptor forgotten])
      exactly (onStorage (Storage.close f.file))
      pure synced

/-- Serves a request. -/
def serve : Request → Checked σ φ Reply
  | .openFile path flags mode => .opened <$> openFile path flags mode
  | .close h => .done <$> close h
  | .sync h => .done <$> sync h
  | .read h buffer => do
      let (outcome, buffer) ← read h (Buffer.ofBytes buffer)
      pure (.bytes outcome buffer.bytes)
  | .write h data => .number <$> write h data
  | .seek h target => .number <$> seek h target
  | request => exactly (Cache.serve request)

end Checked

end Cache

end BlockCache
