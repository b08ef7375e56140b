import BlockCache.FileTable
import BlockCache.Pool
import BlockCache.Storage

/-!
The cache: a pool of blocks and a table of open files over a storage. Its pool has no slots until
the first file is opened. Files are read and written through the pool alone; what was written
reaches the storage when a block is evicted and when its file is synced or closed.

Every call works on the state of the cache and may fail; the state stays changed as far as the call
got. What happens is reported to the journal.
-/

namespace BlockCache

/-- A cache over a storage with state `σ` and files of type `φ`. -/
structure Cache (σ φ : Type) where
  storage : σ
  slotCount : Nat
  allocator : Allocator
  pool : Pool Scan
  table : FileTable φ
  journal : Array Event

namespace Cache

variable {σ φ α : Type}

/-- A cache with no file open. -/
def new (storage : σ) (slotCount : Nat) (allocator : Allocator := .addressable) : Cache σ φ :=
  ⟨storage, slotCount, allocator, Pool.unallocated ⟨⟩, FileTable.create maxHandles, #[]⟩

/-- Whether the pool has its slots. -/
def isAllocated (c : Cache σ φ) : Bool := 0 < c.pool.capacity

def openCount (c : Cache σ φ) : Nat := c.table.openCount

def stats (c : Cache σ φ) : Stats := c.pool.stats

def text (c : Cache σ φ) : String :=
  recordText "CacheManager"
    [("capacity", toString c.slotCount), ("initialized", boolText c.isAllocated),
      ("open_count", toString c.openCount),
      ("pool", if c.isAllocated then "Some(" ++ c.pool.text ++ ")" else "None")]

/-! ### Working on the parts of a cache -/

def onStorage (call : StateM σ α) : StateM (Cache σ φ) α :=
  fun ⟨storage, slotCount, allocator, pool, table, journal⟩ =>
    match call storage with
    | (a, storage) => (a, ⟨storage, slotCount, allocator, pool, table, journal⟩)

def onPool (op : Pool Scan → StateM σ (α × Pool Scan)) : StateM (Cache σ φ) α :=
  fun ⟨storage, slotCount, allocator, pool, table, journal⟩ =>
    match op pool storage with
    | ((a, pool), storage) => (a, ⟨storage, slotCount, allocator, pool, table, journal⟩)

def onTable (f : FileTable φ → FileTable φ) : StateM (Cache σ φ) Unit :=
  fun ⟨storage, slotCount, allocator, pool, table, journal⟩ =>
    ((), ⟨storage, slotCount, allocator, pool, f table, journal⟩)

def report (events : List Event) : StateM (Cache σ φ) Unit :=
  fun ⟨storage, slotCount, allocator, pool, table, journal⟩ =>
    ((), ⟨storage, slotCount, allocator, pool, table, journal ++ events⟩)

/-- The events since the journal was last taken. -/
def takeJournal : StateM (Cache σ φ) (List Event) :=
  fun ⟨storage, slotCount, allocator, pool, table, journal⟩ =>
    (journal.toList, ⟨storage, slotCount, allocator, pool, table, #[]⟩)

theorem onStorage_apply (call : StateM σ α) (c : Cache σ φ) :
    onStorage call c = ((call c.storage).1, { c with storage := (call c.storage).2 }) := rfl

theorem onPool_apply (op : Pool Scan → StateM σ (α × Pool Scan)) (c : Cache σ φ) :
    onPool op c =
      ((op c.pool c.storage).1.1,
        { c with pool := (op c.pool c.storage).1.2, storage := (op c.pool c.storage).2 }) := rfl

theorem onTable_apply (f : FileTable φ → FileTable φ) (c : Cache σ φ) :
    onTable f c = ((), { c with table := f c.table }) := rfl

theorem report_apply (events : List Event) (c : Cache σ φ) :
    report events c = ((), { c with journal := c.journal ++ events }) := rfl

/-! ### Blocks between the pool and the storage -/

variable [Storage σ φ]

/-- Writes a block to its file; a storage that takes only a part of it has failed. -/
def storeBlock (file : φ) (key : BlockId) (block : Block) : StateM σ (Except Error Unit) := do
  match ← Storage.writeAt file block key.offset with
  | .ok n => pure (if n = blockSize then .ok () else .error .shortWrite)
  | .error fault => pure (.error (.storage fault))

/-- Writes a block to the open file it belongs to. -/
def writeBack (table : FileTable φ) (key : BlockId) (block : Block) :
    StateM σ (Except Error Unit) :=
  match table.ownerOf key.owner with
  | some owner => storeBlock owner.file key block
  | none => pure (.error .noOwner)

def fetchBlock (file : φ) (key : BlockId) (block : Block) :
    StateM σ (Except Error Nat × Block) := do
  let (outcome, block) ← Storage.readAt file block key.offset
  pure (outcome.mapError .storage, block)

def find (key : BlockId) : StateM (Cache σ φ) (Option Nat) := do
  match ← onPool fun pool => pure (pool.lookup key) with
  | some hit =>
      report (hit.events key)
      pure (some hit.slot)
  | none => pure none

def makeRoom : StateM (Cache σ φ) Nat := do
  let table := (← get).table
  let room ← onPool (Pool.makeRoom (writeBack table))
  report room.events
  pure room.slot

/-! ### Opening, syncing and closing -/

/-- Allocates the slots of the pool, if that was not done before. -/
def allocate : StateM (Cache σ φ) (Except Error Unit) := do
  let c ← get
  if c.isAllocated then pure (.ok ())
  else
    match Pool.create c.slotCount Scan.mk c.allocator with
    | .ok pool =>
        onPool fun _ => pure ((), pool)
        report [.poolReady c.slotCount]
        pure (.ok ())
    | .error e =>
        report [.poolFailed e]
        pure (.error .poolUnavailable)

/-- Binds a file that the storage has opened to a handle. A file whose size cannot be told is given
up again. -/
def bindFile (path : String) (flags : OpenFlags) (file : φ) :
    StateM (Cache σ φ) (Except Error Handle) := do
  match ← onStorage (Storage.size file) with
  | .error fault =>
      onStorage (Storage.close file)
      pure (.error (.storage fault))
  | .ok size =>
      let opened := OpenFile.fresh file (Storage.descriptor σ file) size flags
      match (← get).table.add opened with
      | .error e => pure (.error e)
      | .ok (h, table) =>
          onTable fun _ => table
          report [.opened path h.index opened.descriptor size]
          pure (.ok h)

/-- Opens a file. A full table is found before the storage is asked for anything. -/
def openFile (path : String) (flags : OpenFlags) (mode : Nat) :
    StateM (Cache σ φ) (Except Error Handle) := do
  match ← allocate with
  | .error e => pure (.error e)
  | .ok () =>
      if (← get).table.lowestFree.isNone then
        report [.tableFull path]
        pure (.error .tableFull)
      else
        match ← onStorage (Storage.openFile path flags mode) with
        | .error fault => pure (.error (.storage fault))
        | .ok file => bindFile path flags file

/-- Cuts a file to its size; a failure is only reported. -/
def trim (f : OpenFile φ) : StateM (Cache σ φ) Unit := do
  match ← onStorage (Storage.setLen f.file f.size) with
  | .ok () => pure ()
  | .error fault => report [.resizeFailed f.descriptor f.size (.storage fault)]

/-- Writes the dirty blocks of a file back, makes the file durable and cuts it to its size. That the
file is not durable is reported before blocks that were not written. -/
def sync (h : Handle) : StateM (Cache σ φ) (Except Error Unit) := do
  match (← get).table.get h with
  | .error e => pure (.error e)
  | .ok f =>
      let flush ← onPool (Pool.flush f.descriptor (storeBlock f.file))
      report flush.events
      match ← onStorage (Storage.sync f.file) with
      | .error fault => pure (.error (.storage fault))
      | .ok () =>
          trim f
          pure (if 0 < flush.failed then .error .blocksNotWritten else .ok ())

/-- Syncs a file and closes it, whether or not syncing succeeded; the outcome is that of syncing. -/
def close (h : Handle) : StateM (Cache σ φ) (Except Error Unit) := do
  match (← get).table.get h with
  | .error e => pure (.error e)
  | .ok f =>
      let synced ← sync h
      match synced with
      | .ok () => pure ()
      | .error e => report [.closeSyncFailed h.index e]
      onTable (·.remove h)
      let forgotten ← onPool fun pool => pure (pool.forget f.descriptor)
      report [.closed h.index f.descriptor forgotten]
      onStorage (Storage.close f.file)
      pure synced

/-! ### Cursors and sizes -/

/-- Moves the cursor of a handle, and tells where it is then. -/
def seek (h : Handle) (target : SeekTarget) : StateM (Cache σ φ) (Except Error Nat) := do
  match (← get).table.seek h target with
  | .ok (cursor, table) =>
      onTable fun _ => table
      pure (.ok cursor)
  | .error e => pure (.error e)

def position (c : Cache σ φ) (h : Handle) : Except Error Nat := (·.cursor) <$> c.table.get h

def length (c : Cache σ φ) (h : Handle) : Except Error Nat := (·.size) <$> c.table.get h

def flags (c : Cache σ φ) (h : Handle) : Except Error OpenFlags := (·.flags) <$> c.table.get h

/-- Whether the pool holds a block of a file. -/
def isResident (c : Cache σ φ) (h : Handle) (block : Nat) : Except Error Bool :=
  (fun f => c.pool.holds ⟨f.descriptor, block⟩) <$> c.table.get h

end Cache

end BlockCache
