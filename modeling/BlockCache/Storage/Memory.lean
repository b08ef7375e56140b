import BlockCache.Catalog
import BlockCache.Path
import BlockCache.Storage

/-!
A storage that keeps its files in memory. Files are byte strings by path, descriptors count up from
3 and are not used twice. Calls that touch a file are counted, and each kind of them can be switched
to fail.
-/

namespace BlockCache

/-- A value for each kind of call that is counted and can be switched to fail. -/
structure PerCall (α : Type) where
  read : α
  write : α
  sync : α
  resize : α
  deriving DecidableEq, Repr

/-- Files in memory. -/
structure Memory where
  files : Catalog Path ByteArray
  nextDescriptor : Nat
  counts : PerCall Nat
  failing : PerCall Bool

namespace Memory

structure File where
  path : Path
  descriptor : Descriptor
  deriving DecidableEq, Repr

/-- Files in memory, none of them opened before. -/
def ofFiles (files : Catalog Path ByteArray) : Memory :=
  ⟨files, 3, ⟨0, 0, 0, 0⟩, ⟨false, false, false, false⟩⟩

/-- The bytes of a file; a missing file counts as empty. -/
def contents (m : Memory) (path : Path) : ByteArray := (m.files.get? path).getD ByteArray.empty

def put (m : Memory) (path : Path) (bytes : ByteArray) : Memory :=
  { m with files := m.files.insert path bytes }

/-- The files with one of them changed. -/
def change (files : Catalog Path ByteArray) (path : Path) (f : ByteArray → ByteArray) :
    Catalog Path ByteArray :=
  files.update path fun bytes => f (bytes.getD ByteArray.empty)

/-- The failure of a call that is switched to fail. -/
def failure : Fault := Fault.ofCode Errno.io

instance : Storage Memory File where
  descriptor file := file.descriptor
  openFile path flags _ := fun m =>
    let path := Path.ofString path
    let found := (m.files.get? path).isSome
    if found && flags.contains (OpenFlags.create.union OpenFlags.exclusive) then
      (.error (Fault.ofCode Errno.alreadyExists), m)
    else if !found && !flags.contains OpenFlags.create then
      (.error (Fault.ofCode Errno.noEntry), m)
    else
      let opened (bytes : ByteArray) :=
        if flags.contains OpenFlags.truncate then ByteArray.empty else bytes
      (.ok ⟨path, m.nextDescriptor⟩,
        { m with files := change m.files path opened, nextDescriptor := m.nextDescriptor + 1 })
  size file := fun m => (.ok (m.contents file.path).size, m)
  readAt {n} file buffer offset := fun m =>
    let m := { m with counts := { m.counts with read := m.counts.read + 1 } }
    if m.failing.read then ((.error failure, buffer), m)
    else
      let bytes := Bytes.slice (m.contents file.path) offset n
      ((.ok bytes.size, buffer.blit 0 bytes), m)
  writeAt {n} file buffer offset := fun ⟨files, nextDescriptor, counts, failing⟩ =>
    let counts := { counts with write := counts.write + 1 }
    if failing.write then (.error failure, ⟨files, nextDescriptor, counts, failing⟩)
    else
      (.ok n,
        ⟨change files file.path fun bytes => Bytes.overlay bytes offset buffer.bytes,
          nextDescriptor, counts, failing⟩)
  sync _ := fun m =>
    let m := { m with counts := { m.counts with sync := m.counts.sync + 1 } }
    (if m.failing.sync then .error failure else .ok (), m)
  setLen file size := fun ⟨files, nextDescriptor, counts, failing⟩ =>
    let counts := { counts with resize := counts.resize + 1 }
    if failing.resize then (.error failure, ⟨files, nextDescriptor, counts, failing⟩)
    else
      (.ok (),
        ⟨change files file.path fun bytes => Bytes.resize bytes size, nextDescriptor, counts,
          failing⟩)
  close _ := pure ()

end Memory

end BlockCache
