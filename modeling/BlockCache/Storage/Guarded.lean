import BlockCache.Storage

/-!
Storages that refuse calls. `Guarded` holds files to the access they were opened for; `Bounded`
keeps files from growing past a size. Whatever is not refused is passed on to the storage inside.
-/

namespace BlockCache

/-- A storage that holds files to the access they were opened for, if that is enforced. -/
structure Guarded (σ : Type) where
  inner : σ
  enforced : Bool

namespace Guarded

variable {σ φ α : Type}

structure File (φ : Type) where
  file : φ
  flags : OpenFlags

def pass (call : StateM σ α) : StateM (Guarded σ) α :=
  fun ⟨inner, enforced⟩ =>
    match call inner with
    | (a, inner) => (a, ⟨inner, enforced⟩)

instance [Storage σ φ] : Storage (Guarded σ) (File φ) where
  descriptor file := Storage.descriptor σ file.file
  openFile path flags mode := do
    let outcome ← pass (Storage.openFile path flags mode)
    pure (outcome.map fun file => ⟨file, flags⟩)
  size file := pass (Storage.size file.file)
  readAt file buffer offset := do
    if (← get).enforced && !file.flags.isReadable then
      pure (.error (Fault.ofCode Errno.badDescriptor), buffer)
    else pass (Storage.readAt file.file buffer offset)
  writeAt file buffer offset := do
    if (← get).enforced && !file.flags.isWritable then
      pure (.error (Fault.ofCode Errno.badDescriptor))
    else pass (Storage.writeAt file.file buffer offset)
  sync file := pass (Storage.sync file.file)
  setLen file size := do
    if (← get).enforced && !file.flags.isWritable then
      pure (.error (Fault.ofCode Errno.invalid))
    else pass (Storage.setLen file.file size)
  close file := pass (Storage.close file.file)

end Guarded

/-- A storage whose files cannot grow past a size. -/
structure Bounded (σ : Type) where
  inner : σ
  limit : Nat

namespace Bounded

variable {σ φ α : Type}

def pass (call : StateM σ α) : StateM (Bounded σ) α :=
  fun ⟨inner, limit⟩ =>
    match call inner with
    | (a, inner) => (a, ⟨inner, limit⟩)

instance [Storage σ φ] : Storage (Bounded σ) φ where
  descriptor := Storage.descriptor σ
  openFile path flags mode := pass (Storage.openFile path flags mode)
  size file := pass (Storage.size file)
  readAt file buffer offset := pass (Storage.readAt file buffer offset)
  writeAt {n} file buffer offset := do
    if (← get).limit < offset + n then pure (.error (Fault.ofCode Errno.tooLarge))
    else pass (Storage.writeAt file buffer offset)
  sync file := pass (Storage.sync file)
  setLen file size := do
    if (← get).limit < size then pure (.error (Fault.ofCode Errno.tooLarge))
    else pass (Storage.setLen file size)
  close file := pass (Storage.close file)

end Bounded

end BlockCache
