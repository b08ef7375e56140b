import BlockCache.Buffer
import BlockCache.Error
import BlockCache.OpenFlags
import BlockCache.Slot

/-!
What a cache asks of the storage below it. A storage is a state `σ` and files of type `φ`; every
call may change the state, and may fail.
-/

namespace BlockCache

/-- A storage of files. -/
class Storage (σ : Type) (φ : outParam Type) where
  /-- The number of an open file. -/
  descriptor : φ → Descriptor
  /-- Opens a file, with the mode a new file is to have. -/
  openFile : String → OpenFlags → Nat → StateM σ (Except Fault φ)
  /-- The size of a file. -/
  size : φ → StateM σ (Except Fault Nat)
  /-- Reads from an offset into a buffer, and tells how many bytes there were. The buffer may have
  changed even if the call fails. -/
  readAt : {n : Nat} → φ → Buffer n → Nat → StateM σ (Except Fault Nat × Buffer n)
  /-- Writes a buffer at an offset, and tells how many bytes were taken. -/
  writeAt : {n : Nat} → φ → Buffer n → Nat → StateM σ (Except Fault Nat)
  /-- Makes what was written durable. -/
  sync : φ → StateM σ (Except Fault Unit)
  /-- Cuts or lengthens a file to a size. -/
  setLen : φ → Nat → StateM σ (Except Fault Unit)
  /-- Gives a file up. -/
  close : φ → StateM σ Unit

/-- A call of a storage, with its arguments and its outcome. -/
inductive Call (φ : Type) where
  | openFile (path : String) (flags : OpenFlags) (mode : Nat) (outcome : Except Fault φ)
  | size (file : φ) (outcome : Except Fault Nat)
  | readAt (file : φ) (offset length : Nat) (outcome : Except Fault Nat)
  | writeAt (file : φ) (offset : Nat) (bytes : ByteArray) (outcome : Except Fault Nat)
  | sync (file : φ) (outcome : Except Fault Unit)
  | setLen (file : φ) (size : Nat) (outcome : Except Fault Unit)
  | close (file : φ)

/-- A storage with the calls made to it, in their order. -/
structure Traced (σ φ : Type) where
  inner : σ
  calls : Array (Call φ)

namespace Traced

variable {σ φ : Type}

def new (inner : σ) : Traced σ φ := ⟨inner, #[]⟩

/-- Makes a call of the storage inside and writes it down. -/
def record {α : Type} (call : StateM σ α) (entry : α → Call φ) : StateM (Traced σ φ) α :=
  fun ⟨inner, calls⟩ =>
    match call inner with
    | (outcome, inner) => (outcome, ⟨inner, calls.push (entry outcome)⟩)

instance [Storage σ φ] : Storage (Traced σ φ) φ where
  descriptor := Storage.descriptor σ
  openFile path flags mode :=
    record (Storage.openFile path flags mode) fun outcome => .openFile path flags mode outcome
  size file := record (Storage.size file) fun outcome => .size file outcome
  readAt {n} file buffer offset :=
    record (Storage.readAt file buffer offset) fun outcome => .readAt file offset n outcome.1
  writeAt file buffer offset :=
    record (Storage.writeAt file buffer offset) fun outcome =>
      .writeAt file offset buffer.bytes outcome
  sync file := record (Storage.sync file) fun outcome => .sync file outcome
  setLen file size := record (Storage.setLen file size) fun outcome => .setLen file size outcome
  close file := record (Storage.close file) fun _ => .close file

end Traced

end BlockCache
