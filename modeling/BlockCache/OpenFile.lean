import BlockCache.Error
import BlockCache.OpenFlags
import BlockCache.Slot

/-!
Open files and the handles that name them. An open file has a cursor and a size of its own: the size
is that of the stored file when it was opened, and grows with what is written through the handle.
-/

namespace BlockCache

/-- A handle of an open file, its place in the handle table. -/
structure Handle where
  index : Nat
  deriving DecidableEq, Repr

namespace Handle

/-- The handle of a number; negative numbers name none. -/
def ofInt? (raw : Int) : Option Handle := if 0 ≤ raw then some ⟨raw.toNat⟩ else none

/-- The handle as a signed word of 32 bits. -/
def toInt (h : Handle) : Int := Int.bmod h.index 0x100000000

end Handle

inductive SeekTarget where
  /-- To an offset. -/
  | start (offset : Nat)
  /-- By a distance from where it is. -/
  | current (delta : Int)
  /-- By a distance from the end of the file. -/
  | fromEnd (delta : Int)
  deriving DecidableEq, Repr

/-- An open file of a storage whose files are of type `φ`. -/
structure OpenFile (φ : Type) where
  file : φ
  descriptor : Descriptor
  cursor : Nat
  size : Nat
  flags : OpenFlags

namespace OpenFile

variable {φ : Type}

/-- A file that was just opened, with its cursor at the start. -/
def fresh (file : φ) (descriptor : Descriptor) (size : Nat) (flags : OpenFlags) : OpenFile φ :=
  ⟨file, descriptor, 0, size, flags⟩

def moveTo (f : OpenFile φ) (cursor : Nat) : OpenFile φ := { f with cursor }

/-- The file with its cursor past `n` more bytes, which were written if `extend` is set and then
count to its size. -/
def moveBy (f : OpenFile φ) (n : Nat) (extend : Bool) : OpenFile φ :=
  { f with
    cursor := f.cursor + n
    size := if extend then max f.size (f.cursor + n) else f.size }

/-- The offset a seek is to, which may lie outside the range of offsets. -/
def targetOffset (f : OpenFile φ) : SeekTarget → Int
  | .start offset => offset
  | .current delta => f.cursor + delta
  | .fromEnd delta => f.size + delta

/-- The file with its cursor moved, if it stays in the range of offsets. -/
def seek (f : OpenFile φ) (target : SeekTarget) : Except Error (OpenFile φ) :=
  if f.targetOffset target < 0 then .error .negativeSeek
  else if (maxOffset : Int) < f.targetOffset target then .error .seekTooFar
  else .ok (f.moveTo (f.targetOffset target).toNat)

end OpenFile

end BlockCache
