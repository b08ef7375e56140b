import BlockCache.Posix

/-!
Seeking in words. The arguments of a seek and its value are words with a sign, cursors and sizes are
words without one. An offset is taken for the one or for the other; it is added to where it counts
from in words of twice the width, and a sum in the range of offsets is cut to an offset again.
-/

namespace BlockCache

namespace Posix

namespace Words

/-- The number of bits in the words that sums are taken in. -/
def wideBits : Nat := 128

/-- Where a cursor is to be moved, in words. -/
inductive Target where
  /-- To an offset, a word without a sign. -/
  | start (offset : BitVec offsetBits)
  /-- By a distance from where it is. -/
  | current (delta : BitVec offsetBits)
  /-- By a distance from the end of the file. -/
  | fromEnd (delta : BitVec offsetBits)

def handleOf (fd : BitVec intBits) : Except Error Handle :=
  if fd.slt 0 then .error .negativeHandle else .ok ⟨fd.toNat⟩

def seekTarget (offset : BitVec offsetBits) (whence : BitVec intBits) : Except Error Target :=
  if whence = 0 then
    if offset.slt 0 then .error .negativeSeek else .ok (.start offset)
  else if whence = 1 then .ok (.current offset)
  else if whence = 2 then .ok (.fromEnd offset)
  else .error .unknownWhence

variable {σ φ : Type}

/-- A sum in wide words: of a word without a sign and one with a sign. -/
def wideSum (base : Nat) (delta : BitVec offsetBits) : BitVec wideBits :=
  (BitVec.ofNat offsetBits base).setWidth wideBits + delta.signExtend wideBits

/-- The offset a seek is to, in a wide word. -/
def targetOffset (f : OpenFile φ) : Target → BitVec wideBits
  | .start offset => offset.setWidth wideBits
  | .current delta => wideSum f.cursor delta
  | .fromEnd delta => wideSum f.size delta

/-- The file with its cursor moved, if it stays in the range of offsets. -/
def seek (f : OpenFile φ) (target : Target) : Except Error (OpenFile φ) :=
  if (targetOffset f target).slt 0 then .error .negativeSeek
  else if (BitVec.ofNat wideBits maxOffset).slt (targetOffset f target) then .error .seekTooFar
  else .ok (f.moveTo ((targetOffset f target).setWidth offsetBits).toNat)

/-- A seek up to the move of the cursor: the handle, and its file with the cursor moved. -/
def moved (table : FileTable φ) (fd : BitVec intBits) (offset : BitVec offsetBits)
    (whence : BitVec intBits) : Except Error (Handle × OpenFile φ) := do
  let h ← handleOf fd
  let f ← table.get h
  let target ← seekTarget offset whence
  let f ← seek f target
  return (h, f)

def lseek (fd : BitVec intBits) (offset : BitVec offsetBits) (whence : BitVec intBits) :
    StateM (Cache σ φ) (BitVec offsetBits × Option Int) := do
  match moved (← get).table fd offset whence with
  | .error e => pure (-1, some e.errno)
  | .ok (h, f) =>
      Cache.onTable (·.modify h fun _ => f)
      pure (BitVec.ofNat offsetBits f.cursor, none)

end Words

end Posix

end BlockCache
