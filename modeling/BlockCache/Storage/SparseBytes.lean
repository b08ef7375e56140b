import BlockCache.Buffer
import Std.Data.TreeMap

/-!
Byte strings with holes. They are kept block by block, and a block that is not kept is zero, so that
bytes far behind the others take no room before them. The bytes of a kept block past the end of the
string are zero as well.
-/

namespace BlockCache

structure SparseBytes where
  size : Nat
  blocks : Std.TreeMap Nat Block

namespace SparseBytes

def empty : SparseBytes := ⟨0, ∅⟩

/-- A block among those that are kept, or a block of zeros. -/
def blockIn (blocks : Std.TreeMap Nat Block) (index : Nat) : Block :=
  (blocks[index]?).getD (Buffer.zero blockSize)

def slice (s : SparseBytes) (start length : Nat) : ByteArray :=
  (chunks start (min length (s.size - start))).foldl
    (fun bytes chunk =>
      bytes ++ Bytes.slice (blockIn s.blocks chunk.block).bytes chunk.start chunk.length)
    ByteArray.empty

def toBytes (s : SparseBytes) : ByteArray := s.slice 0 s.size

/-- The bytes with those from `start` on replaced by a patch, lengthened where the patch reaches
beyond them. A patch without bytes changes nothing. -/
def overlay (s : SparseBytes) (start : Nat) (patch : ByteArray) : SparseBytes :=
  match s with
  | ⟨size, blocks⟩ =>
      let put (blocks : Std.TreeMap Nat Block) (chunk : Chunk) : Std.TreeMap Nat Block :=
        let bytes := Bytes.slice patch chunk.position chunk.length
        blocks.insert chunk.block ((blockIn blocks chunk.block).blit chunk.start bytes)
      ⟨if patch.size = 0 then size else max size (start + patch.size),
        (chunks start patch.size).foldl put blocks⟩

def ofBytes (bytes : ByteArray) : SparseBytes := empty.overlay 0 bytes

def resize (s : SparseBytes) (size : Nat) : SparseBytes :=
  if s.size ≤ size then { s with size }
  else
    let kept := s.blocks.filter fun index _ => index * blockSize < size
    let last := blockOf size
    match kept[last]? with
    | some block => ⟨size, kept.insert last (block.zeroFrom (placeInBlock size))⟩
    | none => ⟨size, kept⟩

end SparseBytes

end BlockCache
