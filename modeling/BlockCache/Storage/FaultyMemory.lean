import BlockCache.Storage.Guarded
import BlockCache.Storage.Memory
import BlockCache.Storage.Scripted

/-!
Files in memory that fail on request: by the rules of a script first, then for want of access if
that is enforced, then by growing past 16 MiB, and at last by the switches of the memory itself.
-/

namespace BlockCache

/-- Files in memory that fail on request. -/
abbrev FaultyMemory := Scripted (Guarded (Bounded Memory))

namespace FaultyMemory

/-- The size past which no file grows. -/
def sizeLimit : Nat := 16 * 1024 * 1024

def ofFiles (files : Catalog Path ByteArray) (enforced : Bool) : FaultyMemory :=
  ⟨⟨⟨Memory.ofFiles files, sizeLimit⟩, enforced⟩, []⟩

def memory (s : FaultyMemory) : Memory := s.inner.inner.inner

def mapMemory (s : FaultyMemory) (f : Memory → Memory) : FaultyMemory :=
  match s with
  | ⟨⟨⟨memory, limit⟩, enforced⟩, rules⟩ => ⟨⟨⟨f memory, limit⟩, enforced⟩, rules⟩

def addRule (s : FaultyMemory) (rule : Scripted.Rule) : FaultyMemory :=
  { s with rules := s.rules ++ [rule] }

def clearRules (s : FaultyMemory) : FaultyMemory := { s with rules := [] }

end FaultyMemory

end BlockCache
