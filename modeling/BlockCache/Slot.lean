import BlockCache.Buffer

/-!
Slots of the cache. A slot always has the bytes of a block; it is occupied while it has a tenant,
the block those bytes stand for. Freeing a slot keeps its bytes.
-/

namespace BlockCache

/-- The number by which a storage names an open file. -/
abbrev Descriptor := Int

/-- A block of an open file. -/
structure BlockId where
  owner : Descriptor
  index : Nat
  deriving DecidableEq, Repr

namespace BlockId

def offset (key : BlockId) : Nat := key.index * blockSize

def text (key : BlockId) : String :=
  recordText "BlockKey" [("owner", toString key.owner), ("index", toString key.index)]

end BlockId

/-- The block a slot holds, and how often it was asked for. -/
structure Tenant where
  key : BlockId
  frequency : Nat
  deriving DecidableEq, Repr

/-- A slot: the bytes of a block, whether they differ from the stored ones, and whose they are. -/
structure Slot where
  block : Block
  dirty : Bool
  tenant : Option Tenant

namespace Slot

/-- A slot that was never used. -/
def blank : Slot := ⟨Buffer.zero blockSize, false, none⟩

def key (s : Slot) : Option BlockId := s.tenant.map (·.key)

/-- How often the block of an occupied slot was asked for; zero for a free slot. -/
def frequency (s : Slot) : Nat :=
  match s.tenant with
  | some tenant => tenant.frequency
  | none => 0

def isFree (s : Slot) : Bool := s.tenant.isNone

def isOccupied (s : Slot) : Bool := s.tenant.isSome

def holds (s : Slot) (key : BlockId) : Bool :=
  match s.tenant with
  | some tenant => tenant.key == key
  | none => false

def ownedBy (s : Slot) (owner : Descriptor) : Bool :=
  match s.tenant with
  | some tenant => tenant.key.owner == owner
  | none => false

/-- The slot after one more request for its block. -/
def bump (s : Slot) : Slot :=
  { s with tenant := s.tenant.map fun tenant => { tenant with frequency := tenant.frequency + 1 } }

/-- The slot taken by a block, which counts as asked for once. -/
def assign (s : Slot) (key : BlockId) : Slot := { s with dirty := false, tenant := some ⟨key, 1⟩ }

/-- The slot freed; its bytes stay. -/
def vacated (s : Slot) : Slot := { s with dirty := false, tenant := none }

/-- The slot with bytes that differ from the stored ones. -/
def dirtied (s : Slot) : Slot := { s with dirty := true }

/-- The slot with bytes that were stored. -/
def cleaned (s : Slot) : Slot := { s with dirty := false }

def setBlock (s : Slot) (block : Block) : Slot := { s with block }

/-- The slot with the bytes from `start` on replaced, and dirty. -/
def write (s : Slot) (start : Nat) (bytes : ByteArray) : Slot :=
  match s with
  | ⟨block, _, tenant⟩ => ⟨block.blit start bytes, true, tenant⟩

end Slot

end BlockCache
