import BlockCache.Catalog
import BlockCache.Slot

/-!
Ways to find a block in a pool. A look-up structure is told when a block enters a slot and when it
leaves it. `Scan` ignores that and searches the slots; `KeyMap` keeps a map from blocks to slots and
never looks at the slots; `Observed` writes down what it is told.
-/

namespace BlockCache

/-- A structure by which a pool finds its blocks. -/
class Lookup (ι : Type) where
  /-- The slot of a block. -/
  find : ι → Array Slot → BlockId → Option Nat
  /-- A block entered a slot. -/
  entered : ι → Nat → BlockId → ι
  /-- A block left its slot. -/
  left : ι → Nat → BlockId → ι

/-- Search of the slots from the first on. -/
structure Scan where
  deriving DecidableEq, Repr

instance : Lookup Scan where
  find _ slots key := slots.findIdx? fun slot => slot.holds key
  entered scan _ _ := scan
  left scan _ _ := scan

/-- A map from blocks to slots. -/
structure KeyMap where
  slotOf : Catalog BlockId Nat
  deriving Repr

namespace KeyMap

def empty : KeyMap := ⟨Catalog.empty⟩

end KeyMap

instance : Lookup KeyMap where
  find map _ key := map.slotOf.get? key
  entered map slot key := ⟨map.slotOf.insert key slot⟩
  left map _ key := ⟨map.slotOf.erase key⟩

/-- What a look-up structure is told. -/
inductive Notice where
  | entered (slot : Nat) (key : BlockId)
  | left (slot : Nat) (key : BlockId)
  deriving DecidableEq, Repr

/-- A look-up structure with the notices it was given, in their order. -/
structure Observed (ι : Type) where
  inner : ι
  notices : List Notice

instance {ι : Type} [Lookup ι] : Lookup (Observed ι) where
  find o slots key := Lookup.find o.inner slots key
  entered o slot key := ⟨Lookup.entered o.inner slot key, o.notices ++ [.entered slot key]⟩
  left o slot key := ⟨Lookup.left o.inner slot key, o.notices ++ [.left slot key]⟩

end BlockCache
