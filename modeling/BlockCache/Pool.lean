import BlockCache.Event
import BlockCache.Pool.Lookup
import BlockCache.Stats

/-!
The pool of slots. A block is looked up by its key; for a block that is not there room is made in a
slot, whose own block may have to be written back first. The slot is then filled from the storage,
or assigned to the block as it is when all the bytes of the block are about to be written. How
blocks are read and written is left to the caller: each operation that needs it takes a function
that works on a state `β` of the caller's own.

Operations answer with a report, from which the events of the operation are told.
-/

namespace BlockCache

/-- A pool: its slots, the structure by which blocks are found in them, and its counters. -/
structure Pool (ι : Type) where
  slots : Array Slot
  index : ι
  stats : Stats

/-- What memory is granted for a number of slots: first the table of them, and then their blocks. -/
structure Allocator where
  table : Nat → Bool
  blocks : Nat → Bool

namespace Allocator

/-- The allocator that grants all that can be addressed. -/
def addressable : Allocator := ⟨fun count => decide (count * blockSize ≤ maxOffset), fun _ => true⟩

/-- Why a pool cannot have a number of slots, if it cannot. -/
def refusal (allocator : Allocator) (count : Nat) : Option Error :=
  if count = 0 then some .emptyPool
  else if !allocator.table count then some .poolTooLarge
  else if !allocator.blocks count then some .noBlock
  else none

end Allocator

/-- Whether an occupied slot makes room the sooner the more often its block was asked for. -/
def mostFrequentFirst : Bool := true

namespace Pool

variable {ι β : Type} [Lookup ι]

def unallocated (index : ι) : Pool ι := ⟨#[], index, {}⟩

/-- A pool with `capacity` blank slots. -/
def create (capacity : Nat) (index : ι) (allocator : Allocator := .addressable) :
    Except Error (Pool ι) :=
  match allocator.refusal capacity with
  | some e => .error e
  | none => .ok ⟨Array.replicate capacity Slot.blank, index, {}⟩

/-! ### What a pool holds -/

def capacity (pool : Pool ι) : Nat := pool.slots.size

def occupiedCount (pool : Pool ι) : Nat := pool.slots.countP Slot.isOccupied

def dirtyCount (pool : Pool ι) : Nat := pool.slots.countP (·.dirty)

def holds (pool : Pool ι) (key : BlockId) : Bool := pool.slots.any fun slot => slot.holds key

def tenantAt (pool : Pool ι) (slot : Nat) : Option Tenant := pool.slots[slot]?.bind (·.tenant)

def frequencyAt (pool : Pool ι) (slot : Nat) : Nat :=
  match pool.slots[slot]? with
  | some s => s.frequency
  | none => 0

def blockAt (pool : Pool ι) (slot : Nat) : Block :=
  match pool.slots[slot]? with
  | some s => s.block
  | none => Buffer.zero blockSize

def text (pool : Pool ι) : String :=
  recordText "SlotPool"
    [("capacity", toString pool.capacity), ("len", toString pool.occupiedCount),
      ("dirty_count", toString pool.dirtyCount), ("stats", pool.stats.text)]

/-! ### Changes of one slot -/

def modifySlot (pool : Pool ι) (slot : Nat) (f : Slot → Slot) : Pool ι :=
  match pool with
  | ⟨slots, index, stats⟩ => ⟨slots.modify slot f, index, stats⟩

def count (pool : Pool ι) (f : Stats → Stats) : Pool ι :=
  match pool with
  | ⟨slots, index, stats⟩ => ⟨slots, index, f stats⟩

/-- The pool with the bytes of a slot replaced from `start` on and the slot dirty. -/
def write (pool : Pool ι) (slot start : Nat) (bytes : ByteArray) : Pool ι :=
  pool.modifySlot slot fun s => s.write start bytes

/-- The same, if there is such a slot and all the bytes fall in its block. -/
def write? (pool : Pool ι) (slot start : Nat) (bytes : ByteArray) : Option (Pool ι) :=
  if slot < pool.capacity ∧ start + bytes.size ≤ blockSize then some (pool.write slot start bytes)
  else none

/-- The bytes of a range of a slot, if there is such a slot and the range falls in its block. -/
def read? (pool : Pool ι) (slot start length : Nat) : Option ByteArray :=
  pool.slots[slot]?.bind fun s => s.block.slice? start length

/-- The pool with a slot dirty, if there is such a slot. -/
def setDirty? (pool : Pool ι) (slot : Nat) : Option (Pool ι) :=
  if slot < pool.capacity then some (pool.modifySlot slot Slot.dirtied) else none

/-- The pool with a slot taken by a block. -/
def assign (pool : Pool ι) (slot : Nat) (key : BlockId) : Pool ι :=
  match pool with
  | ⟨slots, index, stats⟩ =>
      ⟨slots.modify slot (·.assign key), Lookup.entered index slot key, stats⟩

/-- The pool with a slot freed from its block. -/
def vacate (pool : Pool ι) (slot : Nat) (key : BlockId) : Pool ι :=
  match pool with
  | ⟨slots, index, stats⟩ =>
      ⟨slots.modify slot Slot.vacated, Lookup.left index slot key, stats⟩

/-! ### Looking up -/

/-- A successful look-up: the slot, and how often its block was asked for, this time included. -/
structure Hit where
  slot : Nat
  frequency : Nat
  deriving DecidableEq, Repr

/-- Looks a block up, and counts how that ended. -/
def lookup (key : BlockId) (pool : Pool ι) : Option Hit × Pool ι :=
  match Lookup.find pool.index pool.slots key with
  | some slot =>
      let pool := (pool.modifySlot slot Slot.bump).count Stats.hit
      (some ⟨slot, pool.frequencyAt slot⟩, pool)
  | none => (none, pool.count Stats.miss)

def Hit.events (key : BlockId) (hit : Hit) : List Event := [.hit key hit.slot hit.frequency]

/-! ### Making room -/

/-- Whether a slot asked for `a` times makes room before one asked for `b` times. -/
def goesBefore (a b : Nat) : Bool := if mostFrequentFirst then b < a else a < b

/-- The frequency at which an occupied slot makes room before all the others. -/
def evictedFrequency (slots : Array Slot) : Nat :=
  slots.foldl (fun best s => if goesBefore s.frequency best then s.frequency else best)
    ((slots[0]?.map Slot.frequency).getD 0)

/-- The slot that makes room: the first free one, and if there is none the first of those that go
before all others. -/
def victim (pool : Pool ι) : Nat :=
  match pool.slots.findIdx? Slot.isFree with
  | some slot => slot
  | none =>
      let frequency := evictedFrequency pool.slots
      (pool.slots.findIdx? fun s => s.frequency == frequency).getD 0

/-- What was put out of a slot: the block, how often it was asked for, and how writing it back ended
if it was dirty. -/
structure Eviction where
  key : BlockId
  frequency : Nat
  writeBack : Option (Except Error Unit)

/-- A slot that was made free, and what was put out of it. -/
structure Room where
  slot : Nat
  evicted : Option Eviction

def succeeded : Except Error Unit → Bool
  | .ok () => true
  | .error _ => false

/-- The pool after a block was put out of its slot. -/
def evict (pool : Pool ι) (slot : Nat) (eviction : Eviction) : Pool ι :=
  let pool := (pool.vacate slot eviction.key).count Stats.evicted
  match eviction.writeBack with
  | some outcome => pool.count (·.wroteBack (succeeded outcome))
  | none => pool

/-- Makes a slot free. A dirty block is written back first; if that fails its bytes are lost. -/
def makeRoom (writeBack : BlockId → Block → StateM β (Except Error Unit)) (pool : Pool ι) :
    StateM β (Room × Pool ι) := do
  let slot := pool.victim
  match pool.slots[slot]? with
  | some ⟨block, dirty, some tenant⟩ =>
      let outcome ← if dirty then some <$> writeBack tenant.key block else pure none
      let eviction : Eviction := ⟨tenant.key, tenant.frequency, outcome⟩
      pure (⟨slot, some eviction⟩, pool.evict slot eviction)
  | _ => pure (⟨slot, none⟩, pool)

def Room.events (r : Room) : List Event :=
  match r.evicted with
  | none => []
  | some e =>
      let failure : List Event :=
        match e.writeBack with
        | some (.error error) => [.evictionFailed e.key error]
        | _ => []
      failure ++ [.evicted r.slot e.key e.frequency e.writeBack.isSome]

/-! ### Filling a slot -/

/-- Fills a free slot with a block that is read in; what the reader does not deliver is zero. If the
reader fails the slot stays free, with whatever bytes the reader left. -/
def fill (slot : Nat) (key : BlockId) (read : Block → StateM β (Except Error Nat × Block))
    (pool : Pool ι) : StateM β (Except Error Unit × Pool ι) := do
  let (outcome, block) ← read (pool.blockAt slot)
  match outcome with
  | .ok n =>
      let pool := (pool.modifySlot slot (·.setBlock (block.zeroFrom n))).assign slot key
      pure (.ok (), pool.count Stats.filled)
  | .error e => pure (.error e, pool.modifySlot slot (·.setBlock block))

/-- Fills a free slot with a block that is read in, or with zeros if the reader fails. The answer is
the reader's error. -/
def fillOrZero (slot : Nat) (key : BlockId) (read : Block → StateM β (Except Error Nat × Block))
    (pool : Pool ι) : StateM β (Option Error × Pool ι) := do
  let (outcome, block) ← read (pool.blockAt slot)
  let (failure, block) :=
    match outcome with
    | .ok n => (none, block.zeroFrom n)
    | .error e => (some e, Buffer.zero blockSize)
  let pool := (pool.modifySlot slot (·.setBlock block)).assign slot key
  pure (failure, pool.count Stats.filled)

/-! ### Writing back and letting go -/

structure DirtyBlock where
  slot : Nat
  key : BlockId
  block : Block

/-- An attempt to write the block of a slot back. -/
structure WriteAttempt where
  slot : Nat
  key : BlockId
  outcome : Except Error Unit

/-- The dirty blocks of an owner, in the order of their slots. -/
def dirtyBlocks (pool : Pool ι) (owner : Descriptor) : List DirtyBlock :=
  pool.slots.toList.zipIdx.filterMap fun
    | (⟨block, true, some tenant⟩, slot) =>
        if tenant.key.owner = owner then some ⟨slot, tenant.key, block⟩ else none
    | _ => none

/-- Writes blocks back, one after the other, going on after a failure. -/
def writeAll (writeBack : BlockId → Block → StateM β (Except Error Unit)) :
    List DirtyBlock → StateM β (List WriteAttempt)
  | [] => pure []
  | dirty :: rest => do
      let outcome ← writeBack dirty.key dirty.block
      let attempts ← writeAll writeBack rest
      pure (⟨dirty.slot, dirty.key, outcome⟩ :: attempts)

/-- The pool after an attempt to write a block back: a block that was written is clean. -/
def settle (pool : Pool ι) (attempt : WriteAttempt) : Pool ι :=
  let pool := pool.count (·.wroteBack (succeeded attempt.outcome))
  if succeeded attempt.outcome then pool.modifySlot attempt.slot Slot.cleaned else pool

/-- The attempts to write the dirty blocks of an owner back. -/
structure Flush where
  owner : Descriptor
  attempts : List WriteAttempt

namespace Flush

def written (f : Flush) : Nat := f.attempts.countP fun a => succeeded a.outcome

def failed (f : Flush) : Nat := f.attempts.countP fun a => !succeeded a.outcome

/-- What writing back reports: each failure, then the numbers. -/
def events (f : Flush) : List Event :=
  (f.attempts.filterMap fun a =>
    match a.outcome with
    | .ok () => none
    | .error e => some (.writeBackFailed a.key e)) ++ [.flushed f.owner f.written f.failed]

end Flush

/-- Writes every dirty block of an owner back. -/
def flush (owner : Descriptor) (writeBack : BlockId → Block → StateM β (Except Error Unit))
    (pool : Pool ι) : StateM β (Flush × Pool ι) := do
  let attempts ← writeAll writeBack (pool.dirtyBlocks owner)
  pure (⟨owner, attempts⟩, attempts.foldl settle pool)

/-- The blocks of an owner with their slots, in the order of the slots. -/
def residents (pool : Pool ι) (owner : Descriptor) : List (Nat × BlockId) :=
  pool.slots.toList.zipIdx.filterMap fun
    | (⟨_, _, some tenant⟩, slot) =>
        if tenant.key.owner = owner then some (slot, tenant.key) else none
    | _ => none

/-- Frees every slot of an owner, dirty or not, and tells how many there were. -/
def forget (owner : Descriptor) (pool : Pool ι) : Nat × Pool ι :=
  let gone := pool.residents owner
  (gone.length, gone.foldl (fun pool resident => pool.vacate resident.1 resident.2) pool)

end Pool

end BlockCache
