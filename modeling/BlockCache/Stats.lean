import BlockCache.Record

/-!
What a pool counts: look-ups and how they ended, blocks read in, evictions, and blocks written back
or not.
-/

namespace BlockCache

structure Stats where
  accesses : Nat := 0
  hits : Nat := 0
  misses : Nat := 0
  fills : Nat := 0
  evictions : Nat := 0
  writeBacks : Nat := 0
  writeBackFailures : Nat := 0
  deriving DecidableEq, Repr

namespace Stats

/-- A look-up that found its block. -/
def hit (s : Stats) : Stats := { s with accesses := s.accesses + 1, hits := s.hits + 1 }

/-- A look-up that did not find its block. -/
def miss (s : Stats) : Stats := { s with accesses := s.accesses + 1, misses := s.misses + 1 }

/-- A block read into a slot. -/
def filled (s : Stats) : Stats := { s with fills := s.fills + 1 }

/-- A slot freed for another block. -/
def evicted (s : Stats) : Stats := { s with evictions := s.evictions + 1 }

/-- An attempt to write a block back, which succeeded or not. -/
def wroteBack (s : Stats) (succeeded : Bool) : Stats :=
  if succeeded then { s with writeBacks := s.writeBacks + 1 }
  else { s with writeBackFailures := s.writeBackFailures + 1 }

/-- The part of the look-ups that found their block, both counters being rounded to a float first;
zero before the first look-up. -/
def hitRate (s : Stats) : Float :=
  if s.accesses = 0 then 0 else s.hits.toUInt64.toFloat / s.accesses.toUInt64.toFloat

/-- The counters in the order in which they are listed. -/
def toList (s : Stats) : List Nat :=
  [s.accesses, s.hits, s.misses, s.fills, s.evictions, s.writeBacks, s.writeBackFailures]

def text (s : Stats) : String :=
  recordText "CacheStats"
    [("total_accesses", toString s.accesses), ("hits", toString s.hits),
      ("misses", toString s.misses), ("fills", toString s.fills),
      ("evictions", toString s.evictions), ("writebacks", toString s.writeBacks),
      ("writeback_failures", toString s.writeBackFailures)]

end Stats

end BlockCache
