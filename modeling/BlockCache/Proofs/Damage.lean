import BlockCache.Proofs.Contents

/-!
How far damage goes when the storage fails. A run is recorded together with what its files should
hold: the bytes stored when a file was opened, overwritten by every write that succeeded. Whatever
calls of the storage fail, and whatever failed writes leave behind, a read that succeeds delivers
these bytes, except in blocks that are damaged: those that could not be written back when they were
evicted, and those that could not be read in before a part of them was written.
-/

namespace BlockCache

namespace Cache

variable {σ φ : Type} [Storage σ φ] {disk : Disk σ φ} {image : Image} {c c' : Cache σ φ}

/-- The damaged blocks of the open files, as the journal tells them. -/
def damaged (c : Cache σ φ) : List BlockId := lostAfter [] c.journal.toList

/-- The states a cache can reach, with what the open files should hold there. A file that is opened
has a descriptor of its own and is not open yet. -/
inductive Recorded (disk : Disk σ φ) (first : Cache σ φ) : Cache σ φ → Image → Prop where
  | first (image : Image) : Recorded disk first first image
  | serve {c : Cache σ φ} {image : Image} (request : Request) (hc : Recorded disk first c image)
      (hadmits : IsAdmitted disk c request) :
      Recorded disk first (serve request c).2 (recorded disk image c request)

theorem Recorded.settled {storage : σ} {slotCount : Nat} {allocator : Allocator}
    (hs : disk.Sound storage)
    (h : Recorded disk (Cache.new storage slotCount allocator) c image) :
    Settled disk image c.damaged c := by
  induction h with
  | first image => exact settled_new disk hs slotCount allocator image
  | serve request _ hadmits ih =>
      obtain ⟨as, new, hsteps, hc'⟩ := serve_settled ih request hadmits
      rw [damaged, hsteps.journal_eq, lostAfter_append]
      exact hc'

theorem Recorded.reachable {first : Cache σ φ} (h : Recorded disk first c image) :
    Reachable IsFresh first c := by
  induction h with
  | first => exact .first
  | serve request _ hadmits ih => exact .serve request ih hadmits.1

/-- A read that succeeds delivers the bytes that its file should hold, but for damaged blocks. -/
theorem Recorded.read_kept {storage : σ} {slotCount : Nat} {allocator : Allocator}
    (hs : disk.Sound storage)
    (hrun : Recorded disk (Cache.new storage slotCount allocator) c image) {n count : Nat}
    {h : Handle} {f : OpenFile φ} {buffer buffer' : Buffer n} (hf : c.table.get? h = some f)
    (hread : read h buffer c = ((.ok count, buffer'), c')) :
    ∀ i, i < count → ⟨f.descriptor, blockOf (f.cursor + i)⟩ ∉ c'.damaged →
      buffer'.byteAt i = image h (f.cursor + i) := by
  obtain ⟨as, new, hsteps, -, -, hbytes⟩ := (hrun.settled hs).read h buffer
  rw [hread] at hsteps hbytes
  have hdamaged : c'.damaged = lostAfter c.damaged new := by
    rw [damaged, hsteps.journal_eq, lostAfter_append]
    rfl
  intro i hi hkept
  rw [hdamaged] at hkept
  exact (hbytes f count hf rfl).1 i hi hkept

/-- Every byte that a successful read delivers is the one its file should hold, unless its block is
damaged. If neither an eviction nor a read before a partial write failed, all of them are, whatever
else did. -/
theorem read_recorded {storage : σ} {slotCount : Nat} {allocator : Allocator}
    (hs : disk.Sound storage)
    (hrun : Recorded disk (Cache.new storage slotCount allocator) c image) {n count : Nat}
    {h : Handle} {f : OpenFile φ} {buffer buffer' : Buffer n} (hf : c.table.get? h = some f)
    (hread : read h buffer c = ((.ok count, buffer'), c')) :
    (∀ i, i < count → ⟨f.descriptor, blockOf (f.cursor + i)⟩ ∉ c'.damaged →
      buffer'.byteAt i = image h (f.cursor + i)) ∧
    ((∀ e ∈ c'.journal.toList, e.isDamage = false) → ∀ i, i < count →
      buffer'.byteAt i = image h (f.cursor + i)) := by
  refine ⟨hrun.read_kept hs hf hread, fun hnone i hi => hrun.read_kept hs hf hread i hi ?_⟩
  rw [damaged, lostAfter_nil hnone]
  exact List.not_mem_nil

/-- A cache and what its files should hold after requests. -/
def recordAll (disk : Disk σ φ) : List Request → Cache σ φ × Image → Cache σ φ × Image
  | [], state => state
  | request :: rest, (c, image) =>
      recordAll disk rest ((serve request c).2, recorded disk image c request)

/-- Two blocks are written over files in memory that take no writes, in a cache of one slot: the
first block is lost when the second one takes its slot. -/
def spilled : Cache Memory Memory.File × Image :=
  recordAll Memory.disk
    [.openFile "a" OpenFlags.create 0, .write ⟨0⟩ ⟨#[1]⟩, .seek ⟨0⟩ (.start blockSize),
      .write ⟨0⟩ ⟨#[2]⟩, .seek ⟨0⟩ (.start blockSize)]
    (Cache.new { Memory.ofFiles Catalog.empty with failing := ⟨false, true, false, false⟩ } 1,
      fun _ _ => 0)

theorem read_recorded_spilled :
    spilled.1.damaged = [⟨3, 0⟩] ∧ (read ⟨0⟩ (Buffer.zero 1) spilled.1).1.1 = .ok 1 ∧
      (read ⟨0⟩ (Buffer.zero 1) spilled.1).1.2.byteAt 0 = spilled.2 ⟨0⟩ blockSize := by
  have hrun : Recorded Memory.disk _ spilled.1 spilled.2 :=
    .serve _ (.serve _ (.serve _ (.serve _ (.serve _ (.first _) (isAdmitted_new _ _ _ _ _))
      ⟨trivial, trivial⟩) ⟨trivial, trivial⟩) ⟨trivial, trivial⟩) ⟨trivial, trivial⟩
  have hcursor : (spilled.1.table.get? ⟨0⟩).map (fun f => (f.descriptor, f.cursor)) =
      some (3, blockSize) := by decide +kernel
  obtain ⟨f, hf, hat⟩ := Option.map_eq_some_iff.mp hcursor
  obtain ⟨hdescriptor, hcursor⟩ := Prod.mk.inj hat
  have hcount : (read ⟨0⟩ (Buffer.zero 1) spilled.1).1.1 = .ok 1 := by decide +kernel
  have hdamaged : (read ⟨0⟩ (Buffer.zero 1) spilled.1).2.damaged = [⟨3, 0⟩] := by decide +kernel
  refine ⟨by decide +kernel, hcount, ?_⟩
  rcases hread : read ⟨0⟩ (Buffer.zero 1) spilled.1 with ⟨⟨outcome, buffer⟩, c'⟩
  rw [hread] at hcount hdamaged
  obtain rfl : outcome = .ok 1 := hcount
  have hbyte := (read_recorded trivial hrun hf hread).1 0 Nat.one_pos
  rw [hdescriptor, hcursor, hdamaged] at hbyte
  exact hbyte (by decide)

end Cache

end BlockCache
