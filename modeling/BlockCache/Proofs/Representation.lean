import BlockCache.Proofs.Reachable
import Mathlib.Logic.ExistsUnique

/-!
What the slots of a cache stand for in every state that it can reach: however the storage
fails, as long as it gives no two open files one descriptor, every occupied slot holds a block of
exactly one open file, and no block is held twice. A dirty block thus always has an open file to go
back to, and a file that was just opened has no block in the pool.
-/

namespace BlockCache

namespace Cache

variable {σ φ : Type} {c c' : Cache σ φ}

/-- What the slots of a cache stand for. -/
structure Represents (c : Cache σ φ) (slotCount : Nat) : Prop where
  distinct : ∀ {i j : Nat} {s t : Slot} {key : BlockId}, c.pool.slots[i]? = some s →
    c.pool.slots[j]? = some t → s.key = some key → t.key = some key → i = j
  owned_once : ∀ {i : Nat} {s : Slot} {key : BlockId}, c.pool.slots[i]? = some s →
    s.key = some key → ∃! h, ∃ f, c.table.get? h = some f ∧ f.descriptor = key.owner
  dirty_occupied : ∀ {i : Nat} {s : Slot}, c.pool.slots[i]? = some s → s.dirty = true →
    s.key ≠ none
  occupied_iff : ∀ {i : Nat} {s : Slot}, c.pool.slots[i]? = some s →
    (s.key ≠ none ↔ 1 ≤ s.frequency)
  size_block : ∀ {i : Nat} {s : Slot}, c.pool.slots[i]? = some s → s.block.bytes.size = 4096
  size_slots : c.isAllocated = true → c.pool.slots.size = slotCount

theorem Regular.represents (hreg : c.Regular) : c.Represents c.slotCount where
  distinct := hreg.distinct
  owned_once := by
    intro i s key hs hkey
    obtain ⟨h, f, hf, howner⟩ := hreg.owned hs hkey
    refine ⟨h, ⟨f, hf, howner⟩, ?_⟩
    rintro h' ⟨f', hf', howner'⟩
    exact hreg.apart hf' hf (howner'.trans howner.symm)
  dirty_occupied := hreg.dirty_occupied
  occupied_iff := by
    intro i s hs
    refine ⟨hreg.frequency_pos hs, fun hpos hkey => ?_⟩
    rw [Slot.key_eq_none_iff] at hkey
    rw [Slot.frequency, hkey] at hpos
    exact absurd hpos (by decide)
  size_block := fun {_ s} _ => s.block.size_bytes
  size_slots := fun hall => hreg.capacity_eq (of_decide_eq_true hall)

/-- What steps keep besides the order of the cache. -/
structure Kept (slotCount : Nat) (c : Cache σ φ) : Prop where
  slotCount_eq : c.slotCount = slotCount
  owner_found : ∀ key, .evictionFailed key .noOwner ∉ c.journal.toList

theorem kept_new (storage : σ) (slotCount : Nat) (allocator : Allocator) :
    Kept slotCount (Cache.new storage slotCount allocator : Cache σ φ) :=
  ⟨rfl, fun _ hmem => nomatch hmem⟩

variable [Storage σ φ]

/-- No step fails to find the owner of a block that is evicted. -/
theorem Step.owner_found {as : List Action} {new : List Event} (h : Step c as new c')
    (key : BlockId) : .evictionFailed key .noOwner ∉ new := by
  intro hmem
  cases h with
  | report _ hnote => exact Bool.false_ne_true (hnote _ hmem)
  | evictDirty hs hf howner hstore hnew =>
      obtain ⟨-, -, -, hfound⟩ := storeBlock_run hstore
      subst hnew
      rcases List.mem_append.mp hmem with hmem | hmem
      · split at hmem
        · rename_i e herr
          obtain rfl := Option.some.inj herr
          obtain ⟨-, rfl⟩ := Event.evictionFailed.inj (List.mem_singleton.mp hmem)
          exact hfound rfl
        · cases hmem
      · cases List.mem_singleton.mp hmem
  | allocate _ _ hnew | hit _ _ hnew | evictClean _ hnew | fillFailed _ _ _ _ _ hnew
    | overwriteZeros _ _ _ _ _ _ hnew | trimFailed _ _ hnew | bind _ _ _ _ _ hnew | drop _ hnew =>
      subst hnew
      cases List.mem_singleton.mp hmem
  | _ => cases hmem

theorem Reachable.kept {storage : σ} {slotCount : Nat} {allocator : Allocator}
    (h : Reachable IsFresh (Cache.new storage slotCount allocator) c) :
    c.Regular ∧ Kept slotCount c := by
  refine h.induct (fun _ _ hfresh => hfresh) ?_ (regular_new storage slotCount allocator)
    (kept_new storage slotCount allocator)
  intro c c' as new hstep _ hc
  refine ⟨hstep.slotCount_eq.trans hc.slotCount_eq, fun key hmem => ?_⟩
  rw [hstep.journal_eq] at hmem
  rcases List.mem_append.mp hmem with hmem | hmem
  · exact hc.owner_found key hmem
  · exact hstep.owner_found key hmem

/-- A file that was just opened has no block in the pool. -/
theorem openFile_vacant (hreg : c.Regular) {path : String} {flags : OpenFlags} {mode : Nat}
    (hfresh : FreshDescriptor c path flags mode) {h : Handle}
    (hopen : openFile path flags mode c = (.ok h, c')) :
    ∃ f, c'.table.get? h = some f ∧ ∀ {i : Nat} {s : Slot} {key : BlockId},
      c'.pool.slots[i]? = some s → s.key = some key → key.owner ≠ f.descriptor := by
  obtain ⟨new, c₁, hsteps, -, -, ⟨e, hfail, -⟩ | ⟨_, _, _, -, -, hfail, -⟩ |
    ⟨i, file, size, opened, sized, hplace, -, -, -, hfresh₁, hbound⟩⟩ := openFile_spec hfresh
  · rw [hopen] at hfail
    cases hfail
  · rw [hopen] at hfail
    cases hfail
  · rw [hopen] at hbound
    obtain ⟨hh, rfl⟩ := Prod.mk.inj hbound
    obtain rfl := Except.ok.inj hh
    refine ⟨OpenFile.fresh file (Storage.descriptor σ file) size flags, ?_,
      fun hs hkey howner => ?_⟩
    · exact (c₁.table.get?_of_add hplace _ _).trans (if_pos rfl)
    · obtain ⟨h', f', hf', howner'⟩ := (hsteps.regular hreg).owned hs hkey
      exact hfresh₁ h' f' hf' (howner'.trans howner)

/-- In every state that a cache can reach, its slots stand for blocks of its open files, no block
that was evicted was without an owner, and opening a file leaves no block of it in the pool. -/
theorem reachable_represents (storage : σ) (slotCount : Nat) (allocator : Allocator)
    (h : Reachable IsFresh (Cache.new storage slotCount allocator) c) :
    c.Represents slotCount ∧ (∀ key, .evictionFailed key .noOwner ∉ c.journal.toList) ∧
      ∀ (path : String) (flags : OpenFlags) (mode : Nat) (handle : Handle) (c' : Cache σ φ),
        FreshDescriptor c path flags mode → openFile path flags mode c = (.ok handle, c') →
        ∃ f, c'.table.get? handle = some f ∧ ∀ {i : Nat} {s : Slot} {key : BlockId},
          c'.pool.slots[i]? = some s → s.key = some key → key.owner ≠ f.descriptor := by
  obtain ⟨hreg, hkept⟩ := h.kept
  refine ⟨?_, hkept.owner_found, fun path flags mode handle c' hfresh hopen => ?_⟩
  · rw [← hkept.slotCount_eq]
    exact hreg.represents
  · exact openFile_vacant hreg hfresh hopen

/-- The requests of a session in which a block of one file is put out for a block of another. -/
def sharedSlotRequests : List Request :=
  [.openFile "a" OpenFlags.create 0, .write ⟨0⟩ ⟨#[1]⟩, .openFile "b" OpenFlags.create 0,
    .write ⟨1⟩ ⟨#[2]⟩, .close ⟨0⟩]

theorem reachable_represents_sharedSlot :
    let c := (session sharedSlotRequests (Cache.new (Memory.ofFiles Catalog.empty) 1)).2
    Reachable IsFresh (Cache.new (Memory.ofFiles Catalog.empty) 1) c ∧ c.Represents 1 ∧
      ∃ f, (openFile "c" OpenFlags.create 0 c).2.table.get? ⟨0⟩ = some f ∧
        ∀ {i : Nat} {s : Slot} {key : BlockId},
          (openFile "c" OpenFlags.create 0 c).2.pool.slots[i]? = some s → s.key = some key →
          key.owner ≠ f.descriptor := by
  intro c
  have hreach := Memory.reachable_session Catalog.empty 1 .addressable sharedSlotRequests
  obtain ⟨hrepresents, -, hvacant⟩ :=
    reachable_represents (Memory.ofFiles Catalog.empty) 1 .addressable hreach
  have hbelow := Memory.descriptorsBelow_of_reachable hreach
  have hfresh := Memory.isFresh_of_below hbelow (.openFile "c" OpenFlags.create 0)
  have hopen : (openFile "c" OpenFlags.create 0 c).1 = .ok ⟨0⟩ := by decide +kernel
  exact ⟨hreach, hrepresents, hvacant _ _ _ _ _ hfresh (Prod.ext hopen rfl)⟩

end Cache

end BlockCache
