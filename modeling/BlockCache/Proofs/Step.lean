import BlockCache.Cache.Session
import BlockCache.Proofs.Pool
import BlockCache.Proofs.Table

/-!
The steps of a cache. Whatever a call does, it does in small steps, each of which changes one slot,
one open file, or the stored bytes of one file. `Step` lists them, with what has to hold before each
of them and what it reports; `Cache.Steps` are any number of them in a row. What holds of a cache at
all times is shown to be kept by every step.

A step is told with the actions in it, by which the steps that matter for the contents of files are
kept apart from those that only move blocks between the pool and the storage.
-/

namespace BlockCache

/-- What a step means for the contents of the open files. -/
inductive Action where
  /-- The bytes of a file from an offset on are replaced in the pool. -/
  | store (h : Handle) (offset : Nat) (bytes : ByteArray)
  /-- The cursor of a file is moved, and its size may grow. -/
  | move (h : Handle)
  /-- A stored file is cut to its size. -/
  | trim (h : Handle)
  /-- The storage is asked for a file that is not bound to a handle in the end. -/
  | visit (path : String)
  /-- A file is bound to a handle. -/
  | bind (h : Handle) (path : String)
  /-- A handle and its blocks are given up. -/
  | drop (h : Handle)

/-- Whether an event tells of nothing that is lost or opened. -/
def Event.isNote : Event → Bool
  | .evictionFailed .. | .preReadFailed .. | .readFailed .. | .resizeFailed .. | .opened .. => false
  | _ => true

namespace Cache

variable {σ φ : Type} [Storage σ φ]

/-- Whether no slot of the pool holds a block. -/
def Absent (c : Cache σ φ) (key : BlockId) : Prop :=
  ∀ (i : Nat) (s : Slot), c.pool.slots[i]? = some s → s.key ≠ some key

/-- A step of a cache, with the actions in it and what it adds to the journal. -/
inductive Step : Cache σ φ → List Action → List Event → Cache σ φ → Prop where
  | allocate {c : Cache σ φ} {pool : Pool Scan} {new : List Event} (hempty : c.isAllocated = false)
      (hpool : Pool.create c.slotCount Scan.mk c.allocator = .ok pool)
      (hnew : new = [.poolReady c.slotCount]) :
      Step c [] new { c with pool, journal := c.journal ++ new }
  | report {c : Cache σ φ} (new : List Event) (hnote : ∀ e ∈ new, e.isNote = true) :
      Step c [] new { c with journal := c.journal ++ new }
  | hit {c : Cache σ φ} {key : BlockId} {i : Nat} {s : Slot} {new : List Event}
      (hs : c.pool.slots[i]? = some s) (hkey : s.key = some key)
      (hnew : new = [.hit key i s.bump.frequency]) :
      Step c [] new
        { c with
          pool := (c.pool.modifySlot i Slot.bump).count Stats.hit
          journal := c.journal ++ new }
  | miss {c : Cache σ φ} {key : BlockId} (habsent : c.Absent key) :
      Step c [] [] { c with pool := c.pool.count Stats.miss }
  | evictClean {c : Cache σ φ} {block : Block} {tenant : Tenant} {new : List Event}
      (hs : c.pool.slots[c.pool.victim]? = some ⟨block, false, some tenant⟩)
      (hnew : new = [.evicted c.pool.victim tenant.key tenant.frequency false]) :
      Step c [] new
        { c with
          pool := c.pool.evict c.pool.victim ⟨tenant.key, tenant.frequency, none⟩
          journal := c.journal ++ new }
  /-- A dirty block is stored before its slot is freed; it is lost if that fails. -/
  | evictDirty {c : Cache σ φ} {block : Block} {tenant : Tenant} {h : Handle} {f : OpenFile φ}
      {outcome : Except Error Unit} {storage : σ} {new : List Event}
      (hs : c.pool.slots[c.pool.victim]? = some ⟨block, true, some tenant⟩)
      (hf : c.table.get? h = some f) (howner : f.descriptor = tenant.key.owner)
      (hstore : storeBlock f.file tenant.key block c.storage = (outcome, storage))
      (hnew : new = Pool.Room.events
        ⟨c.pool.victim, some ⟨tenant.key, tenant.frequency, some outcome⟩⟩) :
      Step c [] new
        { c with
          storage
          pool := c.pool.evict c.pool.victim ⟨tenant.key, tenant.frequency, some outcome⟩
          journal := c.journal ++ new }
  | fill {c : Cache σ φ} {h : Handle} {f : OpenFile φ} {index i n : Nat} {s : Slot} {block : Block}
      {storage : σ} (hf : c.table.get? h = some f) (hs : c.pool.slots[i]? = some s)
      (hfree : s.key = none) (habsent : c.Absent ⟨f.descriptor, index⟩)
      (hread : Storage.readAt f.file s.block (BlockId.offset ⟨f.descriptor, index⟩) c.storage =
        ((.ok n, block), storage)) :
      Step c [] []
        { c with
          storage
          pool := ((c.pool.modifySlot i (·.setBlock (block.zeroFrom n))).assign i
            ⟨f.descriptor, index⟩).count Stats.filled }
  | fillFailed {c : Cache σ φ} {h : Handle} {f : OpenFile φ} {index i : Nat} {s : Slot}
      {block : Block} {fault : Fault} {storage : σ} {new : List Event}
      (hf : c.table.get? h = some f) (hs : c.pool.slots[i]? = some s) (hfree : s.key = none)
      (habsent : c.Absent ⟨f.descriptor, index⟩)
      (hread : Storage.readAt f.file s.block (BlockId.offset ⟨f.descriptor, index⟩) c.storage =
        ((.error fault, block), storage))
      (hnew : new = [.readFailed ⟨f.descriptor, index⟩ (.storage fault)]) :
      Step c [] new
        { c with
          storage
          pool := c.pool.modifySlot i (·.setBlock block)
          journal := c.journal ++ new }
  /-- Bytes enter a block that the pool holds. -/
  | overwrite {c : Cache σ φ} {h : Handle} {f : OpenFile φ} {index i start : Nat} {s : Slot}
      {bytes : ByteArray} (hf : c.table.get? h = some f) (hs : c.pool.slots[i]? = some s)
      (hkey : s.key = some ⟨f.descriptor, index⟩) (hfits : start + bytes.size ≤ blockSize) :
      Step c [.store h (index * blockSize + start) bytes] []
        { c with pool := c.pool.write i start bytes }
  /-- A block is taken into the pool with all its bytes new. -/
  | replace {c : Cache σ φ} {h : Handle} {f : OpenFile φ} {index i : Nat} {s : Slot}
      {bytes : ByteArray} (hf : c.table.get? h = some f) (hs : c.pool.slots[i]? = some s)
      (hfree : s.key = none) (habsent : c.Absent ⟨f.descriptor, index⟩)
      (hsize : bytes.size = blockSize) :
      Step c [.store h (index * blockSize) bytes] []
        { c with pool := (c.pool.assign i ⟨f.descriptor, index⟩).write i 0 bytes }
  /-- Bytes enter a block that could not be read in; its other bytes count as zeros. -/
  | overwriteZeros {c : Cache σ φ} {h : Handle} {f : OpenFile φ} {index i start : Nat} {s : Slot}
      {bytes : ByteArray} {block : Block} {fault : Fault} {storage : σ} {new : List Event}
      (hf : c.table.get? h = some f) (hs : c.pool.slots[i]? = some s) (hfree : s.key = none)
      (habsent : c.Absent ⟨f.descriptor, index⟩) (hfits : start + bytes.size ≤ blockSize)
      (hread : Storage.readAt f.file s.block (BlockId.offset ⟨f.descriptor, index⟩) c.storage =
        ((.error fault, block), storage))
      (hnew : new = [.preReadFailed ⟨f.descriptor, index⟩ (.storage fault)]) :
      Step c [.store h (index * blockSize + start) bytes] new
        { c with
          storage
          pool := (((c.pool.modifySlot i (·.setBlock (Buffer.zero blockSize))).assign i
            ⟨f.descriptor, index⟩).count Stats.filled).write i start bytes
          journal := c.journal ++ new }
  /-- A dirty block is stored and is clean if that succeeds. -/
  | flush {c : Cache σ φ} {block : Block} {tenant : Tenant} {i : Nat} {h : Handle} {f : OpenFile φ}
      {outcome : Except Error Unit} {storage : σ}
      (hs : c.pool.slots[i]? = some ⟨block, true, some tenant⟩) (hf : c.table.get? h = some f)
      (howner : f.descriptor = tenant.key.owner)
      (hstore : storeBlock f.file tenant.key block c.storage = (outcome, storage)) :
      Step c [] [] { c with storage, pool := c.pool.settle ⟨i, tenant.key, outcome⟩ }
  | sync {c : Cache σ φ} {h : Handle} {f : OpenFile φ} {outcome : Except Fault Unit} {storage : σ}
      (hf : c.table.get? h = some f) (hsync : Storage.sync f.file c.storage = (outcome, storage)) :
      Step c [] [] { c with storage }
  | trim {c : Cache σ φ} {h : Handle} {f : OpenFile φ} {storage : σ} (hf : c.table.get? h = some f)
      (hset : Storage.setLen f.file f.size c.storage = (.ok (), storage)) :
      Step c [.trim h] [] { c with storage }
  | trimFailed {c : Cache σ φ} {h : Handle} {f : OpenFile φ} {fault : Fault} {storage : σ}
      {new : List Event} (hf : c.table.get? h = some f)
      (hset : Storage.setLen f.file f.size c.storage = (.error fault, storage))
      (hnew : new = [.resizeFailed f.descriptor f.size (.storage fault)]) :
      Step c [] new { c with storage, journal := c.journal ++ new }
  | move {c : Cache σ φ} {h : Handle} {f : OpenFile φ} (g : OpenFile φ → OpenFile φ)
      (hf : c.table.get? h = some f) (hfile : (g f).file = f.file)
      (hdescriptor : (g f).descriptor = f.descriptor) (hflags : (g f).flags = f.flags)
      (hsize : f.size ≤ (g f).size) :
      Step c [.move h] [] { c with table := c.table.modify h g }
  | refuse {c : Cache σ φ} {path : String} {flags : OpenFlags} {mode : Nat} {fault : Fault}
      {storage : σ}
      (hopen : Storage.openFile path flags mode c.storage = (.error fault, storage)) :
      Step c [.visit path] [] { c with storage }
  /-- A file whose size cannot be told is given up again. -/
  | abandon {c : Cache σ φ} {path : String} {flags : OpenFlags} {mode : Nat} {file : φ}
      {fault : Fault} {opened sized : σ}
      (hopen : Storage.openFile path flags mode c.storage = (.ok file, opened))
      (hsize : Storage.size file opened = (.error fault, sized)) :
      Step c [.visit path] [] { c with storage := (Storage.close file sized).2 }
  | bind {c : Cache σ φ} {path : String} {flags : OpenFlags} {mode : Nat} {file : φ} {i size : Nat}
      {opened sized : σ} {new : List Event} (hplace : c.table.lowestFree = some i)
      (hallocated : c.isAllocated = true)
      (hopen : Storage.openFile path flags mode c.storage = (.ok file, opened))
      (hsize : Storage.size file opened = (.ok size, sized))
      (hfresh : ∀ h f, c.table.get? h = some f → f.descriptor ≠ Storage.descriptor σ file)
      (hnew : new = [.opened path i (Storage.descriptor σ file) size]) :
      Step c [.bind ⟨i⟩ path] new
        { c with
          storage := sized
          table := ⟨c.table.entries.modify i fun _ =>
            some (OpenFile.fresh file (Storage.descriptor σ file) size flags)⟩
          journal := c.journal ++ new }
  | drop {c : Cache σ φ} {h : Handle} {f : OpenFile φ} {new : List Event}
      (hf : c.table.get? h = some f)
      (hnew : new = [.closed h.index f.descriptor (c.pool.forget f.descriptor).1]) :
      Step c [.drop h] new
        { c with
          storage := (Storage.close f.file c.storage).2
          pool := (c.pool.forget f.descriptor).2
          table := c.table.remove h
          journal := c.journal ++ new }

/-- Steps in a row, with their actions and all they add to the journal. -/
inductive Steps : Cache σ φ → List Action → List Event → Cache σ φ → Prop where
  | nil (c : Cache σ φ) : Steps c [] [] c
  | cons {c c' c'' : Cache σ φ} {as bs : List Action} {new news : List Event}
      (hstep : Step c as new c') (hrest : Steps c' bs news c'') :
      Steps c (as ++ bs) (new ++ news) c''

namespace Steps

variable {c c' c'' : Cache σ φ} {as bs : List Action} {new news : List Event}

theorem single (h : Step c as new c') : Steps c as new c' := by
  have hsteps := Steps.cons h (.nil c')
  rwa [List.append_nil, List.append_nil] at hsteps

theorem append (h : Steps c as new c') (h' : Steps c' bs news c'') :
    Steps c (as ++ bs) (new ++ news) c'' := by
  induction h with
  | nil => exact h'
  | cons hstep _ ih =>
      rw [List.append_assoc, List.append_assoc]
      exact .cons hstep (ih h')

/-- What every step keeps, any number of steps keeps. -/
theorem induct {P : Cache σ φ → Prop} (hstep : ∀ {c c' as new}, Step c as new c' → P c → P c')
    (h : Steps c as new c') (hc : P c) : P c' := by
  induction h with
  | nil => exact hc
  | cons hs _ ih => exact ih (hstep hs hc)

end Steps

end Cache

end BlockCache
