import BlockCache.Proofs.Closing
import BlockCache.Storage.Scripted

/-!
What a sync attempts and what it reports. Every dirty block of the file is stored by one call, in
the order of the slots and whatever became of those before it; then the file is made durable, and
only if that succeeded it is cut to its size. A block is clean afterwards just if all of it was
taken, and the sync succeeds just if every block is and the file is durable.
-/

namespace BlockCache

/-- What it means for a block that the storage answered as it did: anything but all of the block
taken is a failure. -/
def storeOutcome : Except Fault Nat → Except Error Unit
  | .ok n => if n = blockSize then .ok () else .error .shortWrite
  | .error fault => .error (.storage fault)

theorem succeeded_storeOutcome (answer : Except Fault Nat) :
    Pool.succeeded (storeOutcome answer) = true ↔ answer = .ok blockSize := by
  cases answer with
  | error fault => simp [storeOutcome, Pool.succeeded]
  | ok n => by_cases hn : n = blockSize <;> simp [storeOutcome, Pool.succeeded, hn]

/-- A dirty block that was to be stored, and what the storage answered. -/
structure StoreAttempt where
  dirty : Pool.DirtyBlock
  answer : Except Fault Nat

namespace StoreAttempt

/-- The call of the storage, in the file of the block. -/
def call {φ : Type} (file : φ) (a : StoreAttempt) : Call φ :=
  .writeAt file a.dirty.key.offset a.dirty.block.bytes a.answer

/-- What the pool is told of the attempt. -/
def result (a : StoreAttempt) : Pool.WriteAttempt :=
  ⟨a.dirty.slot, a.dirty.key, storeOutcome a.answer⟩

end StoreAttempt

namespace Pool

variable {ι : Type} {pool : Pool ι} {owner : Descriptor}

theorem slot_of_mem_dirtyBlocks {d : DirtyBlock} (hd : d ∈ pool.dirtyBlocks owner) :
    ∃ s, pool.slots[d.slot]? = some s ∧ s.dirty = true ∧ s.ownedBy owner = true ∧
      s.key = some d.key ∧ s.block = d.block := by
  obtain ⟨tenant, hs, hkey, howner⟩ := pool.mem_dirtyBlocks.mp hd
  have howned : Slot.ownedBy ⟨d.block, true, some tenant⟩ owner = true :=
    (Slot.ownedBy_iff _ _).mpr ⟨tenant.key, rfl, hkey ▸ howner⟩
  exact ⟨_, hs, rfl, howned, congrArg some hkey, rfl⟩

theorem exists_mem_dirtyBlocks {i : Nat} {s : Slot} (hs : pool.slots[i]? = some s)
    (hdirty : s.dirty = true) (howned : s.ownedBy owner = true) :
    ∃ d ∈ pool.dirtyBlocks owner, d.slot = i := by
  obtain ⟨block, dirty, tenant⟩ := s
  obtain rfl : dirty = true := hdirty
  obtain ⟨key, hkey, howner⟩ := (Slot.ownedBy_iff _ owner).mp howned
  obtain ⟨tenant, rfl, rfl⟩ := Option.map_eq_some_iff.mp hkey
  exact ⟨⟨i, tenant.key, block⟩, pool.mem_dirtyBlocks.mpr ⟨tenant, hs, rfl, howner⟩, rfl⟩

end Pool

/-! ### The calls of the storage -/

namespace Cache

variable {σ φ : Type} [Storage σ φ] {h : Handle} {f : OpenFile φ}

theorem storeBlock_apply (file : φ) (key : BlockId) (block : Block) (s : σ) :
    storeBlock file key block s =
      (storeOutcome (Storage.writeAt file block key.offset s).1,
        (Storage.writeAt file block key.offset s).2) := by
  rw [storeBlock, bind_apply]
  rcases Storage.writeAt file block key.offset s with ⟨_ | n, s'⟩ <;> rfl

/-- Each of the blocks is stored by one call, whatever became of those before it. -/
theorem writeAll_attempts (file : φ) (dirty : List Pool.DirtyBlock) (s : Traced σ φ) :
    ∃ attempts : List StoreAttempt, attempts.map (·.dirty) = dirty ∧
      (Pool.writeAll (storeBlock file) dirty s).1 = attempts.map (·.result) ∧
      (Pool.writeAll (storeBlock file) dirty s).2.calls.toList =
        s.calls.toList ++ attempts.map (·.call file) := by
  induction dirty generalizing s with
  | nil => exact ⟨[], rfl, rfl, (List.append_nil _).symm⟩
  | cons d rest ih =>
      rcases hwrite : Storage.writeAt file d.block d.key.offset s with ⟨answer, s'⟩
      have hstore : storeBlock file d.key d.block s = (storeOutcome answer, s') := by
        rw [storeBlock_apply, hwrite]
      obtain ⟨attempts, hdirty, hresults, hcalls⟩ := ih s'
      refine ⟨⟨d, answer⟩ :: attempts, ?_, ?_, ?_⟩
      · rw [List.map_cons, hdirty]
      · rw [Pool.writeAll_cons, hstore, hresults]
        rfl
      · rw [Pool.writeAll_cons, hstore, hcalls, Traced.calls_writeAt hwrite, List.map_cons,
          List.append_assoc]
        rfl

/-- All blocks could be written back just if all of each of them was taken. -/
theorem flushOutcome_eq_ok_iff {c : Cache σ φ} {attempts : List StoreAttempt}
    (hresults : (Pool.writeAll (storeBlock f.file) (c.pool.dirtyBlocks f.descriptor) c.storage).1 =
      attempts.map (·.result)) :
    c.flushOutcome f = .ok () ↔ ∀ a ∈ attempts, a.answer = .ok blockSize := by
  have hfailed : (c.pool.flush f.descriptor (storeBlock f.file) c.storage).1.1.failed = 0 ↔
      ∀ a ∈ attempts, a.answer = .ok blockSize := by
    rw [Pool.flush_apply, hresults, Pool.Flush.failed, List.countP_map, List.countP_eq_zero]
    simp only [Function.comp_apply, Bool.not_eq_true', Bool.not_eq_false, StoreAttempt.result,
      succeeded_storeOutcome]
  rw [← hfailed, flushOutcome]
  by_cases hsome : 0 < (c.pool.flush f.descriptor (storeBlock f.file) c.storage).1.1.failed
  · rw [if_pos hsome]
    exact ⟨fun h => (nomatch h), fun hzero => absurd hsome (by omega)⟩
  · rw [if_neg hsome]
    exact ⟨fun _ => Nat.eq_zero_of_not_pos hsome, fun _ => rfl⟩

theorem kind_of_flushOutcome {c : Cache σ φ} {e : Error} (hfailed : c.flushOutcome f = .error e) :
    e.kind = .io := by
  rw [flushOutcome] at hfailed
  split at hfailed
  · obtain rfl := Except.error.inj hfailed
    rfl
  · cases hfailed

/-- After the blocks were written back the file is made durable, and cut if that succeeded. -/
theorem sync_calls {c : Cache (Traced σ φ) φ} (hf : c.table.get? h = some f) :
    (∃ fault, (sync h c).1 = .error (.storage fault) ∧
        (sync h c).2.storage.calls.toList =
          (c.flushed f).storage.calls.toList ++ [.sync f.file (.error fault)]) ∨
      ∃ cut, (sync h c).1 = c.flushOutcome f ∧
        (sync h c).2.storage.calls.toList =
          (c.flushed f).storage.calls.toList ++
            [.sync f.file (.ok ()), .setLen f.file f.size cut] := by
  rcases hsync : Storage.sync f.file (c.flushed f).storage with ⟨synced, storage⟩
  have hdurable := Traced.calls_record (fun outcome => .sync f.file outcome) hsync
  cases synced with
  | error fault =>
      rw [sync_of_error hf hsync]
      exact Or.inl ⟨fault, rfl, hdurable⟩
  | ok _ =>
      rw [sync_of_ok hf hsync]
      rcases hset : Storage.setLen f.file f.size storage with ⟨cut, cutStorage⟩
      have hcut := Traced.calls_record (fun outcome => .setLen f.file f.size outcome) hset
      rw [hdurable, List.append_assoc] at hcut
      refine Or.inr ⟨cut, rfl, ?_⟩
      cases cut with
      | error fault => rw [trim_of_error hset]; exact hcut
      | ok _ => rw [trim_of_ok hset]; exact hcut

/-- The slots after a sync that made these attempts: only those whose block was stored are clean. -/
theorem getElem?_sync {c : Cache σ φ} (hf : c.table.get? h = some f) {attempts : List StoreAttempt}
    (hresults : (Pool.writeAll (storeBlock f.file) (c.pool.dirtyBlocks f.descriptor) c.storage).1 =
      attempts.map (·.result)) {i : Nat} {s : Slot} (hs : c.pool.slots[i]? = some s) :
    ∃ dirty, (sync h c).2.pool.slots[i]? = some { s with dirty } ∧
      (dirty = true ↔ s.dirty = true ∧
        ∀ a ∈ attempts, a.dirty.slot = i → a.answer ≠ .ok blockSize) := by
  have hpool : (sync h c).2.pool = (attempts.map (·.result)).foldl Pool.settle c.pool := by
    rw [pool_sync hf, ← hresults]
    rfl
  rw [hpool]
  refine ⟨_, c.pool.getElem?_foldl_settle _ hs, ?_⟩
  rw [Bool.and_eq_true, List.all_map, List.all_eq_true]
  simp only [Function.comp_apply, Bool.not_eq_true', ← Bool.not_eq_true, Bool.and_eq_true, not_and,
    beq_iff_eq, StoreAttempt.result, succeeded_storeOutcome, ne_eq]

/-- Whatever the storage does, a sync stores the blocks of exactly the dirty slots of its file, each
by one call and in the order of the slots; then it makes the file durable, and cuts it to its size
just if that succeeded. A slot is dirty afterwards just if it was before and its block was not taken
whole. The sync succeeds just if all the blocks were taken whole and the file is durable; that it is
not is reported before blocks that were not taken, and that it could not be cut is not reported.
Nothing else of a slot and nothing of a handle changes. -/
theorem sync_attempts_every_block {c : Cache (Traced σ φ) φ} (hf : c.table.get? h = some f) :
    let c' := (sync h c).2
    ∃ (attempts : List StoreAttempt) (synced : Except Fault Unit),
      (attempts.Pairwise fun a b => a.dirty.slot < b.dirty.slot) ∧
      (∀ a ∈ attempts, ∃ s, c.pool.slots[a.dirty.slot]? = some s ∧ s.dirty = true ∧
        s.ownedBy f.descriptor = true ∧ s.key = some a.dirty.key ∧ s.block = a.dirty.block) ∧
      (∀ (i : Nat) (s : Slot), c.pool.slots[i]? = some s → s.dirty = true →
        s.ownedBy f.descriptor = true → ∃ a ∈ attempts, a.dirty.slot = i) ∧
      (∃ cut, c'.callsSince c = attempts.map (·.call f.file) ++ .sync f.file synced ::
        match synced with
        | .ok () => [.setLen f.file f.size cut]
        | .error _ => []) ∧
      ((sync h c).1 = .ok () ↔ synced = .ok () ∧ ∀ a ∈ attempts, a.answer = .ok blockSize) ∧
      (∀ fault, synced = .error fault → (sync h c).1 = .error (.storage fault)) ∧
      (∀ e, synced = .ok () → (sync h c).1 = .error e → e.kind = .io) ∧
      c'.pool.slots.size = c.pool.slots.size ∧
      (∀ (i : Nat) (s : Slot), c.pool.slots[i]? = some s →
        ∃ dirty, c'.pool.slots[i]? = some { s with dirty } ∧
          (dirty = true ↔ s.dirty = true ∧
            ∀ a ∈ attempts, a.dirty.slot = i → a.answer ≠ .ok blockSize)) ∧
      c'.table = c.table := by
  intro c'
  obtain ⟨attempts, hdirty, hresults, hstored⟩ :=
    writeAll_attempts f.file (c.pool.dirtyBlocks f.descriptor) c.storage
  have hcallsSince : ∀ calls,
      c'.storage.calls.toList = (c.flushed f).storage.calls.toList ++ calls →
      c'.callsSince c = attempts.map (·.call f.file) ++ calls := by
    intro calls hcalls
    have hflushed : (c.flushed f).storage.calls.toList =
        c.storage.calls.toList ++ attempts.map (·.call f.file) := hstored
    exact callsSince_of_append (by rw [hcalls, hflushed, List.append_assoc])
  have hascending : attempts.Pairwise fun a b => a.dirty.slot < b.dirty.slot := by
    have hslots := c.pool.ascending_dirtyBlocks f.descriptor
    rwa [← hdirty, List.pairwise_map] at hslots
  have hslots : ∀ a ∈ attempts, ∃ s, c.pool.slots[a.dirty.slot]? = some s ∧ s.dirty = true ∧
      s.ownedBy f.descriptor = true ∧ s.key = some a.dirty.key ∧ s.block = a.dirty.block :=
    fun a ha => Pool.slot_of_mem_dirtyBlocks (hdirty ▸ List.mem_map_of_mem ha)
  have hevery : ∀ (i : Nat) (s : Slot), c.pool.slots[i]? = some s → s.dirty = true →
      s.ownedBy f.descriptor = true → ∃ a ∈ attempts, a.dirty.slot = i := by
    intro i s hs hisDirty howned
    obtain ⟨d, hd, hslot⟩ := Pool.exists_mem_dirtyBlocks hs hisDirty howned
    rw [← hdirty] at hd
    obtain ⟨a, ha, rfl⟩ := List.mem_map.mp hd
    exact ⟨a, ha, hslot⟩
  obtain ⟨-, -, -, -, htable⟩ := sync_steps_trim c h
  have hslot := fun (i : Nat) (s : Slot) (hs : c.pool.slots[i]? = some s) =>
    getElem?_sync hf hresults hs
  obtain ⟨hsize, -⟩ := slots_sync hf
  rcases sync_calls hf with ⟨fault, houtcome, hcalls⟩ | ⟨cut, houtcome, hcalls⟩
  · refine ⟨attempts, .error fault, hascending, hslots, hevery, ⟨.ok (), hcallsSince _ hcalls⟩,
      ?_, ?_, ?_, hsize, hslot, htable⟩
    · rw [houtcome]
      simp
    · rintro _ ⟨⟩
      exact houtcome
    · rintro _ ⟨⟩
  · refine ⟨attempts, .ok (), hascending, hslots, hevery, ⟨cut, hcallsSince _ hcalls⟩,
      ?_, ?_, ?_, hsize, hslot, htable⟩
    · rw [houtcome, flushOutcome_eq_ok_iff hresults]
      exact ⟨fun hall => ⟨rfl, hall⟩, fun h => h.2⟩
    · rintro _ ⟨⟩
    · exact fun e _ herror => kind_of_flushOutcome (houtcome ▸ herror)

/-- Two dirty blocks of a file and one of another file. Of the second block of the first file the
storage takes only a part. -/
def partlyTaken : Cache (Traced (Scripted Memory) Memory.File) Memory.File :=
  (session
    [.openFile "a" OpenFlags.create 0, .openFile "b" OpenFlags.create 0, .write ⟨0⟩ ⟨#[1]⟩,
      .seek ⟨0⟩ (.start blockSize), .write ⟨1⟩ ⟨#[2]⟩, .write ⟨0⟩ ⟨#[3]⟩]
    (Cache.new (Traced.new
      ⟨Memory.ofFiles Catalog.empty,
        [{ operation := .write, offsets := some [blockSize], short := some 100 }]⟩) 3)).2

theorem sync_attempts_every_block_partlyTaken :
    let c' := (sync ⟨0⟩ partlyTaken).2
    (partlyTaken.pool.slots.map fun s => (s.ownedBy 3, s.dirty)) =
        #[(true, true), (false, true), (true, true)] ∧
      (c'.pool.slots.map fun s => (s.ownedBy 3, s.dirty)) =
        #[(true, false), (false, true), (true, true)] ∧
      (∃ attempts : List StoreAttempt, (∃ a ∈ attempts, a.dirty.slot = 0) ∧
        (∃ a ∈ attempts, a.dirty.slot = 2 ∧ a.answer ≠ .ok blockSize) ∧
        ∃ file rest, c'.callsSince partlyTaken = attempts.map (·.call file) ++ rest) ∧
      (sync ⟨0⟩ partlyTaken).1 = .error .blocksNotWritten ∧ c'.table = partlyTaken.table := by
  intro c'
  have hbefore : (partlyTaken.pool.slots.map fun s => (s.ownedBy 3, s.dirty)) =
      #[(true, true), (false, true), (true, true)] := by decide +kernel
  have hafter : (c'.pool.slots.map fun s => (s.ownedBy 3, s.dirty)) =
      #[(true, false), (false, true), (true, true)] := by decide +kernel
  have hdescriptor : (partlyTaken.table.get? ⟨0⟩).map (·.descriptor) = some 3 := by decide +kernel
  obtain ⟨f, hf, hthree⟩ := Option.map_eq_some_iff.mp hdescriptor
  obtain ⟨attempts, synced, -, -, hevery, ⟨cut, hcalls⟩, -, -, -, -, hslots, htable⟩ :=
    sync_attempts_every_block hf
  rw [hthree] at hevery
  have hslot : ∀ i : Nat, #[(true, true), (false, true), (true, true)][i]? = some (true, true) →
      ∃ s, partlyTaken.pool.slots[i]? = some s ∧ s.ownedBy 3 = true ∧ s.dirty = true := by
    intro i hi
    rw [← hbefore, Array.getElem?_map] at hi
    obtain ⟨s, hs, hflags⟩ := Option.map_eq_some_iff.mp hi
    exact ⟨s, hs, Prod.mk.inj hflags⟩
  obtain ⟨s₀, hs₀, howned₀, hdirty₀⟩ := hslot 0 rfl
  obtain ⟨s₂, hs₂, howned₂, hdirty₂⟩ := hslot 2 rfl
  obtain ⟨a, ha, ha₂⟩ := hevery 2 s₂ hs₂ hdirty₂ howned₂
  have hstays : ∀ t, c'.pool.slots[2]? = some t → t.dirty = true := by
    intro t ht
    have hflags := congrArg (·[2]?) hafter
    rw [Array.getElem?_map, ht] at hflags
    exact (Prod.mk.inj (Option.some.inj hflags)).2
  obtain ⟨dirty, hs', hiff⟩ := hslots 2 s₂ hs₂
  have hrefused := (hiff.mp (hstays _ hs')).2 a ha ha₂
  exact ⟨hbefore, hafter,
    ⟨attempts, hevery 0 s₀ hs₀ hdirty₀ howned₀, ⟨a, ha, ha₂, hrefused⟩, f.file, _, hcalls⟩,
    by decide +kernel, htable⟩

end Cache

end BlockCache
