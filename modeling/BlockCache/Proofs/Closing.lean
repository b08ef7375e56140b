import BlockCache.Proofs.Handles
import BlockCache.Proofs.History

/-!
Closing a file. It comes to its end whatever the storage does: the handle is given up and the slots
of the file are free, even if none of its blocks could be written back. All else stays as it is: the
other handles, the slots of other files, and every file of the storage but the one that is closed.
-/

namespace BlockCache

/-- The file that a call of a storage is about; opening a file is about none. -/
def Call.file? {φ : Type} : Call φ → Option φ
  | .openFile .. => none
  | .size file _ | .readAt file .. | .writeAt file .. | .sync file _ | .setLen file ..
  | .close file => some file

namespace Traced

variable {σ φ : Type} {file : φ} {s s' s'' : Traced σ φ}

/-- Whether every call on the way from one state of a storage to another is about one file. -/
def CallsOnly (file : φ) (s s' : Traced σ φ) : Prop :=
  ∃ calls, s'.calls.toList = s.calls.toList ++ calls ∧ ∀ call ∈ calls, call.file? = some file

theorem CallsOnly.refl (file : φ) (s : Traced σ φ) : CallsOnly file s s :=
  ⟨[], (List.append_nil _).symm, fun _ hmem => nomatch hmem⟩

theorem CallsOnly.trans (h : CallsOnly file s s') (h' : CallsOnly file s' s'') :
    CallsOnly file s s'' := by
  obtain ⟨calls, heq, hfile⟩ := h
  obtain ⟨calls', heq', hfile'⟩ := h'
  refine ⟨calls ++ calls', by rw [heq', heq, List.append_assoc], fun call hmem => ?_⟩
  exact (List.mem_append.mp hmem).elim (hfile call) (hfile' call)

theorem callsOnly_single {call : Call φ} (hcall : call.file? = some file)
    (heq : s'.calls.toList = s.calls.toList ++ [call]) : CallsOnly file s s' :=
  ⟨[call], heq, fun _ hmem => List.mem_singleton.mp hmem ▸ hcall⟩

variable [Storage σ φ]

theorem callsOnly_storeBlock (file : φ) (key : BlockId) (block : Block) (s : Traced σ φ) :
    CallsOnly file s (Cache.storeBlock file key block s).2 := by
  obtain ⟨result, hwrite, -⟩ := Cache.storeBlock_run (Prod.eta (Cache.storeBlock file key block s))
  exact callsOnly_single rfl (calls_writeAt hwrite)

theorem callsOnly_writeAll (file : φ) (dirty : List Pool.DirtyBlock) (s : Traced σ φ) :
    CallsOnly file s (Pool.writeAll (Cache.storeBlock file) dirty s).2 := by
  induction dirty generalizing s with
  | nil => exact .refl file s
  | cons d rest ih =>
      rw [Pool.writeAll_cons]
      exact (callsOnly_storeBlock file d.key d.block s).trans (ih _)

end Traced

namespace Cache

variable {σ φ : Type} [Storage σ φ] {h : Handle} {f : OpenFile φ}

/-- A sync does no more to the pool than write the blocks of its file back. -/
theorem pool_sync {c : Cache σ φ} (hf : c.table.get? h = some f) :
    (sync h c).2.pool = (c.flushed f).pool := by
  rcases hsync : Storage.sync f.file (c.flushed f).storage with ⟨_ | _, storage⟩
  · rw [sync_of_error hf hsync]
  · rw [sync_of_ok hf hsync]
    rcases hset : Storage.setLen f.file f.size storage with ⟨_ | _, cut⟩
    · rw [trim_of_error hset]
    · rw [trim_of_ok hset]

/-- A sync does no more to a slot than make it clean. -/
theorem slots_sync {c : Cache σ φ} (hf : c.table.get? h = some f) :
    (sync h c).2.pool.slots.size = c.pool.slots.size ∧
      ∀ {i : Nat} {s : Slot}, c.pool.slots[i]? = some s →
        ∃ dirty, (sync h c).2.pool.slots[i]? = some { s with dirty } := by
  rw [pool_sync hf]
  refine ⟨c.pool.size_flush _ _ _, fun {i s} hs => ?_⟩
  obtain ⟨dirty, hs', -⟩ := c.pool.slot_flush f.descriptor (storeBlock f.file) c.storage hs
  exact ⟨dirty, hs'⟩

/-- A sync makes no call but about its file. -/
theorem callsOnly_sync {c : Cache (Traced σ φ) φ} (hf : c.table.get? h = some f) :
    Traced.CallsOnly f.file c.storage (sync h c).2.storage := by
  have hflush : Traced.CallsOnly f.file c.storage (c.flushed f).storage :=
    Traced.callsOnly_writeAll f.file (c.pool.dirtyBlocks f.descriptor) c.storage
  rcases hsync : Storage.sync f.file (c.flushed f).storage with ⟨synced, storage⟩
  have hdurable := hflush.trans (Traced.callsOnly_single rfl
    (Traced.calls_record (fun outcome => .sync f.file outcome) hsync))
  cases synced with
  | error fault =>
      rw [sync_of_error hf hsync]
      exact hdurable
  | ok _ =>
      rw [sync_of_ok hf hsync]
      rcases hset : Storage.setLen f.file f.size storage with ⟨trimmed, cut⟩
      have hcut := hdurable.trans (Traced.callsOnly_single rfl
        (Traced.calls_record (fun outcome => .setLen f.file f.size outcome) hset))
      cases trimmed with
      | error fault =>
          rw [trim_of_error hset]
          exact hcut
      | ok _ =>
          rw [trim_of_ok hset]
          exact hcut

/-- The slots of a closed file are free, and the others as they were. -/
theorem slots_close {c : Cache σ φ} (hf : c.table.get? h = some f) :
    (close h c).2.pool.slots.size = c.pool.slots.size ∧
      ∀ (i : Nat) (s : Slot), c.pool.slots[i]? = some s →
        ∃ s', (close h c).2.pool.slots[i]? = some s' ∧
          if s.ownedBy f.descriptor then s'.tenant = none ∧ s'.dirty = false else s' = s := by
  obtain ⟨-, -, hpool, -⟩ := close_of_some hf
  rw [hpool, pool_sync hf, Pool.slots_forget]
  refine ⟨by rw [Array.size_map]; exact c.pool.size_flush _ _ _, fun i s hs => ?_⟩
  obtain ⟨s₁, hs₁, htenant, hsame⟩ :=
    c.pool.tenant_flush f.descriptor (storeBlock f.file) c.storage hs
  have howned := s.ownedBy_of_tenant htenant f.descriptor
  rw [Array.getElem?_map, show (c.flushed f).pool.slots[i]? = some s₁ from hs₁, Option.map_some,
    howned]
  refine ⟨_, rfl, ?_⟩
  cases hs : s.ownedBy f.descriptor with
  | true => exact ⟨rfl, rfl⟩
  | false => exact hsame hs

/-- Whatever the storage does, closing a file gives up its handle, which stands for no file until it
is opened anew, and frees its slots; the outcome is that of syncing it. All calls of the storage are
about this file, and neither another handle nor a slot of another file changes. -/
theorem close_completes (c : Cache (Traced σ φ) φ) (hf : c.table.get? h = some f) :
    let c' := (close h c).2
    (close h c).1 = (sync h c).1 ∧
      (∀ later, .opened (.ok h) ∉ (session later c').1 →
        let last := (session later c').2
        last.table.get? h = none ∧ ∀ request, request.handle? = some h →
          (serve request last).1.failure?.map Error.kind = some .badHandle ∧
            (serve request last).2 = last) ∧
      (∀ h', h' ≠ h → c'.table.get? h' = c.table.get? h') ∧
      c'.pool.slots.size = c.pool.slots.size ∧
      (∀ s ∈ c'.pool.slots, s.ownedBy f.descriptor = false) ∧
      (∀ (i : Nat) (s s' : Slot), c.pool.slots[i]? = some s → c'.pool.slots[i]? = some s' →
        if s.ownedBy f.descriptor then s'.isFree = true ∧ s'.dirty = false ∧ s'.frequency = 0
        else s' = s) ∧
      ∃ calls, c'.storage.calls.toList = c.storage.calls.toList ++ calls ++ [.close f.file] ∧
        ∀ call ∈ calls, call.file? = some f.file := by
  intro c'
  obtain ⟨houtcome, hstorage, hpool, htable⟩ := close_of_some hf
  obtain ⟨hsize, hslots⟩ := slots_close hf
  refine ⟨houtcome, fun later hunopened => ?_, fun h' hne => ?_, hsize, fun s hs => ?_,
    fun i s s' hs hs' => ?_, ?_⟩
  · have hclosed : c'.table.get? h = none := by
      rw [htable, c.table.get?_remove, if_pos rfl]
    have hnone := get?_session_of_none hclosed hunopened
    intro last
    refine ⟨hnone, fun request hhandle => ?_⟩
    obtain ⟨hfailure, hsame⟩ := serve_of_none hnone hhandle
    rw [hfailure]
    exact ⟨rfl, hsame⟩
  · rw [htable, c.table.get?_remove, if_neg (Ne.symm hne)]
  · rw [hpool, Pool.slots_forget] at hs
    obtain ⟨t, -, rfl⟩ := Array.mem_map.mp hs
    cases howned : t.ownedBy f.descriptor with
    | true => rfl
    | false => exact howned
  · obtain ⟨t, ht, hkept⟩ := hslots i s hs
    obtain rfl := Option.some.inj (hs'.symm.trans ht)
    cases howned : s.ownedBy f.descriptor with
    | false =>
        rw [howned] at hkept
        exact hkept
    | true =>
        rw [howned] at hkept
        obtain ⟨htenant, hdirty⟩ := hkept
        exact ⟨by rw [Slot.isFree, htenant]; rfl, hdirty, by rw [Slot.frequency, htenant]⟩
  · obtain ⟨calls, heq, hfile⟩ := callsOnly_sync hf
    exact ⟨calls, by rw [hstorage, Traced.calls_close, heq], hfile⟩

/-- Two files with a block each, neither of which can be written, made durable or resized. -/
def stuck : Cache (Traced Memory Memory.File) Memory.File :=
  (session
    [.openFile "a" OpenFlags.create 0, .openFile "b" OpenFlags.create 0, .write ⟨0⟩ ⟨#[1]⟩,
      .write ⟨1⟩ ⟨#[2]⟩]
    (Cache.new (Traced.new
      { Memory.ofFiles Catalog.empty with failing := ⟨false, true, true, true⟩ }) 2)).2

theorem close_completes_stuck :
    let c' := (close ⟨0⟩ stuck).2
    (close ⟨0⟩ stuck).1 = (sync ⟨0⟩ stuck).1 ∧
      (close ⟨0⟩ stuck).1 = .error (.storage Memory.failure) ∧
      (serve (.length ⟨0⟩) c').1.failure?.map Error.kind = some .badHandle ∧
      c'.table.get? ⟨1⟩ = stuck.table.get? ⟨1⟩ ∧
      stuck.pool.slots.map (·.dirty) = #[true, true] ∧
      c'.pool.slots[1]? = stuck.pool.slots[1]? ∧
      c'.pool.slots.map (fun s => (s.isFree, s.dirty)) = #[(true, false), (false, true)] := by
  intro c'
  have hdescriptor : (stuck.table.get? ⟨0⟩).map (·.descriptor) = some 3 := by decide +kernel
  obtain ⟨f, hf, hthree⟩ := Option.map_eq_some_iff.mp hdescriptor
  obtain ⟨houtcome, hlater, hother, hsize, -, hslots, -⟩ := close_completes stuck hf
  have hunopened : (.opened (.ok ⟨0⟩) : Reply) ∉ (session [] c').1 := List.not_mem_nil
  have hsecond : (stuck.pool.slots[1]?).map (·.ownedBy 3) = some false := by decide +kernel
  obtain ⟨s, hs, hnot⟩ := Option.map_eq_some_iff.mp hsecond
  have hlt : 1 < c'.pool.slots.size := by
    rw [hsize]
    exact (Array.getElem?_eq_some_iff.mp hs).1
  have hkept := hslots 1 s _ hs (Array.getElem?_eq_getElem hlt)
  rw [hthree, hnot] at hkept
  refine ⟨houtcome, by decide +kernel, ((hlater [] hunopened).2 (.length ⟨0⟩) rfl).1,
    hother ⟨1⟩ (by decide), by decide +kernel, ?_, by decide +kernel⟩
  rw [hs, Array.getElem?_eq_getElem hlt]
  exact congrArg some hkept

end Cache

end BlockCache
