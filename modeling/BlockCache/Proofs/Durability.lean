import BlockCache.Proofs.Consistency

/-!
What a sync that succeeds is worth. Whatever failed before, if syncing a file succeeds and the file
was cut to its size, then no block of it is dirty, and the stored file is what reading all of it
delivers, byte for byte and at the same length. A file that is closed with success was left in the
storage as it could be read before.
-/

namespace BlockCache

namespace Cache

variable {σ φ : Type} [Storage σ φ] {disk : Disk σ φ} {image : Image} {c c' : Cache σ φ}

/-- Whether a file can be read from its start and is then some bytes, as long as no block could not
be stored or read. -/
def ReadsAs (c : Cache σ φ) (h : Handle) (bytes : ByteArray) : Prop :=
  ∃ c₁, seek h (.start 0) c = (.ok 0, c₁) ∧
    ∀ (buffer buffer' : Buffer bytes.size) (outcome : Except Error Nat) (c₂ : Cache σ φ),
      read h buffer c₁ = ((outcome, buffer'), c₂) → (∀ e ∈ c₂.since c₁, e.isMishap = false) →
      outcome = .ok bytes.size ∧ buffer'.bytes = bytes

/-- Reading all of a file delivers its bytes in the image. -/
theorem Settled.readsAs (hc : Settled disk image [] c) {h : Handle} {f : OpenFile φ}
    (hf : c.table.get? h = some f) {bytes : ByteArray} (hsize : bytes.size = f.size)
    (hbytes : ∀ i, i < f.size → Bytes.byteAt bytes i = image h i) : c.ReadsAs h bytes := by
  have hseek : f.seek (.start 0) = .ok (f.moveTo 0) := rfl
  have hmove : Step c [.move h] [] _ := .move (fun _ => f.moveTo 0) hf rfl rfl rfl (Nat.le_refl _)
  refine ⟨_, seek_of_ok hf hseek, fun buffer buffer' outcome c₂ hread hnone => ?_⟩
  have hc₁ := hc.move hmove
  have hf₁ := c.table.get?_modify_self hf fun _ => f.moveTo 0
  obtain ⟨as, new, hsteps, -, -, hdelivered⟩ := hc₁.read h buffer
  have houtcome := read_outcome hc₁.regular hf₁ buffer
  rw [hread] at hsteps hdelivered houtcome
  rw [hsteps.since_eq] at hnone houtcome
  obtain ⟨e, key, -, hreport⟩ | rfl := houtcome
  · cases hnone _ hreport
  have hcount : min bytes.size ((f.moveTo 0).size - (f.moveTo 0).cursor) = bytes.size := by
    rw [hsize]
    exact Nat.min_self _
  rw [hcount] at hdelivered ⊢
  refine ⟨rfl, Bytes.ext_byteAt buffer'.size_bytes fun i hi => ?_⟩
  rw [buffer'.size_bytes] at hi
  have hlost := lostAfter_nil fun e he => Event.isDamage_of_isMishap (hnone e he)
  have hkept : ∀ key, key ∉ lostAfter [] new := by
    rw [hlost]
    exact fun _ => List.not_mem_nil
  calc buffer'.byteAt i
      = image h (0 + i) := (hdelivered _ _ hf₁ rfl).1 i hi (hkept _)
    _ = image h i := by rw [Nat.zero_add]
    _ = Bytes.byteAt bytes i := (hbytes i (hsize ▸ hi)).symm

/-- A file that was synced with success is stored as it is in the image. -/
theorem Settled.synced (hc : Settled disk image [] c) {h : Handle} {f : OpenFile φ}
    (hf : c.table.get? h = some f) (hsync : Cache.sync h c = (.ok (), c'))
    (hcut : (Storage.setLen f.file f.size (c.durable f)).1 = .ok ()) :
    Settled disk image [] c' ∧ c'.table = c.table ∧
      (∀ {i : Nat} {s : Slot} {key : BlockId}, c'.pool.slots[i]? = some s → s.key = some key →
        key.owner = f.descriptor → s.dirty = false) ∧
      (disk.content c'.storage (disk.path f.file)).size = f.size ∧
      ∀ i, Bytes.byteAt (disk.content c'.storage (disk.path f.file)) i = image h i := by
  obtain ⟨new, hflush, hnote⟩ := flushed_steps hf
  obtain ⟨hflushed, hdurable, rfl⟩ := sync_of_cut hf hsync hcut
  have hsteps := hflush.append (.single (.sync hf hdurable))
  have htrim := Step.trim (c := { c.flushed f with storage := c.durable f }) hf
    (Prod.ext hcut rfl)
  have hset := (hc.tend hsteps).trim htrim
  rw [List.append_nil, lostAfter_of_isNote [] hnote] at hset
  have hclean : ∀ {i : Nat} {s : Slot} {key : BlockId}, (c.flushed f).pool.slots[i]? = some s →
      s.key = some key → key.owner = f.descriptor → s.dirty = false :=
    fun hs hkey howner => flushed_clean hflushed hs hkey howner
  refine ⟨hset, rfl, hclean, ?_, fun i => ?_⟩
  · have hsound := (hc.tend hsteps).coupled.sound
    rw [(disk.setLen hsound (Prod.ext hcut rfl)).2.2.1 rfl]
    exact Bytes.size_resize _ _
  · have hstored := hset.coupled.stored (b := blockOf i) (p := placeInBlock i) hf
      (fun hs hkey => hclean hs hkey rfl) List.not_mem_nil (placeInBlock_lt i)
    rw [blockOf_mul_add_placeInBlock] at hstored
    exact hstored

/-- In every state that a cache can reach, whatever failed on the way there: if syncing a file
succeeds and the storage cut the file to its size, then no slot of the file is dirty, and the stored
file has the length of the open one and is what can be read from it. If closing it does, the stored
file is what could be read from it just before. -/
theorem sync_stores (htears : disk.Tears) {storage : σ} {slotCount : Nat} {allocator : Allocator}
    (hs : disk.Sound storage)
    (hreach : Reachable (IsAdmitted disk) (Cache.new storage slotCount allocator) c) {h : Handle}
    {f : OpenFile φ} (hf : c.table.get? h = some f)
    (hcut : (Storage.setLen f.file f.size (c.durable f)).1 = .ok ()) :
    (∀ c', sync h c = (.ok (), c') →
      (∀ (i : Nat) (s : Slot) (key : BlockId), c'.pool.slots[i]? = some s → s.key = some key →
        key.owner = f.descriptor → s.dirty = false) ∧
      c'.length h = .ok (disk.content c'.storage (disk.path f.file)).size ∧
      c'.ReadsAs h (disk.content c'.storage (disk.path f.file))) ∧
    (∀ c', close h c = (.ok (), c') →
      c.length h = .ok (disk.content c'.storage (disk.path f.file)).size ∧
      c.ReadsAs h (disk.content c'.storage (disk.path f.file))) := by
  obtain ⟨image, hset⟩ := (hreach.firm htears hs).settled
  refine ⟨fun c' hsync => ?_, fun c' hclose => ?_⟩
  · obtain ⟨hset', htable, hclean, hsize, hbytes⟩ := hset.synced hf hsync hcut
    have hf' : c'.table.get? h = some f := by rw [htable, hf]
    refine ⟨fun i s key hs hkey howner => hclean hs hkey howner, ?_,
      hset'.readsAs hf' hsize fun i _ => hbytes i⟩
    rw [length_of_some hf', hsize]
  · obtain ⟨-, -, -, -, htable⟩ := sync_steps c h
    obtain ⟨news, c₁, c₂, -, hstorage, -, -, hclosed, -, hrun⟩ :=
      close_spec hf (by rw [htable, hf])
    rw [hclose] at hrun
    obtain ⟨houtcome, rfl⟩ := Prod.mk.inj hrun
    obtain ⟨-, -, -, hsize, hbytes⟩ := hset.synced hf (Prod.ext houtcome.symm rfl) hcut
    obtain ⟨_, _, -, hset'⟩ := hset.sync h
    have hcontent : disk.content c'.storage = disk.content (sync h c).2.storage := by
      rw [hclosed, hstorage]
      exact (disk.close hset'.coupled.sound).2
    rw [hcontent, length_of_some hf, hsize]
    exact ⟨rfl, hset.readsAs hf hsize fun i _ => hbytes i⟩

/-- A file of two bytes, written over files in memory that cannot be read. -/
def pairWritten : Cache Memory Memory.File :=
  (serve (.write ⟨0⟩ ⟨#[7, 8]⟩) (serve (.openFile "a" OpenFlags.create 0) (Cache.new
    { Memory.ofFiles Catalog.empty with failing := ⟨true, false, false, false⟩ } 1)).2).2

theorem sync_stores_pairWritten :
    ((sync ⟨0⟩ pairWritten).2.storage.contents (Path.ofString "a")).size = 2 ∧
      (sync ⟨0⟩ pairWritten).2.ReadsAs ⟨0⟩
        ((sync ⟨0⟩ pairWritten).2.storage.contents (Path.ofString "a")) ∧
      pairWritten.ReadsAs ⟨0⟩ ((close ⟨0⟩ pairWritten).2.storage.contents (Path.ofString "a")) := by
  have hreach : Reachable (IsAdmitted Memory.disk) _ pairWritten :=
    .serve _ (.serve _ .first (isAdmitted_new _ _ _ _ _)) ⟨trivial, trivial⟩
  have hopen : (pairWritten.table.get? ⟨0⟩).map (fun f => (f.file.path,
      (Storage.setLen f.file f.size (pairWritten.durable f)).1)) =
      some (Path.ofString "a", .ok ()) := by decide +kernel
  obtain ⟨f, hf, hfile⟩ := Option.map_eq_some_iff.mp hopen
  obtain ⟨hpath, hcut⟩ := Prod.mk.inj hfile
  obtain ⟨hsync, hclose⟩ := sync_stores Memory.disk_tears trivial hreach hf hcut
  obtain ⟨-, hlength, hreads⟩ := hsync _ (Prod.ext (by decide +kernel) rfl)
  obtain ⟨-, hreads'⟩ := hclose _ (Prod.ext (by decide +kernel) rfl)
  rw [show Memory.disk.path f.file = Path.ofString "a" from hpath] at hlength hreads hreads'
  refine ⟨?_, hreads, hreads'⟩
  have htwo : (sync ⟨0⟩ pairWritten).2.length ⟨0⟩ = .ok 2 := by decide +kernel
  exact Except.ok.inj (hlength.symm.trans htwo)

end Cache

end BlockCache
