import BlockCache.Proofs.Contents
import BlockCache.Proofs.Reference
import BlockCache.Proofs.Representation

/-!
A cache over files in memory of which no call fails. No block is lost or missing then, every file
that is opened is as the reference has it, and the files that are not open stay as they are.
-/

namespace BlockCache

theorem lostAfter_of_isMishap {events : List Event} (h : ∀ e ∈ events, e.isMishap = false) :
    lostAfter [] events = [] :=
  lostAfter_nil fun e he => Event.isDamage_of_isMishap (h e he)

namespace Memory

open Cache

/-- The switches when no call is to fail. -/
def allWorking : PerCall Bool := ⟨false, false, false, false⟩

/-- Whether no call of the storage fails, and the cache still has the slots and the places it began
with. -/
structure Unfailing (slotCount : Nat) (allocator : Allocator) (c : Cache Memory File) : Prop where
  working : c.storage.failing = allWorking
  below : DescriptorsBelow c
  places : c.table.entries.size = maxHandles
  slotCount_eq : c.slotCount = slotCount
  allocator_eq : c.allocator = allocator

variable {m m' : Memory} {file : File} {slotCount : Nat} {allocator : Allocator}
  {c c' : Cache Memory File}

theorem get?_change (files : Catalog Path ByteArray) {p p' : Path} (f : ByteArray → ByteArray)
    (hp : p' ≠ p) : (change files p f).get? p' = files.get? p' := by
  rw [change, Catalog.get?_update, if_neg (Ne.symm hp)]

theorem get?_setLen {size : Nat} {outcome : Except Fault Unit} {p : Path}
    (hset : Storage.setLen file size m = (outcome, m')) (hp : p ≠ file.path) :
    m'.files.get? p = m.files.get? p := by
  obtain ⟨-, -, ⟨-, -, hfiles⟩ | ⟨-, -, hfiles⟩⟩ := setLen_run hset
  · rw [hfiles]
  · rw [hfiles, get?_change _ _ hp]

theorem get?_openFile {name : String} {flags : OpenFlags} {mode : Nat} {p : Path}
    {outcome : Except Fault File} (hrun : Storage.openFile name flags mode m = (outcome, m'))
    (hp : p ≠ Path.ofString name) : m'.files.get? p = m.files.get? p := by
  rcases openFile_run hrun with ⟨fault, -, rfl⟩ | ⟨f, -, rfl⟩
  · rfl
  · exact get?_change _ _ hp

theorem storeBlock_eq {key : BlockId} {block : Block} {outcome : Except Error Unit}
    (hstore : Cache.storeBlock file key block m = (outcome, m')) :
    m'.failing = m.failing ∧ (m.failing.write = false → outcome = .ok ()) ∧
      ∀ p, p ≠ file.path → m'.files.get? p = m.files.get? p := by
  rw [Cache.storeBlock, bind_apply] at hstore
  rcases hwrite : Storage.writeAt file block key.offset m with ⟨result, m₁⟩
  rw [hwrite] at hstore
  obtain ⟨-, hfailing, ⟨hfail, rfl, hfiles⟩ | ⟨-, rfl, hfiles⟩⟩ := writeAt_run hwrite
  · obtain ⟨rfl, rfl⟩ := Prod.mk.inj hstore
    refine ⟨hfailing, fun hnone => ?_, fun p _ => by rw [hfiles]⟩
    rw [hfail] at hnone
    cases hnone
  · obtain ⟨rfl, rfl⟩ := Prod.mk.inj hstore
    refine ⟨hfailing, fun _ => if_pos rfl, fun p hp => ?_⟩
    rw [hfiles, get?_change _ _ hp]

theorem failing_step {as : List Action} {new : List Event} (h : Step c as new c') :
    c'.storage.failing = c.storage.failing := by
  cases h with
  | allocate | report | hit | miss | evictClean | overwrite | replace | move | drop => rfl
  | evictDirty _ _ _ hstore => exact (storeBlock_eq hstore).1
  | flush _ _ _ hstore => exact (storeBlock_eq hstore).1
  | fill _ _ _ _ hread => exact (readAt_run hread).2.2.1
  | fillFailed _ _ _ _ hread => exact (readAt_run hread).2.2.1
  | overwriteZeros _ _ _ _ _ hread => exact (readAt_run hread).2.2.1
  | sync _ hsync => exact (sync_run hsync).2.2.1
  | trim _ hset => exact (setLen_run hset).2.1
  | trimFailed _ hset => exact (setLen_run hset).2.1
  | refuse hopen => exact failing_openFile hopen
  | abandon hopen hsize =>
      obtain ⟨-, rfl⟩ := Prod.mk.inj hsize
      exact failing_openFile hopen
  | bind _ _ hopen hsize =>
      obtain ⟨-, rfl⟩ := Prod.mk.inj hsize
      exact failing_openFile hopen

theorem Unfailing.step {as : List Action} {new : List Event} (hc : Unfailing slotCount allocator c)
    (h : Step c as new c') : Unfailing slotCount allocator c' where
  working := (failing_step h).trans hc.working
  below := descriptorsBelow_step h hc.below
  places := h.places_eq.trans hc.places
  slotCount_eq := h.slotCount_eq.trans hc.slotCount_eq
  allocator_eq := h.allocator_eq.trans hc.allocator_eq

/-- No step reports a mishap if all calls work. -/
theorem isMishap_step {as : List Action} {new : List Event} (h : Step c as new c')
    (hworking : c.storage.failing = allWorking) : ∀ e ∈ new, e.isMishap = false := by
  intro e he
  cases h with
  | report _ hnote => exact Event.isMishap_of_isNote (hnote e he)
  | evictDirty _ _ _ hstore hnew =>
      obtain rfl := (storeBlock_eq hstore).2.1 (by rw [hworking]; rfl)
      subst hnew
      obtain rfl := List.mem_singleton.mp he
      rfl
  | fillFailed _ _ _ _ hread | overwriteZeros _ _ _ _ _ hread =>
      obtain ⟨-, -, -, ⟨hfail, -⟩ | ⟨-, hok, -⟩⟩ := readAt_run hread
      · rw [hworking] at hfail
        cases hfail
      · cases hok
  | allocate _ _ hnew | hit _ _ hnew | evictClean _ hnew | trimFailed _ _ hnew
    | bind _ _ _ _ _ hnew | drop _ hnew =>
      subst hnew
      obtain rfl := List.mem_singleton.mp he
      rfl
  | _ => cases he

/-- Files in memory while no call is to fail. -/
def workingDisk : Disk Memory File where
  Sound m := m.failing = allWorking
  path := File.path
  content := contents
  openFile h hrun := ⟨(failing_openFile hrun).trans h, (disk.openFile trivial hrun).2⟩
  size h hrun := by
    obtain ⟨-, rfl⟩ := Prod.mk.inj hrun
    exact ⟨h, (disk.size trivial hrun).2⟩
  readAt h hrun := ⟨(readAt_run hrun).2.2.1.trans h, (disk.readAt trivial hrun).2⟩
  writeAt h hrun := ⟨(writeAt_run hrun).2.1.trans h, (disk.writeAt trivial hrun).2⟩
  sync h hrun := ⟨(sync_run hrun).2.2.1.trans h, (disk.sync trivial hrun).2⟩
  setLen h hrun := ⟨(setLen_run hrun).2.1.trans h, (disk.setLen trivial hrun).2⟩
  close h := ⟨h, rfl⟩

/-- Files in memory take all that is written to them while no call is to fail. -/
theorem workingDisk_takes (file : File) : workingDisk.Takes file where
  writeAt := by
    intro m n buffer offset (hm : m.failing = allWorking)
    rcases hwrite : Storage.writeAt file buffer offset m with ⟨outcome, m'⟩
    obtain ⟨-, -, ⟨hfail, -⟩ | ⟨-, hok, -⟩⟩ := writeAt_run hwrite
    · rw [hm] at hfail
      cases hfail
    · exact hok
  sync := by
    intro m (hm : m.failing = allWorking)
    rcases hsync : Storage.sync file m with ⟨outcome, m'⟩
    exact (sync_run hsync).2.2.2 (by rw [hm]; rfl)
  setLen := by
    intro m size (hm : m.failing = allWorking)
    rcases hset : Storage.setLen file size m with ⟨outcome, m'⟩
    obtain ⟨-, -, ⟨hfail, -⟩ | ⟨-, hok, -⟩⟩ := setLen_run hset
    · rw [hm] at hfail
      cases hfail
    · exact hok

theorem workingDisk_works : workingDisk.Works := fun _ file hs =>
  ⟨(workingDisk_takes file).sync hs, fun size => (workingDisk_takes file).setLen size hs⟩

/-- Whether no open file is at a path. -/
def Unopened (c : Cache Memory File) (p : Path) : Prop :=
  ∀ h f, c.table.get? h = some f → f.file.path ≠ p

/-- Whether an action is not about the file at a path that may be opened. -/
def Spares (p : Path) : Action → Prop
  | .visit path | .bind _ path => Path.ofString path ≠ p
  | _ => True

theorem spares_of_keepsBytes {p : Path} {a : Action} (h : a.keepsBytes = true) : Spares p a := by
  cases a with
  | visit | bind => cases h
  | _ => trivial

theorem spares_of_isStore {p : Path} {a : Action} (h : a.isStore = true) : Spares p a := by
  cases a with
  | store => trivial
  | _ => cases h

/-- A step that spares a file that is not open leaves it as it is, and does not open it. -/
theorem closed_step {p : Path} {as : List Action} {new : List Event} (h : Step c as new c')
    (hspares : ∀ a ∈ as, Spares p a) (hclosed : Unopened c p) :
    Unopened c' p ∧ c'.storage.files.get? p = c.storage.files.get? p := by
  cases h with
  | allocate | report | hit | miss | evictClean | overwrite | replace => exact ⟨hclosed, rfl⟩
  | evictDirty _ hf _ hstore => exact ⟨hclosed, (storeBlock_eq hstore).2.2 p (hclosed _ _ hf).symm⟩
  | flush _ hf _ hstore => exact ⟨hclosed, (storeBlock_eq hstore).2.2 p (hclosed _ _ hf).symm⟩
  | fill _ _ _ _ hread => exact ⟨hclosed, congrArg (Catalog.get? · p) (readAt_run hread).1⟩
  | fillFailed _ _ _ _ hread => exact ⟨hclosed, congrArg (Catalog.get? · p) (readAt_run hread).1⟩
  | overwriteZeros _ _ _ _ _ hread =>
      exact ⟨hclosed, congrArg (Catalog.get? · p) (readAt_run hread).1⟩
  | sync _ hsync => exact ⟨hclosed, congrArg (Catalog.get? · p) (sync_run hsync).1⟩
  | trim hf hset => exact ⟨hclosed, get?_setLen hset (hclosed _ _ hf).symm⟩
  | trimFailed hf hset => exact ⟨hclosed, get?_setLen hset (hclosed _ _ hf).symm⟩
  | move g hf hfile =>
      refine ⟨fun h' f' hf' => ?_, rfl⟩
      rcases c.table.get?_modify_cases hf' with ⟨f₀, hf₀, rfl, rfl⟩ | ⟨-, hf₀⟩
      · rw [hf] at hf₀
        obtain rfl := Option.some.inj hf₀
        rw [hfile]
        exact hclosed _ _ hf
      · exact hclosed _ _ hf₀
  | refuse hopen => exact ⟨hclosed, get?_openFile hopen (hspares _ List.mem_cons_self).symm⟩
  | abandon hopen hsize =>
      obtain ⟨-, rfl⟩ := Prod.mk.inj hsize
      exact ⟨hclosed, get?_openFile hopen (hspares _ List.mem_cons_self).symm⟩
  | @bind path _ _ file _ _ _ _ _ hplace _ hopen hsize =>
      obtain ⟨-, rfl⟩ := Prod.mk.inj hsize
      have hpath : Path.ofString path ≠ p := hspares _ List.mem_cons_self
      refine ⟨fun h' f' hf' => ?_, get?_openFile hopen hpath.symm⟩
      obtain ⟨-, rfl⟩ | ⟨-, hf'⟩ := c.table.get?_of_add_cases hplace hf'
      · have hfile : file.path = Path.ofString path :=
          (disk.openFile trivial hopen).2.2 file rfl
        show file.path ≠ p
        rw [hfile]
        exact hpath
      · exact hclosed _ _ hf'
  | drop hf =>
      exact ⟨fun _ _ hf' => hclosed _ _ (c.table.get?_of_remove hf').2, rfl⟩

theorem closed_steps {p : Path} {as : List Action} {new : List Event} (h : Steps c as new c')
    (hspares : ∀ a ∈ as, Spares p a) (hclosed : Unopened c p) :
    c'.storage.files.get? p = c.storage.files.get? p := by
  induction h with
  | nil => rfl
  | cons hstep _ ih =>
      obtain ⟨hclosed', hsame⟩ :=
        closed_step hstep (fun a ha => hspares a (List.mem_append_left _ ha)) hclosed
      rw [ih (fun a ha => hspares a (List.mem_append_right _ ha)) hclosed', hsame]

/-- What steps do if all calls work. -/
theorem Unfailing.steps {as : List Action} {new : List Event} (hc : Unfailing slotCount allocator c)
    (h : Steps c as new c') :
    Unfailing slotCount allocator c' ∧ ∀ e ∈ new, e.isMishap = false := by
  induction h with
  | nil => exact ⟨hc, fun _ he => nomatch he⟩
  | cons hstep _ ih =>
      obtain ⟨hc', hrest⟩ := ih (hc.step hstep)
      refine ⟨hc', fun e he => ?_⟩
      rcases List.mem_append.mp he with he | he
      · exact isMishap_step hstep hc.working e he
      · exact hrest e he

/-! ### Calls -/

theorem openFile_of_error {name : String} {flags : OpenFlags} {fault : Fault} (mode : Nat)
    (h : Reference.opening (m.files.get? (Path.ofString name)) flags = .error fault) :
    Storage.openFile name flags mode m = (.error fault, m) := by
  cases hfound : m.files.get? (Path.ofString name) with
  | none =>
      rw [hfound, Reference.opening] at h
      split at h
      · cases h
      · rename_i hcreate
        obtain rfl := Except.error.inj h
        simp [Storage.openFile, hfound, hcreate]
  | some bytes =>
      rw [hfound, Reference.opening] at h
      split at h
      · rename_i hexclusive
        obtain rfl := Except.error.inj h
        simp [Storage.openFile, hfound, hexclusive]
      · cases h

theorem openFile_of_ok {name : String} {flags : OpenFlags} {bytes : ByteArray} (mode : Nat)
    (h : Reference.opening (m.files.get? (Path.ofString name)) flags = .ok bytes) :
    ∃ m', Storage.openFile name flags mode m =
        (.ok ⟨Path.ofString name, m.nextDescriptor⟩, m') ∧
      m'.files.get? (Path.ofString name) = some bytes := by
  have hget : ∀ f, (change m.files (Path.ofString name) f).get? (Path.ofString name) =
      some (f ((m.files.get? (Path.ofString name)).getD ByteArray.empty)) := by
    intro f
    rw [change, Catalog.get?_update, if_pos rfl]
  cases hfound : m.files.get? (Path.ofString name) with
  | none =>
      rw [hfound, Reference.opening] at h
      split at h
      · rename_i hcreate
        obtain rfl := Except.ok.inj h
        refine ⟨_, by simp [Storage.openFile, hfound, hcreate]; rfl, ?_⟩
        rw [hget, hfound]
        simp
      · cases h
  | some bytes₀ =>
      rw [hfound, Reference.opening] at h
      split at h
      · cases h
      · rename_i hexclusive
        obtain rfl := Except.ok.inj h
        refine ⟨_, by simp [Storage.openFile, hfound, hexclusive]; rfl, ?_⟩
        rw [hget, hfound]
        rfl

/-- A sync of an open file succeeds, and leaves the file in the storage. -/
theorem Unfailing.sync (hc : Unfailing slotCount allocator c) {h : Handle} {f : OpenFile File}
    (hf : c.table.get? h = some f) :
    (Cache.sync h c).1 = .ok () ∧ (Storage.setLen f.file f.size (c.durable f)).1 = .ok () ∧
      ∃ bytes, (Cache.sync h c).2.storage.files.get? f.file.path = some bytes := by
  obtain ⟨new, hsteps, -⟩ := flushed_steps hf
  have hflushed := (hc.steps hsteps).1.working
  have houtcome : c.flushOutcome f = .ok () :=
    flushOutcome_of_takes (workingDisk_takes f.file) hc.working
  rcases hsync : Storage.sync f.file (c.flushed f).storage with ⟨outcome, storage⟩
  obtain ⟨-, -, hfailing, hok⟩ := sync_run hsync
  obtain rfl := hok (by rw [hflushed]; rfl)
  rcases hset : Storage.setLen f.file f.size storage with ⟨outcome, cut⟩
  obtain ⟨-, -, ⟨hfail, -⟩ | ⟨-, rfl, hfiles⟩⟩ := setLen_run hset
  · rw [hfailing, hflushed] at hfail
    cases hfail
  · have hget : ∃ bytes, cut.files.get? f.file.path = some bytes := by
      rw [hfiles, change, Catalog.get?_update, if_pos rfl]
      exact ⟨_, rfl⟩
    rw [sync_of_ok hf hsync, trim_of_ok hset, durable, hsync]
    exact ⟨houtcome, congrArg Prod.fst hset, hget⟩

end Memory

end BlockCache
