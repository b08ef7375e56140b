import BlockCache.Proofs.Idle
import BlockCache.Proofs.Unfailing
import BlockCache.Storage.Guarded

/-!
Storages that hold files to the access they were opened for. Reading a file is refused that was not
opened for reading; nothing that is asked of a file that was opened for writing fails. A block that
is written to such a file is stored, and syncing it succeeds. A file that was not opened for writing
can be read, and nothing that is asked of it changes it.

Every storage that takes all writes, and fails no read, becomes one of these when it is guarded.
-/

namespace BlockCache

/-- A file that cannot be read can be written. -/
theorem OpenFlags.isWritable_of_not_isReadable {flags : OpenFlags}
    (h : flags.isReadable = false) : flags.isWritable = true := by
  obtain ⟨hwrite, -⟩ : flags.contains writeOnly = true ∧ flags.contains readWrite = false := by
    simpa [isReadable] using h
  simp only [contains, writeOnly, beq_iff_eq] at hwrite
  simp only [isWritable, intersects, union, writeOnly, readWrite, bne_iff_ne]
  intro hnone
  have hbit : flags.bits &&& 0o1#32 = (flags.bits &&& (0o1#32 ||| 0o2#32)) &&& 0o1#32 := by
    rw [BitVec.and_assoc]
    rfl
  rw [hwrite, hnone] at hbit
  exact absurd hbit (by decide)

namespace Disk

variable {σ φ : Type} [Storage σ φ] {disk : Disk σ φ} {file : φ}

/-- Whether reading a file is refused. -/
def Refuses (disk : Disk σ φ) (file : φ) : Prop :=
  ∀ {s : σ} {n : Nat} (buffer : Buffer n) (offset : Nat), disk.Sound s →
    (Storage.readAt file buffer offset s).1.1 = .error (Fault.ofCode Errno.badDescriptor)

/-- Whether a storage holds files to the access they were opened for, and does not fail for those
that were opened for writing. -/
structure Enforces (disk : Disk σ φ) (flagsOf : φ → OpenFlags) : Prop where
  openFile : ∀ {s s' : σ} {path : String} {flags : OpenFlags} {mode : Nat} {file : φ},
    disk.Sound s → Storage.openFile path flags mode s = (.ok file, s') → flagsOf file = flags
  refuses : ∀ {file : φ}, (flagsOf file).isReadable = false → disk.Refuses file
  takes : ∀ {file : φ}, (flagsOf file).isWritable = true → disk.Takes file

/-- Whether a file can always be read. -/
def Delivers (disk : Disk σ φ) (file : φ) : Prop :=
  ∀ {s : σ} {n : Nat} (buffer : Buffer n) (offset : Nat), disk.Sound s →
    ∃ m, (Storage.readAt file buffer offset s).1.1 = .ok m

/-- Whether a file can be read, and whatever would change it is refused. -/
structure Protects (disk : Disk σ φ) (file : φ) : Prop where
  delivers : disk.Delivers file
  writeAt : ∀ {s : σ} {n : Nat} (buffer : Buffer n) (offset : Nat), disk.Sound s →
    (∃ fault, (Storage.writeAt file buffer offset s).1 = .error fault) ∧
      disk.content (Storage.writeAt file buffer offset s).2 = disk.content s
  setLen : ∀ {s : σ} (size : Nat), disk.Sound s →
    ∃ fault, (Storage.setLen file size s).1 = .error fault

/-- Whether a storage withholds writing from the files that were not opened for it, and does not
fail to read them. -/
structure Withholds (disk : Disk σ φ) (flagsOf : φ → OpenFlags) : Prop where
  openFile : ∀ {s s' : σ} {path : String} {flags : OpenFlags} {mode : Nat} {file : φ},
    disk.Sound s → Storage.openFile path flags mode s = (.ok file, s') → flagsOf file = flags
  protects : ∀ {file : φ}, (flagsOf file).isWritable = false → disk.Protects file

end Disk

/-- Files in memory can be read while no call is to fail. -/
theorem Memory.workingDisk_delivers (file : Memory.File) : workingDisk.Delivers file := by
  intro m n buffer offset (hm : m.failing = allWorking)
  rcases hread : Storage.readAt file buffer offset m with ⟨⟨outcome, buffer'⟩, m'⟩
  obtain ⟨-, -, -, ⟨hfail, -⟩ | ⟨-, hok, -⟩⟩ := readAt_run hread
  · rw [hm] at hfail
    cases hfail
  · exact ⟨_, hok⟩

namespace Cache

variable {σ φ : Type} [Storage σ φ] {disk : Disk σ φ} {c : Cache σ φ} {h : Handle} {f : OpenFile φ}

/-- Syncing a file succeeds, and cuts it, if the storage takes all that is asked of it. -/
theorem sync_of_takes (htakes : disk.Takes f.file) (hs : disk.Sound c.storage)
    (hf : c.table.get? h = some f) :
    (sync h c).1 = .ok () ∧ (Storage.setLen f.file f.size (c.durable f)).1 = .ok () := by
  obtain ⟨new, hflush, -⟩ := flushed_steps hf
  have hflushed := hflush.sound hs
  rcases hsync : Storage.sync f.file (c.flushed f).storage with ⟨outcome, storage⟩
  obtain rfl : outcome = .ok () := by
    have hok := htakes.sync hflushed
    rwa [hsync] at hok
  rw [sync_of_ok hf hsync, durable, hsync]
  exact ⟨flushOutcome_of_takes htakes hs, htakes.setLen _ (disk.sync hflushed hsync).1⟩

end Cache

namespace Guarded

variable {σ φ : Type} [Storage σ φ] {s : σ} {s' : Guarded σ} {file : File φ}

/-! ### What the calls come to -/

theorem readAt_run {n offset : Nat} {buffer buffer' : Buffer n} {outcome : Except Fault Nat}
    (hrun : Storage.readAt file buffer offset (⟨s, true⟩ : Guarded σ) = ((outcome, buffer'), s')) :
    (file.flags.isReadable = false ∧ outcome = .error (Fault.ofCode Errno.badDescriptor) ∧
        s' = ⟨s, true⟩) ∨
      (s'.enforced = true ∧
        Storage.readAt file.file buffer offset s = ((outcome, buffer'), s'.inner)) := by
  simp only [Storage.readAt, bind_apply, get_apply, Bool.true_and] at hrun
  cases hflags : file.flags.isReadable with
  | false =>
      simp only [hflags, Bool.not_false, if_true, pure_apply] at hrun
      obtain ⟨hres, rfl⟩ := Prod.mk.inj hrun
      exact Or.inl ⟨rfl, (Prod.mk.inj hres).1.symm, rfl⟩
  | true =>
      simp only [hflags, Bool.not_true, Bool.false_eq_true, if_false, pass] at hrun
      obtain ⟨hres, rfl⟩ := Prod.mk.inj hrun
      exact Or.inr ⟨rfl, Prod.ext hres rfl⟩

theorem writeAt_run {n offset : Nat} {buffer : Buffer n} {outcome : Except Fault Nat}
    (hrun : Storage.writeAt file buffer offset (⟨s, true⟩ : Guarded σ) = (outcome, s')) :
    (file.flags.isWritable = false ∧ outcome = .error (Fault.ofCode Errno.badDescriptor) ∧
        s' = ⟨s, true⟩) ∨
      (s'.enforced = true ∧ Storage.writeAt file.file buffer offset s = (outcome, s'.inner)) := by
  simp only [Storage.writeAt, bind_apply, get_apply, Bool.true_and] at hrun
  cases hflags : file.flags.isWritable with
  | false =>
      simp only [hflags, Bool.not_false, if_true, pure_apply] at hrun
      obtain ⟨rfl, rfl⟩ := Prod.mk.inj hrun
      exact Or.inl ⟨rfl, rfl, rfl⟩
  | true =>
      simp only [hflags, Bool.not_true, Bool.false_eq_true, if_false, pass] at hrun
      obtain ⟨rfl, rfl⟩ := Prod.mk.inj hrun
      exact Or.inr ⟨rfl, rfl⟩

theorem setLen_run {size : Nat} {outcome : Except Fault Unit}
    (hrun : Storage.setLen file size (⟨s, true⟩ : Guarded σ) = (outcome, s')) :
    (file.flags.isWritable = false ∧ outcome = .error (Fault.ofCode Errno.invalid) ∧
        s' = ⟨s, true⟩) ∨
      (s'.enforced = true ∧ Storage.setLen file.file size s = (outcome, s'.inner)) := by
  simp only [Storage.setLen, bind_apply, get_apply, Bool.true_and] at hrun
  cases hflags : file.flags.isWritable with
  | false =>
      simp only [hflags, Bool.not_false, if_true, pure_apply] at hrun
      obtain ⟨rfl, rfl⟩ := Prod.mk.inj hrun
      exact Or.inl ⟨rfl, rfl, rfl⟩
  | true =>
      simp only [hflags, Bool.not_true, Bool.false_eq_true, if_false, pass] at hrun
      obtain ⟨rfl, rfl⟩ := Prod.mk.inj hrun
      exact Or.inr ⟨rfl, rfl⟩

theorem openFile_run {path : String} {flags : OpenFlags} {mode : Nat}
    {outcome : Except Fault (File φ)}
    (hrun : Storage.openFile path flags mode (⟨s, true⟩ : Guarded σ) = (outcome, s')) :
    ∃ result, Storage.openFile path flags mode s = (result, s'.inner) ∧ s'.enforced = true ∧
      outcome = result.map fun inside => ⟨inside, flags⟩ := by
  simp only [Storage.openFile, bind_apply, pass, pure_apply] at hrun
  obtain ⟨rfl, rfl⟩ := Prod.mk.inj hrun
  exact ⟨_, rfl, rfl, rfl⟩

/-! ### Guarded files as a disk -/

/-- A guarded storage has the files of the storage inside. It is sound while the guard is up. -/
def disk (inner : Disk σ φ) : Disk (Guarded σ) (File φ) where
  Sound s := s.enforced = true ∧ inner.Sound s.inner
  path file := inner.path file.file
  content s := inner.content s.inner
  openFile := by
    rintro ⟨s, _⟩ s' path flags mode outcome ⟨rfl, hs⟩ hrun
    obtain ⟨result, hopen, hup, rfl⟩ := openFile_run hrun
    obtain ⟨hsound, hother, hpath⟩ := inner.openFile hs hopen
    refine ⟨⟨hup, hsound⟩, hother, fun file hok => ?_⟩
    cases result with
    | error fault => cases hok
    | ok inside =>
        obtain rfl := Except.ok.inj hok
        exact hpath inside rfl
  size := by
    rintro ⟨s, _⟩ s' file outcome ⟨rfl, hs⟩ hrun
    simp only [Storage.size, pass] at hrun
    obtain ⟨rfl, rfl⟩ := Prod.mk.inj hrun
    obtain ⟨hsound, hcontent, htold⟩ := inner.size hs rfl
    exact ⟨⟨rfl, hsound⟩, hcontent, htold⟩
  readAt := by
    rintro ⟨s, _⟩ s' n file buffer buffer' offset outcome ⟨rfl, hs⟩ hrun
    obtain ⟨-, rfl, rfl⟩ | ⟨hup, hread⟩ := readAt_run hrun
    · exact ⟨⟨rfl, hs⟩, rfl, fun m hok => nomatch hok⟩
    · obtain ⟨hsound, hcontent, hbytes⟩ := inner.readAt hs hread
      exact ⟨⟨hup, hsound⟩, hcontent, hbytes⟩
  writeAt := by
    rintro ⟨s, _⟩ s' n file buffer offset outcome ⟨rfl, hs⟩ hrun
    obtain ⟨-, rfl, rfl⟩ | ⟨hup, hwrite⟩ := writeAt_run hrun
    · exact ⟨⟨rfl, hs⟩, fun _ _ => rfl, fun _ _ => rfl, fun m hok => nomatch hok⟩
    · obtain ⟨hsound, hother, houtside, hinside⟩ := inner.writeAt hs hwrite
      exact ⟨⟨hup, hsound⟩, hother, houtside, hinside⟩
  sync := by
    rintro ⟨s, _⟩ s' file outcome ⟨rfl, hs⟩ hrun
    simp only [Storage.sync, pass] at hrun
    obtain ⟨rfl, rfl⟩ := Prod.mk.inj hrun
    obtain ⟨hsound, hcontent⟩ := inner.sync hs rfl
    exact ⟨⟨rfl, hsound⟩, hcontent⟩
  setLen := by
    rintro ⟨s, _⟩ s' file size outcome ⟨rfl, hs⟩ hrun
    obtain ⟨-, rfl, rfl⟩ | ⟨hup, hset⟩ := setLen_run hrun
    · exact ⟨⟨rfl, hs⟩, fun _ _ => rfl, fun hok => (nomatch hok), fun _ _ => rfl⟩
    · obtain ⟨hsound, hother, hresize, hkept⟩ := inner.setLen hs hset
      exact ⟨⟨hup, hsound⟩, hother, hresize, hkept⟩
  close := by
    rintro ⟨s, _⟩ file ⟨rfl, hs⟩
    have hclosed : inner.Sound (Storage.close file.file s).2 ∧
        inner.content (Storage.close file.file s).2 = inner.content s := inner.close hs
    exact ⟨⟨rfl, hclosed.1⟩, hclosed.2⟩

/-- A file that was opened has the flags it was opened with. -/
theorem flags_of_openFile {path : String} {flags : OpenFlags} {mode : Nat}
    (hrun : Storage.openFile path flags mode (⟨s, true⟩ : Guarded σ) = (.ok file, s')) :
    file.flags = flags := by
  obtain ⟨result, -, -, hok⟩ := openFile_run hrun
  cases result with
  | error fault => cases hok
  | ok inside =>
      obtain rfl := Except.ok.inj hok
      rfl

/-- A guarded storage holds files to the access they were opened for, if the storage inside takes
all that is written. -/
theorem disk_enforces {inner : Disk σ φ} (htakes : ∀ file, inner.Takes file) :
    (disk inner).Enforces File.flags where
  openFile := by
    rintro ⟨s, _⟩ s' path flags mode file ⟨rfl, -⟩ hrun
    exact flags_of_openFile hrun
  refuses := by
    rintro file hflags ⟨s, _⟩ n buffer offset ⟨rfl, -⟩
    simp only [Storage.readAt, bind_apply, get_apply, hflags, Bool.not_false, Bool.and_self,
      if_true]
    rfl
  takes := by
    intro file hflags
    have hpassed : ¬ file.flags.isWritable = false := by
      rw [hflags]
      exact Bool.noConfusion
    refine ⟨?_, ?_, ?_⟩
    · rintro ⟨s, _⟩ n buffer offset ⟨rfl, hs⟩
      rcases hrun : Storage.writeAt file buffer offset (⟨s, true⟩ : Guarded σ) with ⟨outcome, s'⟩
      obtain ⟨hnot, -⟩ | ⟨-, hwrite⟩ := writeAt_run hrun
      · exact absurd hnot hpassed
      · have hok := (htakes file.file).writeAt buffer offset hs
        rwa [hwrite] at hok
    · rintro ⟨s, _⟩ ⟨rfl, hs⟩
      exact (htakes file.file).sync hs
    · rintro ⟨s, _⟩ size ⟨rfl, hs⟩
      rcases hrun : Storage.setLen file size (⟨s, true⟩ : Guarded σ) with ⟨outcome, s'⟩
      obtain ⟨hnot, -⟩ | ⟨-, hset⟩ := setLen_run hrun
      · exact absurd hnot hpassed
      · have hok := (htakes file.file).setLen size hs
        rwa [hset] at hok

/-- A guarded storage withholds writing from the files that were not opened for it, if the storage
inside fails no read. -/
theorem disk_withholds {inner : Disk σ φ} (hdelivers : ∀ file, inner.Delivers file) :
    (disk inner).Withholds File.flags where
  openFile := by
    rintro ⟨s, _⟩ s' path flags mode file ⟨rfl, -⟩ hrun
    exact flags_of_openFile hrun
  protects := by
    intro file hflags
    have hreadable : ¬ file.flags.isReadable = false := fun hnot =>
      Bool.false_ne_true (hflags.symm.trans (OpenFlags.isWritable_of_not_isReadable hnot))
    refine ⟨?_, ?_, ?_⟩
    · rintro ⟨s, _⟩ n buffer offset ⟨rfl, hs⟩
      rcases hrun : Storage.readAt file buffer offset (⟨s, true⟩ : Guarded σ) with
        ⟨⟨outcome, buffer'⟩, s'⟩
      obtain ⟨hnot, -⟩ | ⟨-, hread⟩ := readAt_run hrun
      · exact absurd hnot hreadable
      · obtain ⟨m, hok⟩ := hdelivers file.file buffer offset hs
        rw [hread] at hok
        exact ⟨m, hok⟩
    · rintro ⟨s, _⟩ n buffer offset ⟨rfl, -⟩
      have hrun : Storage.writeAt file buffer offset (⟨s, true⟩ : Guarded σ) =
          (.error (Fault.ofCode Errno.badDescriptor), ⟨s, true⟩) := by
        simp [Storage.writeAt, bind_apply, get_apply, pure_apply, hflags]
      rw [hrun]
      exact ⟨⟨_, rfl⟩, rfl⟩
    · rintro ⟨s, _⟩ size ⟨rfl, -⟩
      have hrun : Storage.setLen file size (⟨s, true⟩ : Guarded σ) =
          (.error (Fault.ofCode Errno.invalid), ⟨s, true⟩) := by
        simp [Storage.setLen, bind_apply, get_apply, pure_apply, hflags]
      rw [hrun]
      exact ⟨_, rfl⟩

end Guarded

end BlockCache
