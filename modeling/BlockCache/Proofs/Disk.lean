import BlockCache.Path
import BlockCache.Proofs.Calls

/-!
What is relied on of a storage. A `Disk` tells the contents of the files of a storage, by path, and
how every call treats them: a read that succeeds delivers the stored bytes up to the end of the
file, a write that fails or is short may leave anything in the range it was for, and a call that
fails to resize a file, or to make it durable, changes nothing. Any call may fail.
-/

namespace BlockCache

/-- The contents of the files of a storage, and how calls treat them. -/
structure Disk (σ φ : Type) [Storage σ φ] where
  /-- The states for which all this holds. -/
  Sound : σ → Prop
  path : φ → Path
  content : σ → Path → ByteArray
  /-- Opening a file does nothing to the files at other paths. -/
  openFile : ∀ {s s' : σ} {name : String} {flags : OpenFlags} {mode : Nat}
    {outcome : Except Fault φ}, Sound s → Storage.openFile name flags mode s = (outcome, s') →
    Sound s' ∧ (∀ p, p ≠ Path.ofString name → content s' p = content s p) ∧
      ∀ file, outcome = .ok file → path file = Path.ofString name
  size : ∀ {s s' : σ} {file : φ} {outcome : Except Fault Nat}, Sound s →
    Storage.size file s = (outcome, s') →
    Sound s' ∧ content s' = content s ∧ ∀ n, outcome = .ok n → n = (content s (path file)).size
  readAt : ∀ {s s' : σ} {n : Nat} {file : φ} {buffer buffer' : Buffer n} {offset : Nat}
    {outcome : Except Fault Nat}, Sound s →
    Storage.readAt file buffer offset s = ((outcome, buffer'), s') →
    Sound s' ∧ content s' = content s ∧ ∀ m, outcome = .ok m →
      m = min n ((content s (path file)).size - offset) ∧
      ∀ i, i < m → buffer'.byteAt i = Bytes.byteAt (content s (path file)) (offset + i)
  /-- A write changes no byte outside its range, and if it is complete every byte inside. -/
  writeAt : ∀ {s s' : σ} {n : Nat} {file : φ} {buffer : Buffer n} {offset : Nat}
    {outcome : Except Fault Nat}, Sound s →
    Storage.writeAt file buffer offset s = (outcome, s') →
    Sound s' ∧ (∀ p, p ≠ path file → content s' p = content s p) ∧
      (∀ i, i < offset ∨ offset + n ≤ i →
        Bytes.byteAt (content s' (path file)) i = Bytes.byteAt (content s (path file)) i) ∧
      ∀ m, outcome = .ok m → m ≤ n ∧
        (m = n → ∀ i, i < n → Bytes.byteAt (content s' (path file)) (offset + i) = buffer.byteAt i)
  sync : ∀ {s s' : σ} {file : φ} {outcome : Except Fault Unit}, Sound s →
    Storage.sync file s = (outcome, s') → Sound s' ∧ content s' = content s
  setLen : ∀ {s s' : σ} {file : φ} {size : Nat} {outcome : Except Fault Unit}, Sound s →
    Storage.setLen file size s = (outcome, s') →
    Sound s' ∧ (∀ p, p ≠ path file → content s' p = content s p) ∧
      (outcome = .ok () → content s' (path file) = Bytes.resize (content s (path file)) size) ∧
      (∀ fault, outcome = .error fault → content s' = content s)
  close : ∀ {s : σ} {file : φ}, Sound s →
    Sound (Storage.close file s).2 ∧ content (Storage.close file s).2 = content s

namespace Disk

variable {σ φ : Type} [Storage σ φ] (disk : Disk σ φ)

/-- The byte of a file at an offset, zero past its end. -/
def byteAt (s : σ) (file : φ) (i : Nat) : UInt8 :=
  Bytes.byteAt (disk.content s (disk.path file)) i

/-- Whether every byte that a write is for is the old or the new one afterwards, even if the write
fails or is short. -/
def Tears : Prop :=
  ∀ {s s' : σ} {n : Nat} {file : φ} {buffer : Buffer n} {offset : Nat}
    {outcome : Except Fault Nat}, disk.Sound s →
    Storage.writeAt file buffer offset s = (outcome, s') → ∀ i, i < n →
      disk.byteAt s' file (offset + i) = disk.byteAt s file (offset + i) ∨
      disk.byteAt s' file (offset + i) = buffer.byteAt i

/-- Whether no call fails that makes a file durable or resizes it. -/
def Works : Prop :=
  ∀ (s : σ) (file : φ), disk.Sound s →
    (Storage.sync file s).1 = .ok () ∧ ∀ size, (Storage.setLen file size s).1 = .ok ()

/-- Whether a file takes all that is written to it, and can be made durable and cut. -/
structure Takes (file : φ) : Prop where
  writeAt : ∀ {s : σ} {n : Nat} (buffer : Buffer n) (offset : Nat), disk.Sound s →
    (Storage.writeAt file buffer offset s).1 = .ok n
  sync : ∀ {s : σ}, disk.Sound s → (Storage.sync file s).1 = .ok ()
  setLen : ∀ {s : σ} (size : Nat), disk.Sound s → (Storage.setLen file size s).1 = .ok ()

variable {disk} {s s' : σ} {file : φ} {key : BlockId} {block : Block} {outcome : Except Error Unit}

/-- Storing a block touches that block only, and puts it in place if it succeeds. -/
theorem storeBlock_spec (hs : disk.Sound s)
    (hrun : Cache.storeBlock file key block s = (outcome, s')) :
    disk.Sound s' ∧ (∀ p, p ≠ disk.path file → disk.content s' p = disk.content s p) ∧
      (∀ b p, p < blockSize → b ≠ key.index →
        disk.byteAt s' file (b * blockSize + p) = disk.byteAt s file (b * blockSize + p)) ∧
      (outcome = .ok () → ∀ p, p < blockSize →
        disk.byteAt s' file (key.index * blockSize + p) = block.byteAt p) := by
  obtain ⟨result, hwrite, hresult, -⟩ := Cache.storeBlock_run hrun
  obtain ⟨hsound, hother, houtside, hinside⟩ := disk.writeAt hs hwrite
  refine ⟨hsound, hother, fun b p hp hb => ?_, fun hok p hp => ?_⟩
  · apply houtside
    simp only [BlockId.offset, blockSize] at hp ⊢
    omega
  · exact (hinside _ (hresult.mp hok)).2 rfl p hp

namespace Takes

theorem storeBlock (h : disk.Takes file) {s s' : σ} (hs : disk.Sound s) {key : BlockId}
    {block : Block} {outcome : Except Error Unit}
    (hrun : Cache.storeBlock file key block s = (outcome, s')) :
    disk.Sound s' ∧ outcome = .ok () := by
  obtain ⟨result, hwrite, hresult, -⟩ := Cache.storeBlock_run hrun
  have hok := h.writeAt block key.offset hs
  rw [hwrite] at hok
  exact ⟨(storeBlock_spec hs hrun).1, hresult.mpr hok⟩

theorem writeAll (h : disk.Takes file) {dirty : List Pool.DirtyBlock} {s : σ}
    (hs : disk.Sound s) :
    ∀ a ∈ (Pool.writeAll (Cache.storeBlock file) dirty s).1, a.outcome = .ok () := by
  induction dirty generalizing s with
  | nil => exact fun _ ha => nomatch ha
  | cons d rest ih =>
      intro a ha
      rcases hstore : Cache.storeBlock file d.key d.block s with ⟨outcome, s₁⟩
      obtain ⟨hs₁, rfl⟩ := h.storeBlock hs hstore
      rw [Pool.writeAll_cons, hstore] at ha
      rcases List.mem_cons.mp ha with rfl | ha
      · rfl
      · exact ih hs₁ a ha

end Takes

end Disk

/-- All dirty blocks of a file can be written back that takes all writes. -/
theorem Cache.flushOutcome_of_takes {σ φ : Type} [Storage σ φ] {disk : Disk σ φ} {c : Cache σ φ}
    {f : OpenFile φ} (htakes : disk.Takes f.file) (hs : disk.Sound c.storage) :
    flushOutcome c f = .ok () := by
  refine if_neg (Nat.not_lt.mpr (Nat.le_of_eq (List.countP_eq_zero.mpr fun a ha => ?_)))
  rw [htakes.writeAll hs a ha]
  exact Bool.false_ne_true

/-! ### Traced storages -/

/-- A call that is written down is a call of the storage inside. -/
theorem Traced.inner_record {σ φ α : Type} {s s' : Traced σ φ} {call : StateM σ α}
    {entry : α → Call φ} {a : α} (h : record call entry s = (a, s')) :
    call s.inner = (a, s'.inner) := by
  obtain ⟨rfl, rfl⟩ := Prod.mk.inj h
  rfl

namespace Disk

variable {σ φ : Type} [Storage σ φ]

/-- The files of a storage whose calls are written down are those of the storage inside. -/
def traced (disk : Disk σ φ) : Disk (Traced σ φ) φ where
  Sound s := disk.Sound s.inner
  path := disk.path
  content s := disk.content s.inner
  openFile hs hrun := disk.openFile hs (Traced.inner_record hrun)
  size hs hrun := disk.size hs (Traced.inner_record hrun)
  readAt hs hrun := disk.readAt hs (Traced.inner_record hrun)
  writeAt hs hrun := disk.writeAt hs (Traced.inner_record hrun)
  sync hs hrun := disk.sync hs (Traced.inner_record hrun)
  setLen hs hrun := disk.setLen hs (Traced.inner_record hrun)
  close hs := disk.close hs

theorem Tears.traced {disk : Disk σ φ} (h : disk.Tears) : disk.traced.Tears :=
  fun hs hrun => h hs (Traced.inner_record hrun)

end Disk

end BlockCache
