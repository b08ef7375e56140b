import BlockCache.Proofs.Disk
import BlockCache.Storage.Memory

/-!
Files in memory are a disk: whatever calls are switched to fail, a read delivers the bytes that were
stored, and a write replaces its whole range or nothing. Their descriptors count up, so that a cache
over them never has the descriptor of a new file in use.
-/

namespace BlockCache

namespace Memory

variable {m m' : Memory} {file : File} {n : Nat}

/-! ### What the calls come to -/

theorem contents_change (files : Catalog Path ByteArray) (p p' : Path) (f : ByteArray → ByteArray)
    (m : Memory) :
    contents { m with files := change files p f } p' =
      if p = p' then f (contents { m with files } p) else contents { m with files } p' := by
  rw [contents, change, Catalog.get?_update]
  by_cases hp : p = p'
  · rw [if_pos hp, if_pos hp]
    rfl
  · rw [if_neg hp, if_neg hp]
    rfl

theorem openFile_run {name : String} {flags : OpenFlags} {mode : Nat} {outcome : Except Fault File}
    (hrun : Storage.openFile name flags mode m = (outcome, m')) :
    (∃ fault, outcome = .error fault ∧ m' = m) ∨
      ∃ f, outcome = .ok ⟨Path.ofString name, m.nextDescriptor⟩ ∧
        m' = { m with
          files := change m.files (Path.ofString name) f
          nextDescriptor := m.nextDescriptor + 1 } := by
  simp only [Storage.openFile] at hrun
  split at hrun
  · obtain ⟨rfl, rfl⟩ := Prod.mk.inj hrun
    exact Or.inl ⟨_, rfl, rfl⟩
  split at hrun
  · obtain ⟨rfl, rfl⟩ := Prod.mk.inj hrun
    exact Or.inl ⟨_, rfl, rfl⟩
  · obtain ⟨rfl, rfl⟩ := Prod.mk.inj hrun
    exact Or.inr ⟨_, rfl, rfl⟩

theorem failing_openFile {name : String} {flags : OpenFlags} {mode : Nat}
    {outcome : Except Fault File} (hrun : Storage.openFile name flags mode m = (outcome, m')) :
    m'.failing = m.failing := by
  rcases openFile_run hrun with ⟨fault, -, rfl⟩ | ⟨f, -, rfl⟩ <;> rfl

theorem readAt_run {buffer buffer' : Buffer n} {offset : Nat} {outcome : Except Fault Nat}
    (hrun : Storage.readAt file buffer offset m = ((outcome, buffer'), m')) :
    m'.files = m.files ∧ m'.nextDescriptor = m.nextDescriptor ∧ m'.failing = m.failing ∧
      ((m.failing.read = true ∧ outcome = .error failure) ∨
        (m.failing.read = false ∧
          outcome = .ok (Bytes.slice (m.contents file.path) offset n).size ∧
          buffer' = buffer.blit 0 (Bytes.slice (m.contents file.path) offset n))) := by
  simp only [Storage.readAt] at hrun
  split at hrun
  · rename_i hfail
    obtain ⟨hres, rfl⟩ := Prod.mk.inj hrun
    obtain ⟨rfl, rfl⟩ := Prod.mk.inj hres
    exact ⟨rfl, rfl, rfl, Or.inl ⟨hfail, rfl⟩⟩
  · rename_i hfail
    obtain ⟨hres, rfl⟩ := Prod.mk.inj hrun
    obtain ⟨rfl, rfl⟩ := Prod.mk.inj hres
    exact ⟨rfl, rfl, rfl, Or.inr ⟨Bool.eq_false_iff.mpr hfail, rfl, rfl⟩⟩

theorem writeAt_run {buffer : Buffer n} {offset : Nat} {outcome : Except Fault Nat}
    (hrun : Storage.writeAt file buffer offset m = (outcome, m')) :
    m'.nextDescriptor = m.nextDescriptor ∧ m'.failing = m.failing ∧
      ((m.failing.write = true ∧ outcome = .error failure ∧ m'.files = m.files) ∨
        (m.failing.write = false ∧ outcome = .ok n ∧
          m'.files = change m.files file.path fun bytes =>
            Bytes.overlay bytes offset buffer.bytes)) := by
  obtain ⟨files, d, counts, failing⟩ := m
  simp only [Storage.writeAt] at hrun
  split at hrun
  · rename_i hfail
    obtain ⟨rfl, rfl⟩ := Prod.mk.inj hrun
    exact ⟨rfl, rfl, Or.inl ⟨hfail, rfl, rfl⟩⟩
  · rename_i hfail
    obtain ⟨rfl, rfl⟩ := Prod.mk.inj hrun
    exact ⟨rfl, rfl, Or.inr ⟨Bool.eq_false_iff.mpr hfail, rfl, rfl⟩⟩

theorem sync_run {outcome : Except Fault Unit}
    (hrun : Storage.sync file m = (outcome, m')) :
    m'.files = m.files ∧ m'.nextDescriptor = m.nextDescriptor ∧ m'.failing = m.failing ∧
      (m.failing.sync = false → outcome = .ok ()) := by
  obtain ⟨rfl, rfl⟩ := Prod.mk.inj hrun
  refine ⟨rfl, rfl, rfl, fun hfail => ?_⟩
  simp only [hfail, Bool.false_eq_true, if_false]

theorem setLen_run {size : Nat} {outcome : Except Fault Unit}
    (hrun : Storage.setLen file size m = (outcome, m')) :
    m'.nextDescriptor = m.nextDescriptor ∧ m'.failing = m.failing ∧
      ((m.failing.resize = true ∧ outcome = .error failure ∧ m'.files = m.files) ∨
        (m.failing.resize = false ∧ outcome = .ok () ∧
          m'.files = change m.files file.path fun bytes => Bytes.resize bytes size)) := by
  obtain ⟨files, d, counts, failing⟩ := m
  simp only [Storage.setLen] at hrun
  split at hrun
  · rename_i hfail
    obtain ⟨rfl, rfl⟩ := Prod.mk.inj hrun
    exact ⟨rfl, rfl, Or.inl ⟨hfail, rfl, rfl⟩⟩
  · rename_i hfail
    obtain ⟨rfl, rfl⟩ := Prod.mk.inj hrun
    exact ⟨rfl, rfl, Or.inr ⟨Bool.eq_false_iff.mpr hfail, rfl, rfl⟩⟩

/-! ### Files in memory as a disk -/

theorem contents_of_files (h : m'.files = m.files) : m'.contents = m.contents := by
  funext p
  rw [contents, contents, h]

theorem contents_of_change {p : Path} {f : ByteArray → ByteArray}
    (h : m'.files = change m.files p f) (p' : Path) :
    m'.contents p' = if p = p' then f (m.contents p) else m.contents p' := by
  have hchange := contents_change m.files p p' f m
  rw [contents] at hchange
  rw [contents, h]
  exact hchange

def disk : Disk Memory File where
  Sound _ := True
  path := File.path
  content := contents
  openFile := by
    intro m m' name flags mode outcome _ hrun
    rcases openFile_run hrun with ⟨fault, rfl, rfl⟩ | ⟨f, rfl, rfl⟩
    · exact ⟨trivial, fun _ _ => rfl, fun file hok => nomatch hok⟩
    · refine ⟨trivial, fun p hp => ?_, fun file hok => ?_⟩
      · exact (contents_of_change rfl p).trans (if_neg (Ne.symm hp))
      · obtain rfl := Except.ok.inj hok
        rfl
  size := by
    intro m m' file outcome _ hrun
    obtain ⟨rfl, rfl⟩ := Prod.mk.inj hrun
    refine ⟨trivial, rfl, fun n hok => ?_⟩
    obtain rfl := Except.ok.inj hok
    rfl
  readAt := by
    intro m m' n file buffer buffer' offset outcome _ hrun
    obtain ⟨hfiles, -, -, ⟨-, rfl⟩ | ⟨-, rfl, rfl⟩⟩ := readAt_run hrun
    · exact ⟨trivial, contents_of_files hfiles, fun k hok => nomatch hok⟩
    · refine ⟨trivial, contents_of_files hfiles, fun k hok => ?_⟩
      obtain rfl := Except.ok.inj hok
      refine ⟨Bytes.size_slice _ _ _, fun i hi => ?_⟩
      have hin := hi
      rw [Bytes.size_slice] at hin
      rw [Buffer.byteAt_blit, if_pos ⟨Nat.zero_le i, by omega, by omega⟩, Nat.sub_zero,
        Bytes.byteAt_slice, if_pos (by omega)]
  writeAt := by
    intro m m' n file buffer offset outcome _ hrun
    obtain ⟨-, -, ⟨-, rfl, hfiles⟩ | ⟨-, rfl, hfiles⟩⟩ := writeAt_run hrun
    · rw [contents_of_files hfiles]
      exact ⟨trivial, fun _ _ => rfl, fun _ _ => rfl, fun k hok => nomatch hok⟩
    · have hcontent := contents_of_change hfiles
      refine ⟨trivial, fun p hp => ?_, fun i hi => ?_, fun k hok => ?_⟩
      · rw [hcontent, if_neg (Ne.symm hp)]
      · rw [hcontent, if_pos rfl, Bytes.byteAt_overlay, if_neg]
        rw [buffer.size_bytes]
        omega
      · obtain rfl := Except.ok.inj hok
        refine ⟨Nat.le_refl n, fun _ i hi => ?_⟩
        rw [hcontent, if_pos rfl, Bytes.byteAt_overlay, if_pos, Nat.add_sub_cancel_left]
        · rfl
        · rw [buffer.size_bytes]
          omega
  sync := by
    intro m m' file outcome _ hrun
    exact ⟨trivial, contents_of_files (sync_run hrun).1⟩
  setLen := by
    intro m m' file size outcome _ hrun
    obtain ⟨-, -, ⟨-, rfl, hfiles⟩ | ⟨-, rfl, hfiles⟩⟩ := setLen_run hrun
    · rw [contents_of_files hfiles]
      exact ⟨trivial, fun _ _ => rfl, fun hok => (nomatch hok), fun _ _ => rfl⟩
    · have hcontent := contents_of_change hfiles
      refine ⟨trivial, fun p hp => ?_, fun _ => ?_, fun _ herr => (nomatch herr)⟩
      · rw [hcontent, if_neg (Ne.symm hp)]
      · rw [hcontent, if_pos rfl]
  close := fun _ => ⟨trivial, rfl⟩

theorem disk_tears : disk.Tears := by
  intro m m' n file buffer offset outcome _ hrun i hi
  obtain ⟨-, -, ⟨-, -, hfiles⟩ | ⟨-, -, hfiles⟩⟩ := writeAt_run hrun
  · apply Or.inl
    show Bytes.byteAt (m'.contents _) _ = Bytes.byteAt (m.contents _) _
    rw [contents_of_files hfiles]
  · apply Or.inr
    show Bytes.byteAt (m'.contents file.path) _ = _
    rw [contents_of_change hfiles, if_pos rfl, Bytes.byteAt_overlay, if_pos,
      Nat.add_sub_cancel_left]
    · rfl
    · rw [buffer.size_bytes]
      omega

/-! ### Descriptors -/

/-- Whether all open files have descriptors that were given out before. -/
def DescriptorsBelow (c : Cache Memory File) : Prop :=
  ∀ (h : Handle) (f : OpenFile File), c.table.get? h = some f →
    f.descriptor < c.storage.nextDescriptor

theorem nextDescriptor_storeBlock {key : BlockId} {block : Block} {outcome : Except Error Unit}
    (hrun : Cache.storeBlock file key block m = (outcome, m')) :
    m'.nextDescriptor = m.nextDescriptor := by
  obtain ⟨result, hwrite, -⟩ := Cache.storeBlock_run hrun
  exact (writeAt_run hwrite).1

/-- A new file has a descriptor of its own. -/
theorem isFresh_of_below {c : Cache Memory File} (hbelow : DescriptorsBelow c)
    (request : Request) : c.IsFresh request := by
  cases request with
  | openFile name flags mode =>
      intro file hok h f hf
      rcases hrun : Storage.openFile name flags mode c.storage with ⟨outcome, m'⟩
      rw [hrun] at hok
      obtain rfl : outcome = .ok file := hok
      rcases openFile_run hrun with ⟨fault, hfault, -⟩ | ⟨g, hfile, -⟩
      · cases hfault
      · obtain rfl := Except.ok.inj hfile
        have := hbelow _ _ hf
        exact Int.ne_of_lt this
  | _ => trivial

theorem DescriptorsBelow.of_le {c c' : Cache Memory File} (hbelow : DescriptorsBelow c)
    (htable : c'.table = c.table) (hle : c.storage.nextDescriptor ≤ c'.storage.nextDescriptor) :
    DescriptorsBelow c' := by
  intro h f hf
  rw [htable] at hf
  exact Int.lt_of_lt_of_le (hbelow _ _ hf) (Int.ofNat_le.mpr hle)

theorem nextDescriptor_openFile {name : String} {flags : OpenFlags} {mode : Nat}
    {outcome : Except Fault File} (hrun : Storage.openFile name flags mode m = (outcome, m')) :
    m.nextDescriptor ≤ m'.nextDescriptor ∧
      ∀ file, outcome = .ok file → Storage.descriptor Memory file < m'.nextDescriptor := by
  rcases openFile_run hrun with ⟨fault, rfl, rfl⟩ | ⟨f, rfl, rfl⟩
  · exact ⟨Nat.le_refl _, fun file hok => nomatch hok⟩
  · refine ⟨Nat.le_succ _, fun file hok => ?_⟩
    obtain rfl := Except.ok.inj hok
    exact Int.lt_succ _

theorem descriptorsBelow_step {c c' : Cache Memory File} {as : List Action} {new : List Event}
    (h : Cache.Step c as new c') (hbelow : DescriptorsBelow c) : DescriptorsBelow c' := by
  cases h with
  | allocate | report | hit | miss | evictClean | overwrite | replace =>
      exact hbelow.of_le rfl (Nat.le_refl _)
  | evictDirty hs hf howner hstore =>
      exact hbelow.of_le rfl (Nat.le_of_eq (nextDescriptor_storeBlock hstore).symm)
  | flush hs hf howner hstore =>
      exact hbelow.of_le rfl (Nat.le_of_eq (nextDescriptor_storeBlock hstore).symm)
  | fill hf hs hfree habsent hread =>
      exact hbelow.of_le rfl (Nat.le_of_eq (readAt_run hread).2.1.symm)
  | fillFailed hf hs hfree habsent hread =>
      exact hbelow.of_le rfl (Nat.le_of_eq (readAt_run hread).2.1.symm)
  | overwriteZeros hf hs hfree habsent hfits hread =>
      exact hbelow.of_le rfl (Nat.le_of_eq (readAt_run hread).2.1.symm)
  | sync hf hsync => exact hbelow.of_le rfl (Nat.le_of_eq (sync_run hsync).2.1.symm)
  | trim hf hset => exact hbelow.of_le rfl (Nat.le_of_eq (setLen_run hset).1.symm)
  | trimFailed hf hset => exact hbelow.of_le rfl (Nat.le_of_eq (setLen_run hset).1.symm)
  | refuse hopen => exact hbelow.of_le rfl (nextDescriptor_openFile hopen).1
  | abandon hopen hsize =>
      obtain ⟨-, rfl⟩ := Prod.mk.inj hsize
      exact hbelow.of_le rfl (nextDescriptor_openFile hopen).1
  | move g hf hfile hdescriptor =>
      intro h' f' hf'
      rcases c.table.get?_modify_cases hf' with ⟨f₀, hf₀, rfl, rfl⟩ | ⟨-, hf₀⟩
      · rw [hf] at hf₀
        obtain rfl := Option.some.inj hf₀
        rw [hdescriptor]
        exact hbelow _ _ hf
      · exact hbelow _ _ hf₀
  | bind hplace hallocated hopen hsize =>
      obtain ⟨-, rfl⟩ := Prod.mk.inj hsize
      intro h' f' hf'
      have hnext := nextDescriptor_openFile hopen
      obtain ⟨-, rfl⟩ | ⟨-, hf'⟩ := c.table.get?_of_add_cases hplace hf'
      · exact hnext.2 _ rfl
      · exact Int.lt_of_lt_of_le (hbelow _ _ hf') (Int.ofNat_le.mpr hnext.1)
  | drop hf =>
      intro h' f' hf'
      exact hbelow _ _ (c.table.get?_of_remove hf').2

end Memory

end BlockCache
