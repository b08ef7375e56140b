import BlockCache.Proofs.InMemory
import BlockCache.Storage.Scripted

/-!
Storages that are oblivious of the bytes of a secret file. Two states of such a storage that differ
in these bytes alone answer every call in the same way: which calls fail, and how, may depend on the
call, on the file and on the offset, but not on data. A read that succeeds has put as many bytes in
place as it tells; the rest of the buffer, and all of it if the read fails, may be anything.
-/

namespace BlockCache

/-- The contents of the files of a storage, and when two states of it are alike but for the bytes of
a secret file. -/
structure Oblivious (σ φ : Type) [Storage σ φ] (secret : Path) where
  path : φ → Path
  content : σ → Path → ByteArray
  /-- Whether two states agree in all but the bytes of the secret file. -/
  Alike : σ → σ → Prop
  content_eq : ∀ {s t : σ}, Alike s t → ∀ p, p ≠ secret → content s p = content t p
  openFile : ∀ {s t : σ} (name : String) (flags : OpenFlags) (mode : Nat), Alike s t →
    (Storage.openFile name flags mode s).1 = (Storage.openFile name flags mode t).1 ∧
      Alike (Storage.openFile name flags mode s).2 (Storage.openFile name flags mode t).2 ∧
      ∀ file, (Storage.openFile name flags mode s).1 = .ok file → path file = Path.ofString name
  size : ∀ {s t : σ} (file : φ), Alike s t →
    (Storage.size file s).1 = (Storage.size file t).1 ∧
      Alike (Storage.size file s).2 (Storage.size file t).2
  readAt : ∀ {s t : σ} {n : Nat} (file : φ) (buffer buffer' : Buffer n) (offset : Nat), Alike s t →
    (Storage.readAt file buffer offset s).1.1 = (Storage.readAt file buffer' offset t).1.1 ∧
      Alike (Storage.readAt file buffer offset s).2 (Storage.readAt file buffer' offset t).2 ∧
      ∀ count, (Storage.readAt file buffer offset s).1.1 = .ok count →
        count ≤ n ∧ (path file ≠ secret → ∀ i, i < count →
          (Storage.readAt file buffer offset s).1.2.byteAt i =
            (Storage.readAt file buffer' offset t).1.2.byteAt i)
  writeAt : ∀ {s t : σ} {n : Nat} (file : φ) (buffer buffer' : Buffer n) (offset : Nat),
    (path file ≠ secret → buffer = buffer') → Alike s t →
    (Storage.writeAt file buffer offset s).1 = (Storage.writeAt file buffer' offset t).1 ∧
      Alike (Storage.writeAt file buffer offset s).2 (Storage.writeAt file buffer' offset t).2
  sync : ∀ {s t : σ} (file : φ), Alike s t →
    (Storage.sync file s).1 = (Storage.sync file t).1 ∧
      Alike (Storage.sync file s).2 (Storage.sync file t).2
  setLen : ∀ {s t : σ} (file : φ) (size : Nat), Alike s t →
    (Storage.setLen file size s).1 = (Storage.setLen file size t).1 ∧
      Alike (Storage.setLen file size s).2 (Storage.setLen file size t).2
  close : ∀ {s t : σ} (file : φ), Alike s t →
    Alike (Storage.close file s).2 (Storage.close file t).2

namespace Oblivious

variable {σ φ : Type} [Storage σ φ] {secret : Path} (d : Oblivious σ φ secret)

/-- Whether no file that a descriptor stands for is the secret one. -/
def Shows (table : FileTable φ) (owner : Descriptor) : Prop :=
  ∀ h f, table.get? h = some f → f.descriptor = owner → d.path f.file ≠ secret

variable {d}

/-- What is stored of a block is the same if its file is not secret. -/
theorem storeBlock {s t : σ} {file : φ} (key : BlockId) {block block' : Block}
    (hblock : d.path file ≠ secret → block = block') (hs : d.Alike s t) :
    (Cache.storeBlock file key block s).1 = (Cache.storeBlock file key block' t).1 ∧
      d.Alike (Cache.storeBlock file key block s).2 (Cache.storeBlock file key block' t).2 := by
  obtain ⟨houtcome, hnext⟩ := d.writeAt file block block' key.offset hblock hs
  rw [Cache.storeBlock, Cache.storeBlock, bind_apply, bind_apply, houtcome]
  cases (Storage.writeAt file block' key.offset t).1 with
  | ok n => exact ⟨rfl, hnext⟩
  | error fault => exact ⟨rfl, hnext⟩

/-- A block that is read in, with zeros after what there was, is the same if its file is not
secret. -/
theorem fetchBlock {s t : σ} (file : φ) (key : BlockId) (block block' : Block) (hs : d.Alike s t) :
    (Cache.fetchBlock file key block s).1.1 = (Cache.fetchBlock file key block' t).1.1 ∧
      d.Alike (Cache.fetchBlock file key block s).2 (Cache.fetchBlock file key block' t).2 ∧
      ∀ count, (Cache.fetchBlock file key block s).1.1 = .ok count → d.path file ≠ secret →
        (Cache.fetchBlock file key block s).1.2.zeroFrom count =
          (Cache.fetchBlock file key block' t).1.2.zeroFrom count := by
  obtain ⟨houtcome, hnext, hbytes⟩ := d.readAt file block block' key.offset hs
  rcases hread : Storage.readAt file block key.offset s with ⟨⟨outcome, fetched⟩, s'⟩
  rcases hread' : Storage.readAt file block' key.offset t with ⟨⟨outcome', fetched'⟩, t'⟩
  rw [hread, hread'] at houtcome hnext hbytes
  obtain rfl : outcome = outcome' := houtcome
  cases outcome with
  | error fault =>
      rw [Cache.fetchBlock_of_error hread, Cache.fetchBlock_of_error hread']
      exact ⟨rfl, hnext, fun _ hok => nomatch hok⟩
  | ok n =>
      rw [Cache.fetchBlock_of_ok hread, Cache.fetchBlock_of_ok hread']
      refine ⟨rfl, hnext, fun count hok hopen => Buffer.ext_byteAt fun i hi => ?_⟩
      obtain rfl := Except.ok.inj hok
      rw [Buffer.byteAt_zeroFrom, Buffer.byteAt_zeroFrom]
      split
      · rename_i hin
        exact (hbytes n rfl).2 hopen i hin
      · rfl

end Oblivious

/-! ### Files in memory -/

namespace Memory

variable {secret : Path} {m m' : Memory}

/-- Whether files in memory agree but for the bytes of one file. Its size is the same. -/
structure Alike (secret : Path) (m m' : Memory) : Prop where
  files : ∀ p, Option.Rel (fun bytes bytes' => bytes.size = bytes'.size ∧
    (p ≠ secret → bytes = bytes')) (m.files.get? p) (m'.files.get? p)
  nextDescriptor_eq : m.nextDescriptor = m'.nextDescriptor
  failing_eq : m.failing = m'.failing

namespace Alike

variable (h : Alike secret m m')
include h

theorem contents (p : Path) : (m.contents p).size = (m'.contents p).size ∧
    (p ≠ secret → m.contents p = m'.contents p) := by
  have hfile := h.files p
  rw [Memory.contents, Memory.contents]
  cases hget : m.files.get? p <;> cases hget' : m'.files.get? p <;> rw [hget, hget'] at hfile <;>
    cases hfile
  · exact ⟨rfl, fun _ => rfl⟩
  · assumption

theorem isSome_eq (p : Path) : (m.files.get? p).isSome = (m'.files.get? p).isSome := by
  have hfile := h.files p
  cases hget : m.files.get? p <;> cases hget' : m'.files.get? p <;> rw [hget, hget'] at hfile <;>
    cases hfile
  rfl

/-- A change of one file that goes by its size, unless its bytes agree, leaves the others alone. -/
theorem change (p : Path) {f f' : ByteArray → ByteArray}
    (hsize : ∀ bytes bytes', bytes.size = bytes'.size → (f bytes).size = (f' bytes').size)
    (hsame : p ≠ secret → f = f') (q : Path) :
    Option.Rel (fun bytes bytes' => bytes.size = bytes'.size ∧ (q ≠ secret → bytes = bytes'))
      ((Memory.change m.files p f).get? q) ((Memory.change m'.files p f').get? q) := by
  rw [Memory.change, Memory.change, Catalog.get?_update, Catalog.get?_update]
  split
  · rename_i hp
    subst hp
    obtain ⟨hsizes, hbytes⟩ := h.contents p
    refine .some ⟨hsize _ _ hsizes, fun hopen => ?_⟩
    rw [hsame hopen]
    exact congrArg f' (hbytes hopen)
  · exact h.files q

end Alike

/-- Bytes put at the start of a buffer hide what it held there. -/
theorem byteAt_blit_front {n : Nat} (buffer buffer' : Buffer n) {bytes : ByteArray}
    (hfits : bytes.size ≤ n) {i : Nat} (hi : i < bytes.size) :
    (buffer.blit 0 bytes).byteAt i = (buffer'.blit 0 bytes).byteAt i := by
  rw [Buffer.byteAt_blit, Buffer.byteAt_blit,
    if_pos ⟨Nat.zero_le i, by omega, by omega⟩, if_pos ⟨Nat.zero_le i, by omega, by omega⟩]

/-- Whether a call of files in memory fails, and how many bytes it is for, goes by their sizes. -/
def oblivious (secret : Path) : Oblivious Memory File secret where
  path := File.path
  content := contents
  Alike := Alike secret
  content_eq h p hp := (h.contents p).2 hp
  openFile := by
    intro m m' name flags mode h
    simp only [Storage.openFile]
    rw [← h.isSome_eq]
    split
    · exact ⟨rfl, h, fun file hok => by cases hok⟩
    split
    · exact ⟨rfl, h, fun file hok => by cases hok⟩
    · rw [h.nextDescriptor_eq]
      refine ⟨rfl, ⟨h.change _ (fun bytes bytes' hsize => ?_) fun _ => rfl, rfl, h.failing_eq⟩,
        fun file hok => ?_⟩
      · split
        · rfl
        · exact hsize
      · obtain rfl := Except.ok.inj hok
        rfl
  size := by
    intro m m' file h
    exact ⟨congrArg Except.ok (h.contents file.path).1, h⟩
  readAt := by
    intro m m' n file buffer buffer' offset h
    obtain ⟨hsize, hbytes⟩ := h.contents file.path
    simp only [Storage.readAt]
    rw [← h.failing_eq]
    split
    · exact ⟨rfl, ⟨h.files, h.nextDescriptor_eq, rfl⟩, fun count hok => by cases hok⟩
    · refine ⟨?_, ⟨h.files, h.nextDescriptor_eq, rfl⟩, fun count hok => ⟨?_, fun hopen i hi => ?_⟩⟩
      · show Except.ok (Bytes.slice (m.contents file.path) offset n).size =
          Except.ok (Bytes.slice (m'.contents file.path) offset n).size
        rw [Bytes.size_slice, Bytes.size_slice, hsize]
      · obtain rfl := Except.ok.inj hok
        rw [Bytes.size_slice]
        exact Nat.min_le_left _ _
      · obtain rfl := Except.ok.inj hok
        have hin : i < (Bytes.slice (m.contents file.path) offset n).size := hi
        have hle : (Bytes.slice (m.contents file.path) offset n).size ≤ n := by
          rw [Bytes.size_slice]
          exact Nat.min_le_left _ _
        show (buffer.blit 0 (Bytes.slice (m.contents file.path) offset n)).byteAt i =
          (buffer'.blit 0 (Bytes.slice (m'.contents file.path) offset n)).byteAt i
        rw [← hbytes hopen]
        exact byteAt_blit_front buffer buffer' hle hin
  writeAt := by
    intro m m' n file buffer buffer' offset hbuffer h
    obtain ⟨files, next, counts, failing⟩ := m
    obtain ⟨files', next', counts', failing'⟩ := m'
    obtain rfl : failing = failing' := h.failing_eq
    simp only [Storage.writeAt]
    split
    · exact ⟨rfl, h.files, h.nextDescriptor_eq, rfl⟩
    · refine ⟨rfl, h.change _ (fun bytes bytes' hsize => ?_) (fun hopen => ?_),
        h.nextDescriptor_eq, rfl⟩
      · rw [Bytes.size_overlay, Bytes.size_overlay, hsize, buffer.size_bytes, buffer'.size_bytes]
      · rw [hbuffer hopen]
  sync := by
    intro m m' file h
    refine ⟨?_, h.files, h.nextDescriptor_eq, h.failing_eq⟩
    simp only [Storage.sync, h.failing_eq]
  setLen := by
    intro m m' file size h
    obtain ⟨files, next, counts, failing⟩ := m
    obtain ⟨files', next', counts', failing'⟩ := m'
    obtain rfl : failing = failing' := h.failing_eq
    simp only [Storage.setLen]
    split
    · exact ⟨rfl, h.files, h.nextDescriptor_eq, rfl⟩
    · refine ⟨rfl, h.change _ (fun bytes bytes' hsize => ?_) (fun _ => rfl),
        h.nextDescriptor_eq, rfl⟩
      rw [Bytes.size_resize, Bytes.size_resize]
  close file h := h

end Memory

/-! ### Storages that fail by a script -/

namespace Scripted

variable {σ φ : Type} [Storage σ φ] {secret : Path}

/-- Whether a rule makes no read tell of more bytes than it put in place. -/
def Rule.IsHonest (rule : Rule) : Prop := rule.operation = .read → rule.reported = none

theorem Rule.isHonest_afterUse {rule rule' : Rule} (h : rule.IsHonest)
    (hnext : rule.afterUse = some rule') : rule'.IsHonest := by
  unfold Rule.afterUse at hnext
  split at hnext
  · split at hnext
    · cases hnext
    · obtain rfl := Option.some.inj hnext
      exact h
  · obtain rfl := Option.some.inj hnext
    exact h

/-- The rule for a call is one for its operation, and honest if all of them are. -/
theorem consult_spec (operation : Operation) (descriptor : Option Descriptor) (offset : Option Nat)
    {rules : List Rule} (h : ∀ rule ∈ rules, rule.IsHonest) :
    (∀ rule ∈ (consult operation descriptor offset rules).2, rule.IsHonest) ∧
      ∀ rule, (consult operation descriptor offset rules).1 = some rule →
        rule.operation = operation ∧ rule.IsHonest := by
  induction rules with
  | nil => exact ⟨h, fun rule hnone => nomatch hnone⟩
  | cons rule rest ih =>
      have hrule := h rule List.mem_cons_self
      have hrest : ∀ r ∈ rest, r.IsHonest := fun r hr => h r (List.mem_cons_of_mem _ hr)
      rw [consult]
      split
      · rename_i hfits
        refine ⟨fun r hr => ?_, fun r hfound => ?_⟩
        · rcases List.mem_append.mp hr with hr | hr
          · exact Rule.isHonest_afterUse hrule (Option.mem_toList.mp hr)
          · exact hrest r hr
        · obtain rfl := Option.some.inj hfound
          simp only [Rule.fits, Bool.and_eq_true, beq_iff_eq] at hfits
          exact ⟨hfits.1.1, hrule⟩
      · obtain ⟨hleft, hfound⟩ := ih hrest
        refine ⟨fun r hr => ?_, hfound⟩
        rcases List.mem_cons.mp hr with rfl | hr
        · exact hrule
        · exact hleft r hr

/-- Whether scripted storages have the same rules, all of them honest, over alike storages. -/
structure Alike (d : Oblivious σ φ secret) (s t : Scripted σ) : Prop where
  inner : d.Alike s.inner t.inner
  rules_eq : s.rules = t.rules
  honest : ∀ rule ∈ s.rules, rule.IsHonest

namespace Alike

variable {d : Oblivious σ φ secret} {s t : Scripted σ}

theorem use (h : Alike d s t) (operation : Operation) (descriptor : Option Descriptor)
    (offset : Option Nat) :
    (Scripted.use operation descriptor offset s).1 =
        (Scripted.use operation descriptor offset t).1 ∧
      Alike d (Scripted.use operation descriptor offset s).2
        (Scripted.use operation descriptor offset t).2 ∧
      ∀ rule, (Scripted.use operation descriptor offset s).1 = some rule →
        rule.operation = operation ∧ rule.IsHonest := by
  obtain ⟨inner, rules⟩ := s
  obtain ⟨inner', rules'⟩ := t
  obtain rfl : rules = rules' := h.rules_eq
  obtain ⟨hleft, hfound⟩ := consult_spec operation descriptor offset h.honest
  exact ⟨rfl, ⟨h.inner, rfl, hleft⟩, hfound⟩

/-- A call that a rule can only make fail goes the same way in both. -/
theorem unlessFaulty {α : Type} (h : Alike d s t) (rule : Option Rule)
    {call call' : StateM σ (Except Fault α)}
    (hcall : (call s.inner).1 = (call' t.inner).1 ∧
      d.Alike (call s.inner).2 (call' t.inner).2) :
    (Scripted.unlessFaulty rule call s).1 = (Scripted.unlessFaulty rule call' t).1 ∧
      Alike d (Scripted.unlessFaulty rule call s).2 (Scripted.unlessFaulty rule call' t).2 := by
  unfold Scripted.unlessFaulty
  cases rule.bind (·.fault) with
  | some fault => exact ⟨rfl, h⟩
  | none => exact ⟨hcall.1, hcall.2, h.rules_eq, h.honest⟩

end Alike

/-- A script fails calls by what they are, and not by data. -/
def oblivious (d : Oblivious σ φ secret) : Oblivious (Scripted σ) φ secret where
  path := d.path
  content s := d.content s.inner
  Alike := Alike d
  content_eq h := d.content_eq h.inner
  openFile := by
    intro s t name flags mode h
    obtain ⟨hrule, hnext, -⟩ := h.use .openFile none none
    obtain ⟨hopened, hinner, hpath⟩ := d.openFile name flags mode hnext.inner
    simp only [Storage.openFile, bind_apply]
    rw [← hrule]
    obtain ⟨houtcome, hlast⟩ := hnext.unlessFaulty _ ⟨hopened, hinner⟩
    refine ⟨houtcome, hlast, fun file hok => ?_⟩
    rw [Scripted.unlessFaulty] at hok
    cases hfault : (use .openFile none none s).1.bind (·.fault) with
    | some fault =>
        rw [hfault] at hok
        cases hok
    | none =>
        rw [hfault] at hok
        exact hpath file hok
  size := by
    intro s t file h
    obtain ⟨hrule, hnext, -⟩ := h.use .size (some (Storage.descriptor σ file)) none
    obtain ⟨houtcome, hlast⟩ := hnext.unlessFaulty _ (d.size file hnext.inner)
    simp only [Storage.size, bind_apply]
    rw [← hrule]
    exact ⟨congrArg (reported _) houtcome, hlast⟩
  readAt := by
    intro s t n file buffer buffer' offset h
    obtain ⟨hrule, hnext, hhonest⟩ := h.use .read (some (Storage.descriptor σ file)) (some offset)
    simp only [Storage.readAt, bind_apply]
    rw [← hrule]
    cases hfault : (use .read (some (Storage.descriptor σ file)) (some offset) s).1.bind
        (·.fault) with
    | some fault => exact ⟨rfl, hnext, fun count hok => nomatch hok⟩
    | none =>
        have hreported : ∀ outcome, reported
            (use .read (some (Storage.descriptor σ file)) (some offset) s).1 outcome = outcome := by
          intro outcome
          cases hused : (use .read (some (Storage.descriptor σ file)) (some offset) s).1 with
          | none => rfl
          | some rule =>
              obtain ⟨hread, hrule⟩ := hhonest rule hused
              rw [reported, Rule.report, hrule hread]
              cases outcome <;> rfl
        cases hshort : (use .read (some (Storage.descriptor σ file)) (some offset) s).1.bind
            (·.short) with
        | some length =>
            obtain ⟨houtcome, hinner, hbytes⟩ := d.readAt file (buffer.first length)
              (buffer'.first length) offset hnext.inner
            refine ⟨congrArg (reported _) houtcome, ⟨hinner, hnext.rules_eq, hnext.honest⟩,
              fun count hok => ?_⟩
            obtain ⟨hle, hsame⟩ := hbytes count ((hreported _).symm.trans hok)
            refine ⟨Nat.le_trans hle (Nat.min_le_right _ _), fun hopen i hi => ?_⟩
            have hin : i < min length n := Nat.lt_of_lt_of_le hi hle
            refine (Buffer.byteAt_blit _ _ _ _).trans
              (Eq.trans ?_ (Buffer.byteAt_blit _ _ _ _).symm)
            rw [Buffer.size_bytes, Buffer.size_bytes]
            simp only [Nat.zero_le, Nat.zero_add, hin, Nat.sub_zero, true_and]
            split
            · exact hsame hopen i hi
            · omega
        | none =>
            obtain ⟨houtcome, hinner, hbytes⟩ := d.readAt file buffer buffer' offset hnext.inner
            refine ⟨congrArg (reported _) houtcome, ⟨hinner, hnext.rules_eq, hnext.honest⟩,
              fun count hok => hbytes count ((hreported _).symm.trans hok)⟩
  writeAt := by
    intro s t n file buffer buffer' offset hbuffer h
    obtain ⟨hrule, hnext, -⟩ := h.use .write (some (Storage.descriptor σ file)) (some offset)
    simp only [Storage.writeAt, bind_apply]
    rw [← hrule]
    cases hshort : (use .write (some (Storage.descriptor σ file)) (some offset) s).1.bind
        (·.short) with
    | some length =>
        obtain ⟨houtcome, hlast⟩ := hnext.unlessFaulty _
          (d.writeAt file (buffer.first length) (buffer'.first length) offset
            (fun hopen => by rw [hbuffer hopen]) hnext.inner)
        exact ⟨congrArg (reported _) houtcome, hlast⟩
    | none =>
        obtain ⟨houtcome, hlast⟩ := hnext.unlessFaulty _
          (d.writeAt file buffer buffer' offset hbuffer hnext.inner)
        exact ⟨congrArg (reported _) houtcome, hlast⟩
  sync := by
    intro s t file h
    obtain ⟨hrule, hnext, -⟩ := h.use .sync (some (Storage.descriptor σ file)) none
    simp only [Storage.sync, bind_apply]
    rw [← hrule]
    exact hnext.unlessFaulty _ (d.sync file hnext.inner)
  setLen := by
    intro s t file size h
    obtain ⟨hrule, hnext, -⟩ := h.use .resize (some (Storage.descriptor σ file)) none
    simp only [Storage.setLen, bind_apply]
    rw [← hrule]
    exact hnext.unlessFaulty _ (d.setLen file size hnext.inner)
  close file h := ⟨d.close file h.inner, h.rules_eq, h.honest⟩

end Scripted

end BlockCache
