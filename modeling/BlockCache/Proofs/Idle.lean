import BlockCache.Proofs.Dirty
import BlockCache.Proofs.Unfailing

/-!
What a handle does to the stored files if nothing is written by it. No block of it is ever dirty,
whatever is done by other handles, be it to the same file: the blocks of two handles are never the
same. So syncing or closing it writes nothing back. It still cuts the stored file to the size that
the handle has for it, which is the size the file had when the handle was opened.
-/

namespace BlockCache

/-- Contents of files, with one file cut or lengthened with zeros to a size. -/
def cutTo (content : Path → ByteArray) (p : Path) (size : Nat) : Path → ByteArray :=
  Function.update content p (Bytes.resize (content p) size)

theorem size_cutTo (content : Path → ByteArray) (p : Path) (size : Nat) :
    (cutTo content p size p).size = size := by
  rw [cutTo, Function.update_self, Bytes.size_resize]

/-- A file that has the size already is not changed, and no other one either. -/
theorem cutTo_eq_self_iff {content : Path → ByteArray} {p : Path} {size : Nat} :
    cutTo content p size = content ↔ (content p).size = size := by
  rw [cutTo, Function.update_eq_self_iff]
  constructor
  · intro hsame
    rw [← hsame, Bytes.size_resize]
  · rintro rfl
    refine Bytes.ext_byteAt (Bytes.size_resize _ _) fun i hi => ?_
    rw [Bytes.size_resize] at hi
    rw [Bytes.byteAt_resize, if_pos hi]

namespace Cache

variable {σ φ : Type} [Storage σ φ] {disk : Disk σ φ} {c c' : Cache σ φ} {h : Handle}
  {f : OpenFile φ}

/-! ### Storages along steps -/

/-- Every step leaves the storage in a state that can be relied on. -/
theorem Step.sound {as : List Action} {new : List Event} (hstep : Step c as new c')
    (hs : disk.Sound c.storage) : disk.Sound c'.storage := by
  cases hstep with
  | evictDirty _ _ _ hstore | flush _ _ _ hstore => exact (Disk.storeBlock_spec hs hstore).1
  | fill _ _ _ _ hread | fillFailed _ _ _ _ hread | overwriteZeros _ _ _ _ _ hread =>
      exact (disk.readAt hs hread).1
  | sync _ hsync => exact (disk.sync hs hsync).1
  | trim _ hset | trimFailed _ hset => exact (disk.setLen hs hset).1
  | refuse hopen => exact (disk.openFile hs hopen).1
  | abandon hopen hsize => exact (disk.close (disk.size (disk.openFile hs hopen).1 hsize).1).1
  | bind _ _ hopen hsize => exact (disk.size (disk.openFile hs hopen).1 hsize).1
  | drop => exact (disk.close hs).1
  | _ => exact hs

theorem Steps.sound {as : List Action} {new : List Event} (hsteps : Steps c as new c')
    (hs : disk.Sound c.storage) : disk.Sound c'.storage :=
  hsteps.induct (P := fun c => disk.Sound c.storage) (fun hstep => hstep.sound) hs

theorem session_steps {requests : List Request} (hreg : c.Regular) (hfresh : AllFresh requests c) :
    ∃ as new, Steps c as new (session requests c).2 := by
  induction requests generalizing c with
  | nil => exact ⟨[], [], .nil c⟩
  | cons request rest ih =>
      obtain ⟨as, new, hserve, -⟩ := serve_steps hreg request hfresh.1
      obtain ⟨bs, news, hrest⟩ := ih (hserve.regular hreg) hfresh.2
      exact ⟨_, _, hserve.append hrest⟩

theorem allFresh_append {requests requests' : List Request} :
    AllFresh (requests ++ requests') c ↔
      AllFresh requests c ∧ AllFresh requests' (session requests c).2 := by
  induction requests generalizing c with
  | nil => exact ⟨fun hfresh => ⟨trivial, hfresh⟩, And.right⟩
  | cons request rest ih => exact (and_congr_right fun _ => ih).trans and_assoc.symm

/-! ### Idle handles -/

/-- Whether a handle has an open file of which no block is dirty. -/
structure Idle (h : Handle) (f : OpenFile φ) (c : Cache σ φ) : Prop where
  regular : c.Regular
  isOpen : c.table.get? h = some f
  clean : c.pool.dirtyBlocks f.descriptor = []

namespace Idle

/-- A handle stays idle in steps that do no more to its file than trim it. -/
theorem step (hidle : Idle h f c) {as : List Action} {new : List Event} (hstep : Step c as new c')
    (htrim : ∀ a ∈ as, a.handle? = some h → a = .trim h) : Idle h f c' where
  regular := hstep.regular hidle.regular
  isOpen := hstep.get?_eq hidle.isOpen htrim
  clean := by
    have hstore : ∀ offset bytes, .store h offset bytes ∉ as := by
      intro offset bytes hmem
      cases htrim _ hmem rfl
    have hclean := (Pool.dirtyBlocks_eq_nil _).mp hidle.clean
    refine (Pool.dirtyBlocks_eq_nil _).mpr fun j t key ht hkey howner => ?_
    by_contra hdirty
    obtain ⟨s, hs, hkey', hd⟩ := hstep.dirty_before hidle.regular hidle.isOpen hstore ht hkey howner
      (eq_true_of_ne_false hdirty)
    rw [hclean _ _ _ hs hkey' howner] at hd
    cases hd

theorem steps (hidle : Idle h f c) {as : List Action} {new : List Event}
    (hsteps : Steps c as new c') (htrim : ∀ a ∈ as, a.handle? = some h → a = .trim h) :
    Idle h f c' := by
  induction hsteps with
  | nil => exact hidle
  | cons hstep _ ih =>
      exact ih (hidle.step hstep fun a ha => htrim a (List.mem_append_left _ ha))
        fun a ha => htrim a (List.mem_append_right _ ha)

/-- A handle of which only the cursor is moved stays idle. -/
theorem move (hidle : Idle h f c) {g : OpenFile φ → OpenFile φ} {cursor : Nat}
    (hg : g f = f.moveTo cursor) :
    Idle h (f.moveTo cursor) { c with table := c.table.modify h g } where
  regular := (Step.move g hidle.isOpen (by rw [hg]; rfl) (by rw [hg]; rfl) (by rw [hg]; rfl)
    (by rw [hg]; exact Nat.le_refl _)).regular hidle.regular
  isOpen := (c.table.get?_modify_self hidle.isOpen g).trans (congrArg some hg)
  clean := hidle.clean

theorem read (hidle : Idle h f c) {n : Nat} (buffer : Buffer n) :
    ∃ cursor, Idle h (f.moveTo cursor) (Cache.read h buffer c).2 := by
  by_cases hend : f.size ≤ f.cursor
  · rw [read_of_end hidle.isOpen hend]
    exact ⟨f.cursor, hidle⟩
  have hlt := Nat.not_le.mp hend
  obtain ⟨new, hsteps, -⟩ := copyOut_spec (readChunks f n) buffer hidle.regular hidle.isOpen
  rcases hcopy : copyOut f (readChunks f n) buffer c with ⟨⟨outcome, buffer'⟩, c₁⟩
  rw [hcopy] at hsteps
  have hidle₁ : Idle h f c₁ := hidle.steps hsteps fun _ ha => nomatch ha
  cases outcome with
  | error e =>
      rw [read_of_error hidle.isOpen hlt (by rw [hcopy]), hcopy]
      exact ⟨f.cursor, hidle₁⟩
  | ok _ =>
      rw [read_of_ok hidle.isOpen hlt hcopy]
      obtain ⟨hreg, hopen, hclean⟩ := hidle₁.move (g := (·.moveBy _ false)) rfl
      exact ⟨_, hreg.of_same rfl rfl rfl, hopen, hclean⟩

theorem seek (hidle : Idle h f c) (target : SeekTarget) :
    ∃ cursor, Idle h (f.moveTo cursor) (Cache.seek h target c).2 := by
  cases hseek : f.seek target with
  | error e =>
      rw [seek_of_error hidle.isOpen hseek]
      exact ⟨f.cursor, hidle⟩
  | ok f' =>
      rw [seek_of_ok hidle.isOpen hseek]
      exact ⟨_, hidle.move (eq_moveTo_of_seek hseek)⟩

/-- A handle stays idle, and its file keeps its size, until something is written by it or it is
closed. -/
theorem serve (hidle : Idle h f c) {request : Request} (hfresh : c.IsFresh request)
    (hclose : request ≠ .close h) (hwrite : ∀ data, request ≠ .write h data) :
    ∃ cursor, Idle h (f.moveTo cursor) (Cache.serve request c).2 := by
  by_cases hhandle : request.handle? = some h
  · cases request with
    | openFile => cases hhandle
    | close => exact absurd (congrArg _ (Option.some.inj hhandle)) hclose
    | write _ data => exact absurd (by rw [Option.some.inj hhandle]) (hwrite data)
    | read _ buffer =>
        obtain rfl := Option.some.inj hhandle
        exact hidle.read (Buffer.ofBytes buffer)
    | seek _ target =>
        obtain rfl := Option.some.inj hhandle
        exact hidle.seek target
    | sync =>
        obtain rfl := Option.some.inj hhandle
        obtain ⟨as, new, hsteps, hkeep, -⟩ := sync_steps_trim c _
        exact ⟨f.cursor, hidle.steps hsteps fun a ha _ => hkeep a ha⟩
    | position | length | flags | isResident => exact ⟨f.cursor, hidle⟩
  · obtain ⟨as, new, hsteps, hother⟩ := serve_steps hidle.regular request hfresh
    exact ⟨f.cursor, hidle.steps hsteps fun a ha hh =>
      absurd ((hother a ha).symm.trans hh) hhandle⟩

theorem session {requests : List Request} (hidle : Idle h f c) (hfresh : AllFresh requests c)
    (hunused : ∀ request ∈ requests, request ≠ .close h ∧ ∀ data, request ≠ .write h data) :
    ∃ cursor, Idle h (f.moveTo cursor) (Cache.session requests c).2 := by
  induction requests generalizing c f with
  | nil => exact ⟨f.cursor, hidle⟩
  | cons request rest ih =>
      obtain ⟨hclose, hwrite⟩ := hunused request List.mem_cons_self
      obtain ⟨cursor, hnext⟩ := hidle.serve hfresh.1 hclose hwrite
      obtain ⟨cursor', hlast⟩ :=
        ih hnext hfresh.2 fun r hr => hunused r (List.mem_cons_of_mem _ hr)
      exact ⟨cursor', hlast⟩

end Idle

/-- A file is idle right after it was opened, and the handle has the size of the stored file. -/
theorem idle_openFile (hreg : c.Regular) (hs : disk.Sound c.storage) {path : String}
    {flags : OpenFlags} {mode : Nat} (hfresh : FreshDescriptor c path flags mode)
    (hopen : (openFile path flags mode c).1 = .ok h) :
    ∃ f, Idle h f (openFile path flags mode c).2 ∧ disk.path f.file = Path.ofString path ∧
      f.size =
        (disk.content (openFile path flags mode c).2.storage (Path.ofString path)).size := by
  obtain ⟨new, c₁, hsteps, hstorage, -, ⟨e, hrun, -⟩ | ⟨_, _, _, -, -, hrun, -⟩ |
    ⟨i, file, size, opened, sized, hplace, hallocated, hrun, hsize, hfresh₁, hbound⟩⟩ :=
    openFile_spec hfresh
  · rw [hrun] at hopen
    cases hopen
  · rw [hrun] at hopen
    cases hopen
  rw [hbound] at hopen ⊢
  obtain rfl := Except.ok.inj hopen
  have hbind : Step c₁ _ _ (c₁.bound path flags i file size sized) :=
    .bind hplace hallocated hrun hsize hfresh₁ rfl
  obtain ⟨hopened, -, hpath⟩ := disk.openFile (hstorage ▸ hs) hrun
  obtain ⟨-, hcontent, hcount⟩ := disk.size hopened hsize
  refine ⟨OpenFile.fresh file (Storage.descriptor σ file) size flags,
    ⟨hbind.regular (hsteps.regular hreg), ?_, ?_⟩, hpath file rfl, ?_⟩
  · exact (c₁.table.get?_of_add hplace _ _).trans (if_pos rfl)
  · refine (Pool.dirtyBlocks_eq_nil _).mpr fun j s key hslot hkey howner => ?_
    obtain ⟨h', f', hf', howner'⟩ := (hsteps.regular hreg).owned hslot hkey
    exact absurd (howner'.trans howner) (hfresh₁ h' f' hf')
  · show size = (disk.content sized _).size
    rw [hcontent, ← hpath file rfl]
    exact hcount size rfl

/-! ### Syncing and closing -/

/-- What a sync leaves in a storage that works: what there was when the dirty blocks of the file had
been written back, with the file cut to its size. -/
theorem content_sync (hworks : disk.Works) (hs : disk.Sound c.storage)
    (hf : c.table.get? h = some f) :
    disk.Sound (sync h c).2.storage ∧
      disk.content (sync h c).2.storage =
        cutTo (disk.content (c.flushed f).storage) (disk.path f.file) f.size := by
  obtain ⟨new, hflush, -⟩ := flushed_steps hf
  have hflushed := hflush.sound hs
  rcases hsync : Storage.sync f.file (c.flushed f).storage with ⟨outcome, storage⟩
  obtain rfl : outcome = .ok () := by
    have hok := (hworks _ f.file hflushed).1
    rwa [hsync] at hok
  obtain ⟨hdurable, hcontent⟩ := disk.sync hflushed hsync
  rcases hset : Storage.setLen f.file f.size storage with ⟨outcome, cut⟩
  obtain rfl : outcome = .ok () := by
    have hok := (hworks _ f.file hdurable).2 f.size
    rwa [hset] at hok
  obtain ⟨hcut, hother, hresize, -⟩ := disk.setLen hdurable hset
  rw [sync_of_ok hf hsync, trim_of_ok hset]
  refine ⟨hcut, funext fun p => ?_⟩
  rw [cutTo, ← hcontent]
  by_cases hp : p = disk.path f.file
  · rw [hp, Function.update_self]
    exact hresize rfl
  · rw [Function.update_of_ne hp]
    exact hother p hp

/-- Closing leaves in a storage what syncing does. -/
theorem content_close (hs : disk.Sound (sync h c).2.storage) (hf : c.table.get? h = some f) :
    disk.content (close h c).2.storage = disk.content (sync h c).2.storage := by
  obtain ⟨-, -, -, -, htable⟩ := sync_steps c h
  obtain ⟨new, c₁, c₂, -, hstorage, -, -, hclosed, -, hclose⟩ := close_spec hf (by rw [htable, hf])
  rw [hclose]
  show disk.content c₂.storage = _
  rw [hclosed, hstorage]
  exact (disk.close hs).2

/-- The length of a stored file after a sync, or a close, is the size that the handle has for it. -/
theorem size_sync (hworks : disk.Works) (hs : disk.Sound c.storage) (hf : c.table.get? h = some f) :
    (disk.content (sync h c).2.storage (disk.path f.file)).size = f.size ∧
      (disk.content (close h c).2.storage (disk.path f.file)).size = f.size := by
  obtain ⟨hsynced, hcut⟩ := content_sync hworks hs hf
  rw [content_close hsynced hf, hcut, size_cutTo]
  exact ⟨rfl, rfl⟩

/-- Syncing or closing an idle handle does nothing but cut its file. -/
theorem Idle.stored (hidle : Idle h f c) (hworks : disk.Works) (hs : disk.Sound c.storage) :
    disk.content (sync h c).2.storage =
        cutTo (disk.content c.storage) (disk.path f.file) f.size ∧
      disk.content (close h c).2.storage =
        cutTo (disk.content c.storage) (disk.path f.file) f.size := by
  obtain ⟨hsynced, hcut⟩ := content_sync hworks hs hidle.isOpen
  rw [storage_flushed_of_clean hidle.clean] at hcut
  exact ⟨hcut, (content_close hsynced hidle.isOpen).trans hcut⟩

/-- In every state of a cache over a storage that works: if nothing was written by a handle since it
was opened, then syncing it and closing it leave all stored files but its own as they are, whoever
has files open. Its own file is cut, or lengthened with zeros, to the size it had when the handle
was opened, so that it changes just if other handles have changed its size since. -/
theorem stored_of_unwritten (hworks : disk.Works) {storage : σ} (hs : disk.Sound storage)
    {slotCount : Nat} {allocator : Allocator} {earlier later : List Request} {path : String}
    {flags : OpenFlags}
    {mode : Nat} {h : Handle}
    (hfresh : AllFresh (earlier ++ .openFile path flags mode :: later)
      (Cache.new storage slotCount allocator : Cache σ φ))
    (hopen : (serve (.openFile path flags mode)
      (session earlier (Cache.new storage slotCount allocator : Cache σ φ)).2).1 = .opened (.ok h))
    (hunwritten : ∀ request ∈ later, request ≠ .close h ∧ ∀ data, request ≠ .write h data) :
    let opened : Cache σ φ := (serve (.openFile path flags mode)
      (session earlier (Cache.new storage slotCount allocator)).2).2
    let c := (session later opened).2
    let size := (disk.content opened.storage (Path.ofString path)).size
    let cut := cutTo (disk.content c.storage) (Path.ofString path) size
    disk.content (sync h c).2.storage = cut ∧ disk.content (close h c).2.storage = cut ∧
      (cut = disk.content c.storage ↔
        (disk.content c.storage (Path.ofString path)).size = size) := by
  intro opened c size cut
  obtain ⟨hfresh₀, hfresh₁, hfresh₂⟩ := allFresh_append.mp hfresh
  obtain ⟨_, _, hsteps₀⟩ := session_steps (regular_new storage slotCount allocator) hfresh₀
  have hreg₀ := hsteps₀.regular (regular_new storage slotCount allocator)
  have hs₀ : disk.Sound _ := hsteps₀.sound hs
  obtain ⟨f, hidle₁, hpath, hsize⟩ := idle_openFile hreg₀ hs₀ hfresh₁ (Reply.opened.inj hopen)
  obtain ⟨_, _, hsteps₁, -⟩ := openFile_steps hfresh₁
  obtain ⟨_, _, hsteps₂⟩ := session_steps hidle₁.regular hfresh₂
  obtain ⟨cursor, hidle⟩ := hidle₁.session hfresh₂ hunwritten
  have hs₂ : disk.Sound c.storage := hsteps₂.sound (hsteps₁.sound hs₀)
  obtain ⟨hsync, hclose⟩ := hidle.stored hworks hs₂
  have hcut : cutTo (disk.content c.storage) (disk.path f.file) f.size = cut := by
    rw [hpath, hsize]
    rfl
  exact ⟨hsync.trans hcut, hclose.trans hcut, cutTo_eq_self_iff⟩

/-- A file of two bytes. -/
def pairStored : Memory :=
  Memory.ofFiles (Catalog.empty.insert (Path.ofString "a") ⟨#[7, 8]⟩)

/-- The file is opened again, and emptied by that, when it is open already. -/
def reopen : List Request :=
  [.openFile "a" OpenFlags.truncate 0, .write ⟨1⟩ ⟨#[9]⟩, .read ⟨0⟩ ⟨#[0]⟩]

theorem stored_of_unwritten_reopen :
    let c : Cache Memory Memory.File :=
      (session (.openFile "a" OpenFlags.readOnly 0 :: reopen) (Cache.new pairStored 2)).2
    c.storage.contents (Path.ofString "a") = ByteArray.empty ∧
      (sync ⟨0⟩ c).2.storage.contents (Path.ofString "a") = ⟨#[0, 0]⟩ ∧
      (close ⟨0⟩ c).2.storage.contents (Path.ofString "a") = ⟨#[0, 0]⟩ := by
  intro c
  have hfresh := Memory.allFresh_new pairStored 2 .addressable
    ([] ++ .openFile "a" OpenFlags.readOnly 0 :: reopen)
  have hunwritten : ∀ request ∈ reopen,
      request ≠ .close ⟨0⟩ ∧ ∀ data, request ≠ .write ⟨0⟩ data := by
    simp [reopen]
  have hs : Memory.workingDisk.Sound pairStored := rfl
  have hopen : (openFile "a" OpenFlags.readOnly 0
      (Cache.new pairStored 2 : Cache Memory Memory.File)).1 = .ok ⟨0⟩ := by decide +kernel
  obtain ⟨hsync, hclose, -⟩ := stored_of_unwritten Memory.workingDisk_works hs hfresh
    (congrArg Reply.opened hopen) hunwritten
  exact ⟨by decide +kernel, (congrFun hsync (Path.ofString "a")).trans (by decide +kernel),
    (congrFun hclose (Path.ofString "a")).trans (by decide +kernel)⟩

/-- A file is opened twice, and a byte of it is written by the first handle. -/
def writtenByFirst : List Request :=
  [.openFile "a" OpenFlags.create 0, .openFile "a" OpenFlags.create 0, .write ⟨0⟩ ⟨#[7]⟩]

/-- The second handle has no byte for the file, and cuts off the byte that was synced. -/
theorem contents_sync_second :
    let written : Cache Memory Memory.File :=
      (session writtenByFirst (Cache.new (Memory.ofFiles Catalog.empty) 1)).2
    let synced := (sync ⟨0⟩ written).2
    (∀ data, .write ⟨1⟩ data ∉ writtenByFirst) ∧
      synced.length ⟨1⟩ = .ok 0 ∧ (synced.storage.contents (Path.ofString "a")).size = 1 ∧
      ((sync ⟨1⟩ synced).2.storage.contents (Path.ofString "a")).size = 0 ∧
      ((close ⟨1⟩ synced).2.storage.contents (Path.ofString "a")).size = 0 := by
  intro written synced
  have hfresh := Memory.allFresh_new (Memory.ofFiles Catalog.empty) 1 .addressable writtenByFirst
  obtain ⟨_, _, hsteps⟩ := session_steps (regular_new _ _ _) hfresh
  have hs : Memory.workingDisk.Sound written.storage := hsteps.sound rfl
  have hfirst : (written.table.get? ⟨0⟩).map (fun f => (f.file.path, f.size)) =
      some (Path.ofString "a", 1) := by decide +kernel
  have hsecond : (synced.table.get? ⟨1⟩).map (fun f => (f.file.path, f.size)) =
      some (Path.ofString "a", 0) := by decide +kernel
  obtain ⟨f, hf, hfile⟩ := Option.map_eq_some_iff.mp hfirst
  obtain ⟨g, hg, hfile'⟩ := Option.map_eq_some_iff.mp hsecond
  obtain ⟨hpath, hsize⟩ := Prod.mk.inj hfile
  obtain ⟨hpath', hsize'⟩ := Prod.mk.inj hfile'
  obtain ⟨hone, -⟩ := size_sync Memory.workingDisk_works hs hf
  obtain ⟨hsync, hclose⟩ := size_sync Memory.workingDisk_works
    (content_sync Memory.workingDisk_works hs hf).1 hg
  rw [hsize, show Memory.workingDisk.path f.file = _ from hpath] at hone
  rw [hsize', show Memory.workingDisk.path g.file = _ from hpath'] at hsync hclose
  exact ⟨by simp [writtenByFirst], by decide +kernel, hone, hsync, hclose⟩

end Cache

end BlockCache
