import BlockCache.Proofs.Guarded
import BlockCache.Proofs.Serving

/-!
A file at whose path no other file is open. Whatever is asked through other handles, all that it
does to this file is to put blocks of it out of their slots, where a dirty one is stored first. So
what a cache has of the file, in its slots and in the storage, can be followed by what is asked
through its handle alone, and does not depend on which other files share a path.
-/

namespace BlockCache

/-- Whether a request opens no file at a path. -/
def Request.Avoids (path : Path) : Request → Prop
  | .openFile name _ _ => Path.ofString name ≠ path
  | _ => True

/-- The bytes of a file with those of one block as they are in a slot. -/
def refill (bytes : Nat → UInt8) (b : Nat) (block : Block) (i : Nat) : UInt8 :=
  if blockOf i = b then block.byteAt (placeInBlock i) else bytes i

theorem refill_within (bytes : Nat → UInt8) (b : Nat) (block : Block) {p : Nat}
    (hp : p < blockSize) : refill bytes b block (b * blockSize + p) = block.byteAt p := by
  rw [refill, Cache.blockOf_mul_add hp, if_pos rfl]
  congr 1
  simp only [placeInBlock, blockSize] at hp ⊢
  omega

theorem refill_other {bytes : Nat → UInt8} {b : Nat} {block : Block} {i : Nat}
    (hi : blockOf i ≠ b) : refill bytes b block i = bytes i := if_neg hi

/-- A block that is filled has the bytes that a slot has for it. -/
theorem refill_eq {bytes bytes' : Nat → UInt8} {b : Nat} {block : Block}
    (hwithin : ∀ p, p < blockSize → block.byteAt p = bytes' (b * blockSize + p))
    (hother : ∀ i, blockOf i ≠ b → bytes' i = bytes i) : refill bytes b block = bytes' := by
  funext i
  by_cases hi : blockOf i = b
  · have hplace := blockOf_mul_add_placeInBlock i
    rw [hi] at hplace
    rw [← hplace, refill_within _ _ _ (placeInBlock_lt i), hwithin _ (placeInBlock_lt i)]
  · rw [refill_other hi, hother i hi]

/-- What bytes a block had does not matter if all of it is replaced. -/
theorem patch_congr {bytes bytes' : Nat → UInt8} {b start : Nat} {data : ByteArray}
    (hother : ∀ i, blockOf i ≠ b → bytes i = bytes' i)
    (hwithin : bytes = bytes' ∨ start = 0 ∧ data.size = blockSize) :
    patch bytes (b * blockSize + start) data = patch bytes' (b * blockSize + start) data := by
  rcases hwithin with rfl | ⟨rfl, hsize⟩
  · rfl
  funext i
  rw [patch, patch]
  split
  · rfl
  · rename_i hout
    refine hother i fun hi => hout ?_
    rw [blockOf, blockSize] at hi
    simp only [hsize, blockSize]
    omega

namespace Disk

variable {σ φ : Type} [Storage σ φ] {disk : Disk σ φ} {path : Path} {file : φ} {s s' : σ}

/-- Whether whatever is asked of a file leaves what is stored at a path as it is. -/
def Spares (disk : Disk σ φ) (path : Path) (file : φ) : Prop :=
  disk.path file = path → disk.Protects file

theorem spares_of_ne (h : disk.path file ≠ path) : disk.Spares path file :=
  fun heq => absurd heq h

theorem Protects.spares (h : disk.Protects file) : disk.Spares (disk.path file) file :=
  fun _ => h

namespace Spares

theorem storeBlock (hspares : disk.Spares path file) (hs : disk.Sound s) {key : BlockId}
    {block : Block} {outcome : Except Error Unit}
    (hrun : Cache.storeBlock file key block s = (outcome, s')) :
    disk.Sound s' ∧ disk.content s' path = disk.content s path := by
  obtain ⟨hsound, hother, -⟩ := storeBlock_spec hs hrun
  refine ⟨hsound, ?_⟩
  by_cases hpath : disk.path file = path
  · obtain ⟨result, hwrite, -⟩ := Cache.storeBlock_run hrun
    obtain ⟨-, hcontent⟩ := (hspares hpath).writeAt block key.offset hs
    rw [hwrite] at hcontent
    rw [hcontent]
  · exact hother path (Ne.symm hpath)

theorem writeAll (hspares : disk.Spares path file) (dirty : List Pool.DirtyBlock)
    (hs : disk.Sound s) :
    disk.Sound (Pool.writeAll (Cache.storeBlock file) dirty s).2 ∧
      disk.content (Pool.writeAll (Cache.storeBlock file) dirty s).2 path =
        disk.content s path := by
  induction dirty generalizing s with
  | nil => exact ⟨hs, rfl⟩
  | cons d rest ih =>
      rcases hstore : Cache.storeBlock file d.key d.block s with ⟨outcome, s₁⟩
      obtain ⟨hs₁, hfirst⟩ := hspares.storeBlock hs hstore
      obtain ⟨hs', hrest⟩ := ih hs₁
      rw [Pool.writeAll_cons, hstore]
      exact ⟨hs', hrest.trans hfirst⟩

theorem setLen (hspares : disk.Spares path file) (hs : disk.Sound s) {size : Nat}
    {outcome : Except Fault Unit} (hrun : Storage.setLen file size s = (outcome, s')) :
    disk.Sound s' ∧ disk.content s' path = disk.content s path := by
  obtain ⟨hsound, hother, -, hfailed⟩ := disk.setLen hs hrun
  refine ⟨hsound, ?_⟩
  by_cases hpath : disk.path file = path
  · obtain ⟨fault, hfail⟩ := (hspares hpath).setLen size hs
    rw [hrun] at hfail
    rw [hfailed fault hfail]
  · exact hother path (Ne.symm hpath)

end Spares

end Disk

namespace Cache

variable {σ φ : Type}

def Has (c : Cache σ φ) (h : Handle) (file : φ) (owner : Descriptor) : Prop :=
  ∃ f, c.table.get? h = some f ∧ f.file = file ∧ f.descriptor = owner

/-- Whether every slot that holds a block of a descriptor has its bytes. -/
def Resident (owner : Descriptor) (bytes : Nat → UInt8) (c : Cache σ φ) : Prop :=
  ∀ {i : Nat} {s : Slot} {b p : Nat}, c.pool.slots[i]? = some s → s.key = some ⟨owner, b⟩ →
    p < blockSize → s.block.byteAt p = bytes (b * blockSize + p)

variable [Storage σ φ]

/-- Whether a file is open at whose path no other file is open. -/
structure Lone (disk : Disk σ φ) (h : Handle) (file : φ) (owner : Descriptor) (c : Cache σ φ) :
    Prop where
  sound : disk.Sound c.storage
  has : c.Has h file owner
  /-- Every other open file is at another path, and has another descriptor. -/
  alone : ∀ {h' : Handle} {f : OpenFile φ}, c.table.get? h' = some f → h' ≠ h →
    f.descriptor ≠ owner ∧ disk.path f.file ≠ disk.path file

/-- What is done to a file while nothing is asked through its handle. -/
inductive Aside (disk : Disk σ φ) (h : Handle) (file : φ) (owner : Descriptor) :
    Cache σ φ → Cache σ φ → Prop where
  /-- Its blocks stay as they are, but clean ones may be put out of their slots. -/
  | quiet {c c' : Cache σ φ} (hlone : Lone disk h file owner c')
      (hcontent : disk.content c'.storage (disk.path file) =
        disk.content c.storage (disk.path file))
      (hkept : ∀ {j : Nat} {t : Slot} {b : Nat}, c'.pool.slots[j]? = some t →
        t.key = some ⟨owner, b⟩ →
        ∃ s, c.pool.slots[j]? = some s ∧ s.key = some ⟨owner, b⟩ ∧ s.block = t.block)
      (hclean : ∀ {b : Nat}, c'.Clean ⟨owner, b⟩ → c.Clean ⟨owner, b⟩) :
      Aside disk h file owner c c'
  /-- A dirty block of it is stored and put out of its slot. -/
  | evict {c c' : Cache σ φ} {block : Block} {b frequency : Nat} {outcome : Except Error Unit}
      (hs : c.pool.slots[c.pool.victim]? = some ⟨block, true, some ⟨⟨owner, b⟩, frequency⟩⟩)
      (hstore : storeBlock file ⟨owner, b⟩ block c.storage = (outcome, c'.storage))
      (hslots : c'.pool.slots = c.pool.slots.modify c.pool.victim Slot.vacated)
      (htable : c'.table = c.table) : Aside disk h file owner c c'
  | trans {c c₁ c' : Cache σ φ} (hfirst : Aside disk h file owner c c₁)
      (hrest : Aside disk h file owner c₁ c') : Aside disk h file owner c c'

variable {disk : Disk σ φ} {h h' : Handle} {file file' : φ} {owner : Descriptor}
  {bytes : Nat → UInt8} {c c' : Cache σ φ} {f : OpenFile φ} {touch : Touch} {how : How} {i : Nat}

namespace Lone

theorem of_files (hl : Lone disk h file owner c) (htable : SameFiles c.table c'.table)
    (hsound : disk.Sound c'.storage) : Lone disk h file owner c' where
  sound := hsound
  has := by
    obtain ⟨f, hf, hfile, howner⟩ := hl.has
    obtain ⟨f', hf', hfile', howner'⟩ := htable.get?_of_some hf
    exact ⟨f', hf', hfile'.trans hfile, howner'.trans howner⟩
  alone hf' hne := by
    obtain ⟨f, hf, hfile, howner⟩ := htable.symm.get?_of_some hf'
    rw [← hfile, ← howner]
    exact hl.alone hf hne

theorem eq_of_get? (hl : Lone disk h file owner c) (hf : c.table.get? h = some f) :
    f.file = file ∧ f.descriptor = owner := by
  obtain ⟨f', hf', hparts⟩ := hl.has
  obtain rfl := Option.some.inj (hf.symm.trans hf')
  exact hparts

/-- Only this file has its descriptor. -/
theorem file_eq (hl : Lone disk h file owner c) (hf : c.table.get? h' = some f)
    (howner : f.descriptor = owner) : f.file = file := by
  by_cases hh : h' = h
  · subst hh
    exact (hl.eq_of_get? hf).1
  · exact absurd howner (hl.alone hf hh).1

end Lone

namespace Aside

/-- What leaves the slots alone, and what is stored of the file. -/
theorem of_slots (hl : Lone disk h file owner c) (htable : SameFiles c.table c'.table)
    (hsound : disk.Sound c'.storage)
    (hcontent : disk.content c'.storage (disk.path file) = disk.content c.storage (disk.path file))
    (hslots : c'.pool.slots = c.pool.slots) : Aside disk h file owner c c' := by
  refine .quiet (hl.of_files htable hsound) hcontent (fun {j t b} ht hkey => ?_)
    (fun {b} hclean {j s} hs hkey => ?_)
  · rw [hslots] at ht
    exact ⟨t, ht, hkey, rfl⟩
  · rw [← hslots] at hs
    exact hclean hs hkey

/-- The same for what changes one slot, in which no dirty block of the file is. -/
theorem of_modify (hl : Lone disk h file owner c) (htable : SameFiles c.table c'.table)
    (hsound : disk.Sound c'.storage)
    (hcontent : disk.content c'.storage (disk.path file) = disk.content c.storage (disk.path file))
    {g : Slot → Slot} (hslots : c'.pool.slots = c.pool.slots.modify i g)
    (hslot : ∀ {s : Slot} {b : Nat}, c.pool.slots[i]? = some s →
      ((g s).key = some ⟨owner, b⟩ → s.key = some ⟨owner, b⟩ ∧ s.block = (g s).block) ∧
      (s.key = some ⟨owner, b⟩ → s.dirty = true →
        (g s).key = some ⟨owner, b⟩ ∧ (g s).dirty = true)) :
    Aside disk h file owner c c' := by
  refine .quiet (hl.of_files htable hsound) hcontent (fun {j t b} ht hkey => ?_)
    (fun {b} hclean {j s} hs hkey => ?_)
  · rw [hslots] at ht
    rcases Pool.getElem?_modify_cases ht with ⟨s, hs, rfl, rfl⟩ | ⟨-, ht⟩
    · exact ⟨s, hs, (hslot hs).1 hkey⟩
    · exact ⟨t, ht, hkey, rfl⟩
  · by_cases hj : j = i
    · subst hj
      refine Bool.eq_false_iff.mpr fun hdirty => ?_
      obtain ⟨hkey', hdirty'⟩ := (hslot hs).2 hkey hdirty
      have hs' : c'.pool.slots[j]? = some (g s) := by
        rw [hslots]
        exact Pool.getElem?_modify_self hs
      exact absurd hdirty' (Bool.eq_false_iff.mp (hclean hs' hkey'))
    · refine @hclean j s ?_ hkey
      rw [hslots, Pool.getElem?_modify_other hj, hs]

theorem of_table (hl : Lone disk h file owner c) {table : FileTable φ}
    (htable : SameFiles c.table table) (journal : Array Event) :
    Aside disk h file owner c { c with table, journal } :=
  of_slots hl htable hl.sound rfl rfl

theorem lone (ha : Aside disk h file owner c c') (hl : Lone disk h file owner c) :
    Lone disk h file owner c' := by
  induction ha with
  | quiet hlone => exact hlone
  | evict _ hstore _ htable =>
      exact hl.of_files (fun _ => by rw [htable]) (Disk.storeBlock_spec hl.sound hstore).1
  | trans _ _ hfirst hrest => exact hrest (hfirst hl)

/-- No block of the file gets into a slot, or has other bytes there. -/
theorem resident (ha : Aside disk h file owner c c') (hr : Resident owner bytes c) :
    Resident owner bytes c' := by
  induction ha with
  | quiet _ _ hkept _ =>
      intro j t b p ht hkey hp
      obtain ⟨s, hs, hkey', hblock⟩ := hkept ht hkey
      rw [← hblock]
      exact hr hs hkey' hp
  | evict _ _ hslots _ =>
      intro j t b p ht hkey hp
      rw [hslots] at ht
      rcases Pool.getElem?_modify_cases ht with ⟨s, -, -, rfl⟩ | ⟨-, ht⟩
      · cases hkey
      · exact hr ht hkey hp
  | trans _ _ hfirst hrest => exact hrest (hfirst hr)

end Aside

/-! ### One block -/

/-- A block is hit where it is. -/
theorem aside_hit (hl : Lone disk h file owner c) (i : Nat) (journal : Array Event) :
    Aside disk h file owner c
      { c with pool := (c.pool.modifySlot i Slot.bump).count Stats.hit, journal } := by
  have hslots : ((c.pool.modifySlot i Slot.bump).count Stats.hit).slots =
      c.pool.slots.modify i Slot.bump := rfl
  refine .of_modify hl (fun _ => rfl) hl.sound rfl hslots fun {s b} _ => ?_
  rw [Slot.key_bump]
  exact ⟨fun hkey => ⟨hkey, rfl⟩, fun hkey hdirty => ⟨hkey, hdirty⟩⟩

theorem MadeRoom.aside (hroom : MadeRoom c c') (hl : Lone disk h file owner c) :
    Aside disk h file owner c c' := by
  cases hroom with
  | free => exact .of_slots hl (fun _ => rfl) hl.sound rfl rfl
  | clean hs =>
      refine .of_modify hl (fun _ => rfl) hl.sound rfl (Pool.slots_evict _ _ _)
        fun {s b} hs' => ⟨fun hkey => (nomatch hkey), fun _ hdirty => ?_⟩
      obtain rfl := Option.some.inj (hs.symm.trans hs')
      cases hdirty
  | @dirty block tenant f outcome storage journal hs howner hstore =>
      obtain ⟨h', hf, hdescriptor⟩ := c.table.ownerOf_eq_some howner
      obtain ⟨⟨tenantOwner, b⟩, frequency⟩ := tenant
      by_cases hown : tenantOwner = owner
      · subst hown
        rw [hl.file_eq hf hdescriptor] at hstore
        exact .evict hs hstore (Pool.slots_evict _ _ _) rfl
      · -- the block is of another file, and is stored at another path
        have hne : h' ≠ h := by
          rintro rfl
          exact hown (hdescriptor.symm.trans (hl.eq_of_get? hf).2)
        obtain ⟨hsound, hother, -⟩ := Disk.storeBlock_spec hl.sound hstore
        refine .of_modify hl (fun _ => rfl) hsound (hother _ (hl.alone hf hne).2.symm)
          (Pool.slots_evict _ _ _) fun {s b'} hs' => ⟨fun hkey => (nomatch hkey), fun hkey => ?_⟩
        obtain rfl := Option.some.inj (hs.symm.trans hs')
        exact absurd (congrArg BlockId.owner (Option.some.inj hkey)) hown

/-- Room is made for a block that is missed. -/
theorem MadeRoom.aside_missed (hroom : MadeRoom { c with pool := c.pool.count Stats.miss } c')
    (hl : Lone disk h file owner c) : Aside disk h file owner c c' := by
  have hmiss : Aside disk h file owner c { c with pool := c.pool.count Stats.miss } :=
    .of_slots hl (fun _ => rfl) hl.sound rfl rfl
  exact hmiss.trans (hroom.aside (hmiss.lone hl))

theorem Filled.content_eq (hfilled : Filled file' touch i c how c') (hs : disk.Sound c.storage) :
    disk.Sound c'.storage ∧ disk.content c'.storage = disk.content c.storage := by
  cases hfilled with
  | loaded _ hread | refused _ hread | zeroed _ hread =>
      obtain ⟨hsound, hcontent, -⟩ := disk.readAt hs hread
      exact ⟨hsound, hcontent⟩
  | taken => exact ⟨hs, rfl⟩

/-- A free slot is filled with a block of another file, or with none. -/
theorem Filled.aside (hfilled : Filled file' touch i c how c')
    (hother : touch.key.owner = owner → how = .refused) (hl : Lone disk h file owner c) {s : Slot}
    (hs : c.pool.slots[i]? = some s) (hfree : s.key = none) : Aside disk h file owner c c' := by
  obtain ⟨hsound, hcontent⟩ := hfilled.content_eq hl.sound
  obtain ⟨g, hslots, hkey⟩ := hfilled.slots_eq
  refine .of_modify hl (fun _ => by rw [hfilled.table_eq]) hsound (congrFun hcontent _) hslots
    fun {s' b} hs' => ?_
  obtain rfl := Option.some.inj (hs.symm.trans hs')
  refine ⟨fun hkey' => ?_, fun hkey' => ?_⟩
  · rw [hkey] at hkey'
    split at hkey'
    · cases hfree.symm.trans hkey'
    · rename_i hhow
      exact absurd (hother (congrArg BlockId.owner (Option.some.inj hkey'))) hhow
  · cases hfree.symm.trans hkey'

/-- Asking for a block of another file, or for one that is there or is refused. -/
theorem Access.aside (haccess : Access file' touch c how i c')
    (hother : touch.key.owner = owner → how = .found ∨ how = .refused)
    (hl : Lone disk h file owner c) : Aside disk h file owner c c' := by
  cases haccess with
  | found => exact aside_hit hl _ _
  | missed _ hroom hfilled =>
      have hmade := hroom.aside_missed hl
      obtain ⟨s, hs, hfree⟩ := hroom.freed
      refine hmade.trans (hfilled.aside (fun hown => ?_) (hmade.lone hl) hs hfree)
      rcases hother hown with rfl | hrefused
      · cases hfilled
      · exact hrefused

/-- A free slot that is filled with a block of the file has the bytes of that block. -/
theorem Filled.resident (hfilled : Filled file' touch i c how c') (howner : touch.key.owner = owner)
    (hhow : how ≠ .refused) (hr : Resident owner bytes c) {s : Slot}
    (hs : c.pool.slots[i]? = some s) (habsent : c.Absent touch.key) :
    Resident owner (refill bytes touch.key.index (c'.pool.blockAt i)) c' := by
  obtain ⟨g, hslots, hkey⟩ := hfilled.slots_eq
  have hg : ∀ s, (g s).key = some touch.key := fun s => (hkey s).trans (if_neg hhow)
  intro j t b p ht hkey' hp
  rw [hslots] at ht
  rcases Pool.getElem?_modify_cases ht with ⟨s', hs', rfl, rfl⟩ | ⟨-, ht⟩
  · obtain rfl := congrArg BlockId.index (Option.some.inj ((hg s').symm.trans hkey'))
    have hblock : c'.pool.blockAt j = (g s').block := by
      refine c'.pool.blockAt_of_getElem? ?_
      rw [hslots]
      exact Pool.getElem?_modify_self hs'
    rw [refill_within _ _ _ hp, hblock]
  · rw [refill_other]
    · exact hr ht hkey' hp
    · rw [blockOf_mul_add hp]
      rintro rfl
      refine habsent j t ht ?_
      rw [hkey', ← howner]

/-- Bytes that are written into the slot of a block are in the file then. -/
theorem Resident.write (hr : Resident owner bytes c) (hc : c.Housed) {s : Slot} {b start : Nat}
    {data : ByteArray} (hs : c.pool.slots[i]? = some s) (hkey : s.key = some ⟨owner, b⟩)
    (hfits : start + data.size ≤ blockSize) :
    Resident owner (patch bytes (b * blockSize + start) data)
      { c with pool := c.pool.write i start data } := by
  intro j t b' p ht hkey' hp
  rw [show ({ c with pool := c.pool.write i start data } : Cache σ φ).pool.slots =
    c.pool.slots.modify i (·.write start data) from c.pool.slots_write i start data] at ht
  rcases Pool.getElem?_modify_cases ht with ⟨s', hs', rfl, rfl⟩ | ⟨hj, ht⟩
  · obtain rfl := Option.some.inj (hs.symm.trans hs')
    obtain rfl := congrArg BlockId.index (Option.some.inj (hkey.symm.trans hkey'))
    rw [Slot.byteAt_write _ _ _ hp, patch_within]
    split
    · rfl
    · exact hr hs hkey hp
  · have hb : b' ≠ b := by
      rintro rfl
      exact hj (hc.distinct ht hs hkey' hkey)
    rw [patch_other hfits hb hp]
    exact hr ht hkey' hp

/-! ### Requests -/

theorem Transfer.aside {parts : List (Touch × How)} (htransfer : Transfer f c parts c')
    (hother : ∀ p ∈ parts, p.1.key.owner ≠ owner) (hl : Lone disk h file owner c) :
    Aside disk h file owner c c' := by
  induction htransfer with
  | nil => exact .of_slots hl (fun _ => rfl) hl.sound rfl rfl
  | out _ haccess _ ih =>
      rw [List.forall_mem_cons] at hother
      have hfirst := haccess.aside (fun hown => absurd hown hother.1) hl
      exact hfirst.trans (ih hother.2 (hfirst.lone hl))
  | @into c c₁ _ touch how i _ start data _ haccess _ ih =>
      rw [List.forall_mem_cons] at hother
      have hfirst := haccess.aside (fun hown => absurd hown hother.1) hl
      have hl₁ := hfirst.lone hl
      obtain ⟨s, hs, hlodged⟩ := haccess.lodges
      have hwrite : Aside disk h file owner c₁
          { c₁ with pool := c₁.pool.write i start data } := by
        refine .of_modify hl₁ (fun _ => rfl) hl₁.sound rfl (c₁.pool.slots_write i start data)
          fun {s' b} hs' => ?_
        obtain rfl := Option.some.inj (hs.symm.trans hs')
        have hnone : s.key ≠ some ⟨owner, b⟩ := fun hkey =>
          hother.1 (congrArg BlockId.owner (hlodged _ hkey)).symm
        exact ⟨fun hkey => absurd hkey hnone, fun hkey => absurd hkey hnone⟩
      exact hfirst.trans (hwrite.trans (ih hother.2 (hwrite.lone hl₁)))

/-- Syncing a file leaves what is stored at a path as it is, if all that is asked of the file
does. -/
theorem sync_of_spares {path : Path} (hspares : disk.Spares path f.file)
    (hs : disk.Sound c.storage) (hf : c.table.get? h = some f) :
    disk.Sound (sync h c).2.storage ∧
      disk.content (sync h c).2.storage path = disk.content c.storage path := by
  obtain ⟨hs₁, hflushed⟩ : disk.Sound (c.flushed f).storage ∧
      disk.content (c.flushed f).storage path = disk.content c.storage path :=
    hspares.writeAll (c.pool.dirtyBlocks f.descriptor) hs
  rcases hsync : Storage.sync f.file (c.flushed f).storage with ⟨outcome, storage⟩
  obtain ⟨hs₂, hsynced⟩ := disk.sync hs₁ hsync
  rw [← hflushed, ← hsynced]
  cases outcome with
  | error fault =>
      rw [sync_of_error hf hsync]
      exact ⟨hs₂, rfl⟩
  | ok _ =>
      rw [sync_of_ok hf hsync]
      rcases hset : Storage.setLen f.file f.size storage with ⟨outcome, cut⟩
      obtain ⟨hs₃, hcut⟩ := hspares.setLen hs₂ hset
      cases outcome with
      | ok _ =>
          rw [trim_of_ok hset]
          exact ⟨hs₃, hcut⟩
      | error fault =>
          rw [trim_of_error hset]
          exact ⟨hs₃, hcut⟩

/-- A sync moves no bytes in the pool. -/
theorem Resident.sync (hr : Resident owner bytes c) (hf : c.table.get? h = some f) :
    Resident owner bytes (Cache.sync h c).2 := by
  intro j t b p ht hkey hp
  obtain ⟨s, hs, hkey', hblock⟩ := slot_of_sync hf ht
  rw [← hblock]
  exact hr hs (hkey'.trans hkey) hp

theorem sync_aside (hl : Lone disk h file owner c) (hf : c.table.get? h' = some f)
    (hother : h' ≠ h) : Aside disk h file owner c (sync h' c).2 := by
  obtain ⟨_, _, -, -, htable⟩ := sync_steps_trim c h'
  obtain ⟨hne, hpath⟩ := hl.alone hf hother
  obtain ⟨hsound, hcontent⟩ := sync_of_spares (Disk.spares_of_ne hpath) hl.sound hf
  refine .quiet (hl.of_files (fun _ => by rw [htable]) hsound) hcontent (fun {j t b} ht hkey => ?_)
    (fun {b} hclean {j s} hs hkey => ?_)
  · obtain ⟨s, hs, hkey', hblock⟩ := slot_of_sync hf ht
    exact ⟨s, hs, hkey'.trans hkey, hblock⟩
  · have howned : s.ownedBy f.descriptor = false := by
      rw [Slot.ownedBy_of_key hkey, decide_eq_false_iff_not]
      exact hne.symm
    obtain ⟨s', hs', htenant, hsame⟩ :=
      c.pool.tenant_flush f.descriptor (storeBlock f.file) c.storage hs
    obtain rfl := hsame howned
    refine @hclean j s' ?_ hkey
    rw [pool_sync hf]
    exact hs'

theorem close_aside (hl : Lone disk h file owner c) (hf : c.table.get? h' = some f)
    (hother : h' ≠ h) : Aside disk h file owner c (close h' c).2 := by
  obtain ⟨-, hstorage, -, htable⟩ := close_of_some hf
  obtain ⟨hne, hpath⟩ := hl.alone hf hother
  obtain ⟨hsynced, hcontent⟩ := sync_of_spares (Disk.spares_of_ne hpath) hl.sound hf
  obtain ⟨hsound, hclosed⟩ : disk.Sound (Storage.close f.file (Cache.sync h' c).2.storage).2 ∧
      disk.content (Storage.close f.file (Cache.sync h' c).2.storage).2 = _ := disk.close hsynced
  refine .quiet ⟨hstorage ▸ hsound, ?_, fun hf' => ?_⟩ ?_
    (fun ht hkey => ⟨_, (slot_of_close hf ht hkey).1, hkey, rfl⟩)
    (fun {b} hclean {j s} hs hkey => ?_)
  · obtain ⟨f', hf', hparts⟩ := hl.has
    exact ⟨f', by rw [htable, c.table.get?_remove, if_neg hother, hf'], hparts⟩
  · rw [htable] at hf'
    exact hl.alone (c.table.get?_of_remove hf').2
  · rw [hstorage, hclosed, hcontent]
  · exact hclean (slot_kept_of_close hf hs hkey hne.symm) hkey

omit [Storage σ φ] in
/-- While the pool has no slots, nothing is dirty. -/
theorem Ready.clean (hready : Ready c c') {key : BlockId} (hclean : c'.Clean key) :
    c.Clean key := by
  cases hready with
  | already => exact hclean
  | first hempty =>
      intro j s hs _
      have hsize : c.pool.slots.size = 0 := Nat.eq_zero_of_not_pos (of_decide_eq_false hempty)
      have hlt := (Array.getElem?_eq_some_iff.mp hs).1
      omega

/-- Opening a file at another path. -/
theorem Opening.aside {path : String} {flags : OpenFlags} {mode : Nat}
    {outcome : Except Error Handle} (hopening : Opening path flags mode c outcome c')
    (hfresh : FreshDescriptor c path flags mode) (havoids : Path.ofString path ≠ disk.path file)
    (hl : Lone disk h file owner c) : Aside disk h file owner c c' := by
  have hready : ∀ {c₁ : Cache σ φ} {storage : σ}, Ready c c₁ → disk.Sound storage →
      disk.content storage (disk.path file) = disk.content c.storage (disk.path file) →
      Aside disk h file owner c { c₁ with storage } := by
    intro c₁ storage hready hsound hcontent
    exact .quiet (hl.of_files (fun _ => by rw [hready.table_eq]) hsound) hcontent
      (fun ht hkey => ⟨_, hready.kept ht hkey, hkey, rfl⟩) hready.clean
  cases hopening with
  | unavailable => exact .of_table hl (fun _ => rfl) _
  | full hr =>
      have hfull := hready hr hl.sound rfl
      rw [← hr.storage_eq] at hfull
      exact hfull
  | refused hr _ hopen =>
      obtain ⟨hsound, hother, -⟩ := disk.openFile hl.sound hopen
      exact hready hr hsound (hother _ havoids.symm)
  | abandoned hr _ hopen hsize =>
      obtain ⟨hopened, hother, -⟩ := disk.openFile hl.sound hopen
      obtain ⟨hsized, hcontent, -⟩ := disk.size hopened hsize
      obtain ⟨hsound, hclosed⟩ := disk.close hsized
      exact hready hr hsound (by rw [hclosed, hcontent, hother _ havoids.symm])
  | @bound c₁ place size new opened sized hr hplace hopen hsize =>
      obtain ⟨hopened, hother, hpath⟩ := disk.openFile hl.sound hopen
      obtain ⟨hsized, hcontent, -⟩ := disk.size hopened hsize
      have hfirst := hready hr hsized (by rw [hcontent, hother _ havoids.symm])
      have hl₁ := hfirst.lone hl
      rw [← hr.table_eq] at hplace
      refine hfirst.trans (.quiet ⟨hl₁.sound, ?_, fun hf' hne => ?_⟩ rfl
        (fun ht hkey => ⟨_, ht, hkey, rfl⟩) id)
      · obtain ⟨f, hf, hparts⟩ := hl₁.has
        refine ⟨f, ?_, hparts⟩
        rw [Cache.bound, c₁.table.get?_of_add hplace, if_neg]
        · exact hf
        · rintro rfl
          cases (c₁.table.get?_lowestFree hplace).symm.trans hf
      · rcases c₁.table.get?_of_add_cases hplace hf' with ⟨-, rfl⟩ | ⟨-, hf'⟩
        · obtain ⟨f, hf, -, howner⟩ := hl.has
          refine ⟨fun heq => hfresh new (by rw [hopen]) _ _ hf (howner.trans heq.symm), ?_⟩
          exact fun heq => havoids ((hpath new rfl).symm.trans heq)
        · exact hl₁.alone hf' hne

/-- A request that does not read or write through the handle, or sync or close the file. -/
theorem serve_aside (hl : Lone disk h file owner c) (hc : c.Housed) {request : Request}
    (hfresh : c.IsFresh request) (havoids : request.Avoids (disk.path file))
    (hread : ∀ buffer, request ≠ .read h buffer) (hwrite : ∀ data, request ≠ .write h data)
    (hsync : request ≠ .sync h) (hclose : request ≠ .close h) :
    Aside disk h file owner c (serve request c).2 := by
  have hserving := serve_serving hc request
  generalize (Cache.serve request c).1 = reply at hserving
  generalize (Cache.serve request c).2 = c' at hserving ⊢
  cases hserving with
  | opening hopening => exact hopening.aside hfresh havoids hl
  | closing hf => exact close_aside hl hf fun hh => hclose (hh ▸ rfl)
  | syncing hf => exact sync_aside hl hf fun hh => hsync (hh ▸ rfl)
  | @moving _ _ _ _ parts _ table _ _ _ htable htransfer htable' htouches =>
      have hother : ∀ p ∈ parts, p.1.key.owner ≠ owner := fun p hp => by
        obtain ⟨h', f, hne, hf, howner⟩ :=
          owner_of_mem_touchesOf hread hwrite (htouches ▸ List.mem_map_of_mem hp)
        rw [← howner]
        exact (hl.alone hf hne).1
      have hbefore : Aside disk h file owner c { c with table } := .of_table hl htable c.journal
      have hmoved := hbefore.trans (htransfer.aside hother (hbefore.lone hl))
      rw [show table = _ from htransfer.table_eq.symm] at htable'
      exact hmoved.trans (.of_table (hmoved.lone hl) htable' _)
  | @refused h' f buffer _ _ _ _ _ hf htransfer =>
      have hne : h' ≠ h := by
        rintro rfl
        exact hread buffer rfl
      refine htransfer.aside (fun p hp => ?_) hl
      rw [← htransfer.owner_eq hp]
      exact (hl.alone hf hne).1
  | idle htable => exact .of_table hl htable c.journal

/-- A file that was just opened, at a path at which no other file is open, is alone there, and no
slot holds a block of it. -/
theorem lone_opening (hs : disk.Sound c.storage) (hc : c.Housed) {path : String}
    {flags : OpenFlags} {mode : Nat} (hopening : Opening path flags mode c (.ok h) c')
    (hfresh : FreshDescriptor c path flags mode)
    (halone : ∀ h' f, c.table.get? h' = some f → disk.path f.file ≠ Path.ofString path) :
    ∃ f opened, c'.table.get? h = some f ∧
      f.size = (disk.content c'.storage (Path.ofString path)).size ∧
      disk.path f.file = Path.ofString path ∧
      Storage.openFile path flags mode c.storage = (.ok f.file, opened) ∧
      Lone disk h f.file f.descriptor c' ∧ ∀ b, c'.Absent ⟨f.descriptor, b⟩ := by
  cases hopening with
  | @bound c₁ place size file opened sized hr hplace hopen hsize =>
      obtain ⟨hopened, -, hpath⟩ := disk.openFile hs hopen
      obtain ⟨hsized, hcontent, hcount⟩ := disk.size hopened hsize
      have hpath := hpath file rfl
      have hfresh := hfresh file (by rw [hopen])
      rw [← hr.table_eq] at hplace hfresh halone
      have hget := (c₁.table.get?_of_add hplace
        (OpenFile.fresh file (Storage.descriptor σ file) size flags) ⟨place⟩).trans (if_pos rfl)
      refine ⟨_, opened, hget, ?_, hpath, hopen, ⟨hsized, ⟨_, hget, rfl, rfl⟩, fun hf' hne => ?_⟩,
        fun b j t ht hkey => ?_⟩
      · show size = (disk.content sized _).size
        rw [hcontent, ← hpath]
        exact hcount size rfl
      · rcases c₁.table.get?_of_add_cases hplace hf' with ⟨heq, -⟩ | ⟨-, hf'⟩
        · exact absurd heq hne
        · exact ⟨hfresh _ _ hf', fun heq => halone _ _ hf' (heq.trans hpath)⟩
      · -- a block that was in the pool before is of another open file
        obtain ⟨h', f', hf', howner⟩ := (hc.of_ready hr c.storage).owned ht hkey
        exact absurd howner (hfresh _ _ hf')

theorem Reachable.sound {storage : σ} {slotCount : Nat} {allocator : Allocator}
    (hs : disk.Sound storage)
    (hreach : Reachable IsFresh (Cache.new storage slotCount allocator) c) : disk.Sound c.storage :=
  (hreach.induct (P := fun c => disk.Sound c.storage) (fun _ _ hfresh => hfresh)
    (fun hstep _ => hstep.sound) (regular_new storage slotCount allocator) hs).2

end Cache

end BlockCache
