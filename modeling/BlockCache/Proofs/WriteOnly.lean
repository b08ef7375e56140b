import BlockCache.Proofs.Lone
import BlockCache.Proofs.Placement

/-!
What becomes of a file that can be written but not read, in a storage that fails no other call. All
that is written through its handle is stored when it is closed, and the file is as long as if it
could be read. But a block of which only a part is written has to be in the pool for that: if it is
in no slot, it cannot be read in, and the rest of it is zero from then on. The bytes of all other
blocks are kept, unless they are written to.
-/

namespace BlockCache

/-- Storing the dirty blocks of a file that takes all writes puts them in place. -/
theorem Disk.Takes.writeAll_byteAt {σ φ : Type} [Storage σ φ] {disk : Disk σ φ} {file : φ}
    (htakes : disk.Takes file) {bytes : Nat → UInt8} {dirty : List Pool.DirtyBlock} {s : σ}
    (hs : disk.Sound s) (hdirty : ∀ d ∈ dirty, ∀ p, p < blockSize →
      d.block.byteAt p = bytes (d.key.index * blockSize + p)) {b : Nat}
    (hb : (∃ d ∈ dirty, d.key.index = b) ∨ ∀ p, p < blockSize →
      disk.byteAt s file (b * blockSize + p) = bytes (b * blockSize + p)) :
    ∀ p, p < blockSize →
      disk.byteAt (Pool.writeAll (Cache.storeBlock file) dirty s).2 file (b * blockSize + p) =
        bytes (b * blockSize + p) := by
  induction dirty generalizing s with
  | nil => exact hb.resolve_left fun ⟨_, hmem, _⟩ => nomatch hmem
  | cons d rest ih =>
      rw [List.forall_mem_cons] at hdirty
      rcases hstore : Cache.storeBlock file d.key d.block s with ⟨outcome, s₁⟩
      obtain ⟨hs₁, rfl⟩ := htakes.storeBlock hs hstore
      obtain ⟨-, -, houtside, hinside⟩ := Disk.storeBlock_spec hs hstore
      rw [Pool.writeAll_cons, hstore]
      refine ih hs₁ hdirty.2 ?_
      by_cases hd : d.key.index = b
      · subst hd
        exact Or.inr fun p hp => (hinside rfl p hp).trans (hdirty.1 p hp)
      · refine hb.imp (fun ⟨d', hmem, hd'⟩ => ?_) fun hsame p hp =>
          (houtside b p hp (Ne.symm hd)).trans (hsame p hp)
        rcases List.mem_cons.mp hmem with rfl | hmem
        · exact absurd hd' hd
        · exact ⟨d', hmem, hd'⟩

namespace Cache

variable {σ φ : Type} [Storage σ φ]

/-- Whether the blocks of a file that no slot has to write back are stored with its bytes. -/
def Stored (disk : Disk σ φ) (file : φ) (owner : Descriptor) (bytes : Nat → UInt8)
    (c : Cache σ φ) : Prop :=
  ∀ {b p : Nat}, c.Clean ⟨owner, b⟩ → p < blockSize →
    disk.byteAt c.storage file (b * blockSize + p) = bytes (b * blockSize + p)

/-- Whether a cache and its storage together have some bytes for the file of a handle. -/
structure Carries (disk : Disk σ φ) (h : Handle) (file : φ) (owner : Descriptor)
    (bytes : Nat → UInt8) (c : Cache σ φ) : Prop where
  lone : Lone disk h file owner c
  resident : Resident owner bytes c
  stored : Stored disk file owner bytes c

variable {disk : Disk σ φ} {h : Handle} {file file' : φ} {owner : Descriptor} {bytes : Nat → UInt8}
  {c c' : Cache σ φ} {f : OpenFile φ} {touch : Touch} {how : How} {i : Nat}

theorem blank_within {b p : Nat} (hp : p < blockSize) : blank bytes b (b * blockSize + p) = 0 := by
  rw [blank, blockOf_mul_add hp, if_pos rfl]

/-- What is done through other handles stores no byte of a file but those it has. -/
theorem Aside.stored (ha : Aside disk h file owner c c') (hl : Lone disk h file owner c)
    (hr : Resident owner bytes c) (htakes : disk.Takes file)
    (hstored : Stored disk file owner bytes c) : Stored disk file owner bytes c' := by
  induction ha with
  | quiet _ hcontent _ hclean =>
      intro b p hc hp
      rw [Disk.byteAt, hcontent]
      exact hstored (hclean hc) hp
  | @evict c c' block b _ _ hs hstore hslots =>
      obtain ⟨-, rfl⟩ := htakes.storeBlock hl.sound hstore
      obtain ⟨-, -, houtside, hinside⟩ := Disk.storeBlock_spec hl.sound hstore
      intro b' p hclean hp
      by_cases hb : b' = b
      · subst hb
        exact (hinside rfl p hp).trans (hr hs rfl hp)
      · rw [houtside b' p hp hb]
        refine hstored (fun {j s} hs' hkey => @hclean j s ?_ hkey) hp
        have hj : j ≠ c.pool.victim := by
          rintro rfl
          obtain rfl := Option.some.inj (hs.symm.trans hs')
          exact hb (congrArg BlockId.index (Option.some.inj hkey)).symm
        rw [hslots, Pool.getElem?_modify_other hj, hs']
  | trans hfirst _ ihfirst ihrest =>
      exact ihrest (hfirst.lone hl) (hfirst.resident hr) (ihfirst hl hr hstored)

theorem Aside.carries (ha : Aside disk h file owner c c') (hk : Carries disk h file owner bytes c)
    (htakes : disk.Takes file) : Carries disk h file owner bytes c' :=
  ⟨ha.lone hk.lone, ha.resident hk.resident, ha.stored hk.lone hk.resident htakes hk.stored⟩

/-! ### One block -/

/-- A slot that is filled is clean, and nothing is stored by it. -/
theorem Filled.stored (hfilled : Filled file' touch i c how c') (hsound : disk.Sound c.storage)
    {s : Slot} (hs : c.pool.slots[i]? = some s) (hfree : s.key = none)
    (hstored : Stored disk file owner bytes c) : Stored disk file owner bytes c' := by
  obtain ⟨-, hcontent⟩ := hfilled.content_eq hsound
  obtain ⟨g, hslots, -⟩ := hfilled.slots_eq
  intro b p hclean hp
  rw [Disk.byteAt, hcontent]
  refine hstored (fun {j t} ht hkey => @hclean j t ?_ hkey) hp
  have hj : j ≠ i := by
    rintro rfl
    obtain rfl := Option.some.inj (hs.symm.trans ht)
    cases hfree.symm.trans hkey
  rw [hslots, Pool.getElem?_modify_other hj, ht]

/-- No block of a file is loaded that cannot be read. -/
theorem Filled.ne_loaded (hfilled : Filled file' touch i c how c') (hs : disk.Sound c.storage)
    (hrefuses : disk.Refuses file') : how ≠ .loaded := by
  rintro rfl
  cases hfilled with
  | loaded _ hread =>
      have hrefused := hrefuses (c.pool.blockAt i) touch.key.offset hs
      rw [hread] at hrefused
      cases hrefused

theorem Access.ne_loaded (haccess : Access file' touch c how i c') (hl : Lone disk h file owner c)
    (hrefuses : disk.Refuses file') : how ≠ .loaded := by
  cases haccess with
  | found => decide
  | missed _ hroom hfilled =>
      exact hfilled.ne_loaded ((hroom.aside_missed hl).lone hl).sound hrefuses

/-- A free slot that is filled with a block of a file that cannot be read has zeros, unless it is
about to be written whole. -/
theorem Filled.carries (hfilled : Filled file touch i c how c') (howner : touch.key.owner = owner)
    (hhow : how ≠ .refused) (hk : Carries disk h file owner bytes c)
    (hrefuses : disk.Refuses file) {s : Slot} (hs : c.pool.slots[i]? = some s)
    (hfree : s.key = none) (habsent : c.Absent touch.key) :
    ∃ bytes', Lone disk h file owner c' ∧ Resident owner bytes' c' ∧
      Stored disk file owner bytes c' ∧
      (touch.covers = false → bytes' = blank bytes touch.key.index) ∧
      ∀ j, blockOf j ≠ touch.key.index → bytes' j = bytes j := by
  have hl' : Lone disk h file owner c' :=
    hk.lone.of_files (fun _ => by rw [hfilled.table_eq]) (hfilled.content_eq hk.lone.sound).1
  have hloaded := hfilled.ne_loaded hk.lone.sound hrefuses
  refine ⟨_, hl', hfilled.resident howner hhow hk.resident hs habsent,
    hfilled.stored hk.lone.sound hs hfree hk.stored, fun hpart => ?_, fun j hj => refill_other hj⟩
  cases hfilled with
  | loaded => exact absurd rfl hloaded
  | refused => exact absurd rfl hhow
  | zeroed =>
      refine refill_eq (fun p hp => ?_) fun j hj => if_neg hj
      rw [Pool.blockAt_take _ hs, Buffer.byteAt_zero, blank_within hp]
  | taken hwhole => exact absurd (hwhole.symm.trans hpart) (by decide)

/-- A block of a file that cannot be read has the bytes that its slot has, or zeros. What is stored
of the other blocks is as it was, and of this one until its slot is written to. -/
theorem Access.carries (haccess : Access file touch c how i c') (howner : touch.key.owner = owner)
    (hhow : how ≠ .refused) (hk : Carries disk h file owner bytes c)
    (hrefuses : disk.Refuses file) (htakes : disk.Takes file) :
    ∃ bytes', Lone disk h file owner c' ∧ Resident owner bytes' c' ∧
      Stored disk file owner bytes c' ∧
      (touch.covers = false →
        bytes' = if c.pool.holds touch.key then bytes else blank bytes touch.key.index) ∧
      ∀ j, blockOf j ≠ touch.key.index → bytes' j = bytes j := by
  cases haccess with
  | @found _ _ journal hs hkey =>
      have hholds := holds_iff.mpr ⟨_, _, hs, hkey⟩
      have hk' := (aside_hit hk.lone i journal).carries hk htakes
      exact ⟨bytes, hk'.lone, hk'.resident, hk'.stored, fun _ => (if_pos hholds).symm,
        fun _ _ => rfl⟩
  | missed habsent hroom hfilled =>
      obtain ⟨s, hs, hfree⟩ := hroom.freed
      have habsent₁ : ∀ j t, _ := fun j t ht hkey => habsent j t (hroom.kept ht hkey).2 hkey
      rw [holds_eq_false_iff.mpr habsent, if_neg Bool.false_ne_true]
      exact hfilled.carries howner hhow ((hroom.aside_missed hk.lone).carries hk htakes) hrefuses hs
        hfree habsent₁

/-! ### Transfers -/

/-- A chunk of the file that is written is placed. -/
theorem Carries.copyChunk (hk : Carries disk h file owner bytes c) (hc : c.Housed)
    (hrefuses : disk.Refuses file) (htakes : disk.Takes file) (hf : c.table.get? h = some f)
    {data : ByteArray} {chunk : Chunk} (hstart : chunk.start + chunk.length ≤ blockSize)
    (hposition : chunk.position + chunk.length ≤ data.size) :
    Carries disk h file owner ((placedFor f data c chunk).apply bytes)
      (copyIn f data [chunk] c).2 := by
  obtain ⟨rfl, rfl⟩ := hk.lone.eq_of_get? hf
  have hsize : (Bytes.slice data chunk.position chunk.length).size = chunk.length := by
    rw [Bytes.size_slice]
    omega
  have hfits : chunk.start + (Bytes.slice data chunk.position chunk.length).size ≤ blockSize := by
    omega
  obtain ⟨how, i, c₁, haccess, hslot, hhow⟩ := slotToWrite_access hc (hc.capacity_pos hf) f
    chunk.block (chunk.length = blockSize)
  obtain ⟨bytes', hl₁, hr₁, hstored₁, hpart, hother⟩ :=
    haccess.carries rfl hhow hk hrefuses htakes
  obtain ⟨s, hs, hkey⟩ := haccess.holds hhow
  have hresident : Resident f.descriptor (patch bytes' (chunk.block * blockSize + chunk.start)
      (Bytes.slice data chunk.position chunk.length)) { c₁ with pool := c₁.pool.write i _ _ } :=
    Resident.write hr₁ (haccess.housed hc hf rfl) hs hkey hfits
  -- the bytes to which the chunk is written, the block being blank if it was in no slot
  let base := if (placedFor f data c chunk).blanks then blank bytes chunk.block else bytes
  have hbase : ∀ j, blockOf j ≠ chunk.block → base j = bytes j := by
    intro j hj
    simp only [base]
    split
    · exact if_neg hj
    · rfl
  have hplaced : patch bytes' (chunk.block * blockSize + chunk.start)
      (Bytes.slice data chunk.position chunk.length) = (placedFor f data c chunk).apply bytes := by
    change patch bytes' _ _ = patch base _ _
    refine patch_congr (fun j hj => (hother j hj).trans (hbase j hj).symm) ?_
    by_cases hwhole : chunk.length = blockSize
    · exact Or.inr ⟨by omega, hsize.trans hwhole⟩
    · refine Or.inl ((hpart (decide_eq_false hwhole)).trans ?_)
      simp only [base, placedFor, ne_eq, hwhole, not_false_eq_true, decide_true, Bool.true_and]
      cases c.pool.holds ⟨f.descriptor, chunk.block⟩ <;> rfl
  rw [copyIn_single hslot]
  refine ⟨hl₁.of_files (fun _ => rfl) hl₁.sound, hplaced ▸ hresident, fun {b p} hclean hp => ?_⟩
  have hb : b ≠ chunk.block := by
    rintro rfl
    -- the block that is written is dirty then
    exact absurd (hclean (Pool.getElem?_modify_self hs) hkey) Bool.noConfusion
  rw [← hplaced, patch_other hfits hb hp, hother _ (by rwa [blockOf_mul_add hp])]
  refine hstored₁ (fun {j t} ht hkey' => @hclean j t ?_ hkey') hp
  have hj : j ≠ i := by
    rintro rfl
    obtain rfl := Option.some.inj (hs.symm.trans ht)
    exact hb (congrArg BlockId.index (Option.some.inj (hkey.symm.trans hkey'))).symm
  exact (Pool.getElem?_modify_other hj).trans ht

theorem Carries.copyIn (hk : Carries disk h file owner bytes c) (hc : c.Housed)
    (hrefuses : disk.Refuses file) (htakes : disk.Takes file) (hf : c.table.get? h = some f)
    {data : ByteArray} {cs : List Chunk} (hfits : ∀ chunk ∈ cs,
      chunk.start + chunk.length ≤ blockSize ∧ chunk.position + chunk.length ≤ data.size) :
    Carries disk h file owner ((placedBy f data cs c).foldl Placed.apply bytes)
      (copyIn f data cs c).2 := by
  induction cs generalizing c bytes with
  | nil => exact hk
  | cons chunk rest ih =>
      obtain ⟨hstart, hposition⟩ := hfits chunk List.mem_cons_self
      have hk₁ := hk.copyChunk hc hrefuses htakes hf hstart hposition
      have hf₁ := (congrArg (·.get? h) (table_copyIn f data [chunk] c)).trans hf
      obtain ⟨_, htransfer, -⟩ := copyIn_transfer hc hf rfl data [chunk]
      exact ih hk₁ (htransfer.housed hc hf rfl) hf₁
        fun chunk' hchunk' => hfits chunk' (List.mem_cons_of_mem _ hchunk')

/-- Reading a file that cannot be read asks for blocks that are there, and ends at the first one
that is not. -/
theorem copyOut_aside {n : Nat} (hl : Lone disk h file owner c) (hc : c.Housed)
    (hrefuses : disk.Refuses f.file) (hf : c.table.get? h = some f) (cs : List Chunk)
    (buffer : Buffer n) : Aside disk h file owner c (copyOut f cs buffer c).2 := by
  induction cs generalizing c buffer with
  | nil => exact .of_slots hl (fun _ => rfl) hl.sound rfl rfl
  | cons chunk rest ih =>
      obtain ⟨how, i, c₁, haccess, ⟨hslot, hhow⟩ | ⟨fault, hslot, rfl⟩⟩ :=
        slotToRead_access hc (hc.capacity_pos hf) f chunk.block
      · have hfound := hhow.resolve_right (haccess.ne_loaded hl hrefuses)
        have hfirst := haccess.aside (fun _ => Or.inl hfound) hl
        rw [copyOut_of_ok chunk hslot]
        exact hfirst.trans (ih (hfirst.lone hl) (haccess.housed hc hf rfl)
          (haccess.table_eq ▸ hf) _)
      · rw [copyOut_of_error chunk hslot]
        exact haccess.aside (fun _ => Or.inr rfl) hl

/-! ### Calls -/

theorem read_aside {n : Nat} (hl : Lone disk h file owner c) (hc : c.Housed)
    (hrefuses : disk.Refuses file) (buffer : Buffer n) :
    Aside disk h file owner c (read h buffer c).2 := by
  obtain ⟨f, hf, rfl, -⟩ := hl.has
  by_cases hend : f.size ≤ f.cursor
  · rw [read_of_end hf hend]
    exact .of_slots hl (fun _ => rfl) hl.sound rfl rfl
  have hcopied := copyOut_aside hl hc hrefuses hf (readChunks f n) buffer
  rcases hcopy : copyOut f (readChunks f n) buffer c with ⟨⟨_ | _, buffer'⟩, c₁⟩ <;>
    rw [hcopy] at hcopied
  · rw [read_of_error hf (Nat.not_le.mp hend) (congrArg (·.1.1) hcopy), hcopy]
    exact hcopied
  · have hmoved := sameFiles_of_modify c₁.table (h := h)
      (g := (·.moveBy (min n (f.size - f.cursor)) false)) fun _ _ => ⟨rfl, rfl⟩
    rw [read_of_ok hf (Nat.not_le.mp hend) hcopy]
    exact hcopied.trans (.of_table (hcopied.lone hl) hmoved _)

namespace Carries

theorem of_table (hk : Carries disk h file owner bytes c) {table : FileTable φ}
    (htable : SameFiles c.table table) (journal : Array Event) :
    Carries disk h file owner bytes { c with table, journal } :=
  ⟨hk.lone.of_files htable hk.lone.sound, hk.resident, hk.stored⟩

theorem write (hk : Carries disk h file owner bytes c) (hc : c.Housed)
    (hrefuses : disk.Refuses file) (htakes : disk.Takes file) (data : ByteArray) :
    Carries disk h file owner ((placedIn h c (.write h data)).foldl Placed.apply bytes)
      (Cache.write h data c).2 := by
  obtain ⟨f, hf, -⟩ := hk.lone.has
  have hmoved := sameFiles_of_modify c.table (h := h) (g := (·.moveTo (writeStart f)))
    fun _ _ => ⟨rfl, rfl⟩
  have hk₁ := hk.of_table hmoved c.journal
  by_cases hfar : maxOffset < writeStart f + data.size
  · have hnone : writeThrough? h c (.write h data) = none := by
      rw [writeThrough?_of_some hf, if_pos hfar]
    rw [placedIn_of_none hnone, write_of_far hf hfar]
    exact hk₁
  have hnear := Nat.not_lt.mp hfar
  have hfits : ∀ chunk ∈ chunks (writeStart f) data.size, chunk.start + chunk.length ≤ blockSize ∧
      chunk.position + chunk.length ≤ data.size :=
    fun chunk hchunk => ⟨(mem_chunks hchunk).1, (mem_chunks hchunk).2.2.1⟩
  have hcopied := hk₁.copyIn (hc.of_table hmoved c.journal) hrefuses htakes
    (c.table.get?_modify_self hf (·.moveTo (writeStart f))) hfits
  rw [copyIn_moveTo, placedBy_moveTo] at hcopied
  rw [write_of_near hf hnear rfl, placedIn_of_near hf hnear]
  exact hcopied.of_table
    (sameFiles_of_modify (h := h) (g := (·.moveBy data.size true)) _ fun _ _ => ⟨rfl, rfl⟩) _

/-- Writing back the dirty blocks of a file that takes all writes stores all its bytes. -/
theorem byteAt_flushed (hk : Carries disk h file owner bytes c) (htakes : disk.Takes file)
    (hf : c.table.get? h = some f) (i : Nat) :
    disk.byteAt (c.flushed f).storage file i = bytes i := by
  obtain ⟨rfl, rfl⟩ := hk.lone.eq_of_get? hf
  have hblock : ∀ p, p < blockSize →
      disk.byteAt (c.flushed f).storage f.file (blockOf i * blockSize + p) =
        bytes (blockOf i * blockSize + p) := by
    refine htakes.writeAll_byteAt hk.lone.sound (fun d hd p hp => ?_) ?_
    · obtain ⟨tenant, hs, hkey, howner⟩ := c.pool.mem_dirtyBlocks.mp hd
      exact hk.resident hs (congrArg some (hkey.trans (by rw [← howner]))) hp
    · by_cases hclean : c.Clean ⟨f.descriptor, blockOf i⟩
      · exact Or.inr fun p hp => hk.stored hclean hp
      · -- a block that is not clean is among those that are written back
        refine Or.inl ?_
        by_contra hnone
        refine hclean fun {j s} hs hkey => Bool.eq_false_iff.mpr fun hdirty => hnone ?_
        obtain ⟨block, dirty, _ | tenant⟩ := s
        · cases hkey
        · obtain rfl : dirty = true := hdirty
          have htenant : tenant.key = ⟨f.descriptor, blockOf i⟩ := Option.some.inj hkey
          exact ⟨⟨j, tenant.key, block⟩, c.pool.mem_dirtyBlocks.mpr ⟨tenant, hs, rfl,
            by rw [htenant]⟩, by rw [htenant]⟩
  rw [← blockOf_mul_add_placeInBlock i]
  exact hblock (placeInBlock i) (placeInBlock_lt i)

/-- Syncing a file that takes all writes stores all its bytes, if those past its size are zero. -/
theorem sync (hk : Carries disk h file owner bytes c) (htakes : disk.Takes file)
    (hf : c.table.get? h = some f) (hblank : ∀ i, f.size ≤ i → bytes i = 0) :
    (Cache.sync h c).1 = .ok () ∧
      (disk.content (Cache.sync h c).2.storage (disk.path file)).size = f.size ∧
      (∀ i, disk.byteAt (Cache.sync h c).2.storage file i = bytes i) ∧
      Carries disk h file owner bytes (Cache.sync h c).2 := by
  have hflushed := hk.byteAt_flushed htakes hf
  obtain ⟨rfl, rfl⟩ := hk.lone.eq_of_get? hf
  obtain ⟨hok, hcut⟩ := sync_of_takes htakes hk.lone.sound hf
  obtain ⟨-, hsync, hrun⟩ := sync_of_cut hf (Prod.ext hok rfl) hcut
  obtain ⟨_, hflush, -⟩ := flushed_steps hf
  obtain ⟨hdurable, hcontent⟩ := disk.sync (hflush.sound hk.lone.sound) hsync
  obtain ⟨hsound, -, hresize, -⟩ := disk.setLen hdurable (Prod.ext hcut rfl)
  have hstorage : (Cache.sync h c).2.storage = (Storage.setLen f.file f.size (c.durable f)).2 :=
    congrArg Cache.storage hrun
  have hbytes : ∀ i, disk.byteAt (Cache.sync h c).2.storage f.file i = bytes i := by
    intro i
    rw [hstorage, Disk.byteAt, hresize rfl, hcontent, Bytes.byteAt_resize]
    split
    · exact hflushed i
    · exact (hblank i (by omega)).symm
  obtain ⟨_, _, -, -, htable⟩ := sync_steps_trim c h
  refine ⟨hok, ?_, hbytes, ?_, Resident.sync hk.resident hf, fun _ _ => hbytes _⟩
  · rw [hstorage, hresize rfl, Bytes.size_resize]
  · exact hk.lone.of_files (fun _ => by rw [htable]) (hstorage ▸ hsound)

/-- A request that does not close the handle places what it writes. -/
theorem serve (hk : Carries disk h file owner bytes c) (hc : c.Housed)
    (hrefuses : disk.Refuses file) (htakes : disk.Takes file) (hf : c.table.get? h = some f)
    (hblank : ∀ i, f.size ≤ i → bytes i = 0) {request : Request} (hfresh : c.IsFresh request)
    (havoids : request.Avoids (disk.path file)) (hclose : request ≠ .close h) :
    Carries disk h file owner ((placedIn h c request).foldl Placed.apply bytes)
      (Cache.serve request c).2 := by
  by_cases hwrite : ∃ data, request = .write h data
  · obtain ⟨data, rfl⟩ := hwrite
    exact hk.write hc hrefuses htakes data
  have hwrite' : ∀ data, request ≠ .write h data := fun data heq => hwrite ⟨data, heq⟩
  have hnone : writeThrough? h c request = none := by
    cases hw : writeThrough? h c request with
    | none => rfl
    | some w =>
        obtain ⟨f, -, heq, -⟩ := get?_of_writeThrough? hw
        exact absurd heq (hwrite' _)
  rw [placedIn_of_none hnone]
  by_cases hread : ∃ buffer, request = .read h buffer
  · obtain ⟨buffer, rfl⟩ := hread
    exact (read_aside hk.lone hc hrefuses (Buffer.ofBytes buffer)).carries hk htakes
  by_cases hsync : request = .sync h
  · subst hsync
    exact (hk.sync htakes hf hblank).2.2.2
  · exact (serve_aside hk.lone hc hfresh havoids (fun buffer heq => hread ⟨buffer, heq⟩) hwrite'
      hsync hclose).carries hk htakes

end Carries

/-- No byte past the size of a file is placed. -/
theorem blank_serve {f' : OpenFile φ} (hf : c.table.get? h = some f) {request : Request}
    (hf' : (serve request c).2.table.get? h = some f') (hclose : request ≠ .close h)
    (hblank : ∀ i, f.size ≤ i → bytes i = 0) {i : Nat} (hi : f'.size ≤ i) :
    (placedIn h c request).foldl Placed.apply bytes i = 0 := by
  obtain ⟨f₁, hf₁, hsize⟩ := size_serve hf hclose
  obtain rfl := Option.some.inj (hf₁.symm.trans hf')
  rw [hsize, reach_le_iff] at hi
  refine Placed.foldl_apply_of_zero (fun p hp => ?_) (hblank i hi.1)
  obtain ⟨w, hw, hstop⟩ := stop_of_mem_placedIn hp
  exact Nat.le_trans hstop (hi.2 w (by rw [hw]; exact List.mem_singleton_self w))

/-- As long as the handle is not closed, its file has the bytes that were placed in it. -/
theorem Carries.session {requests : List Request} (hk : Carries disk h file owner bytes c)
    (hc : c.Housed) (hrefuses : disk.Refuses file) (htakes : disk.Takes file)
    (hf : c.table.get? h = some f) (hblank : ∀ i, f.size ≤ i → bytes i = 0)
    (hfresh : AllFresh requests c) (havoids : ∀ request ∈ requests, request.Avoids (disk.path file))
    (hclose : .close h ∉ requests) :
    let placed := (placedThrough h requests c).foldl Placed.apply bytes
    ∃ f', (Cache.session requests c).2.table.get? h = some f' ∧
      Carries disk h file owner placed (Cache.session requests c).2 ∧
      ∀ i, f'.size ≤ i → placed i = 0 := by
  induction requests generalizing c f bytes with
  | nil => exact ⟨f, hf, hk, hblank⟩
  | cons request rest ih =>
      rw [List.mem_cons, not_or] at hclose
      rw [List.forall_mem_cons] at havoids
      obtain ⟨f₁, hf₁, -⟩ := size_serve hf (Ne.symm hclose.1)
      rw [placedThrough, List.foldl_append]
      exact ih (hk.serve hc hrefuses htakes hf hblank hfresh.1 havoids.1 (Ne.symm hclose.1))
        (hc.serve request) hf₁ (fun i hi => blank_serve hf hf₁ (Ne.symm hclose.1) hblank hi)
        hfresh.2 havoids.2 hclose.2

section Opened

variable {flagsOf : φ → OpenFlags} {storage : σ} {slotCount : Nat} {allocator : Allocator}
  {before : Cache σ φ} {path : String} {flags : OpenFlags} {mode : Nat} {later : List Request}

/-- A file that was opened without access for reading is stored as it was placed when it is
closed. -/
theorem placed_of_close (henforces : disk.Enforces flagsOf) (hs : disk.Sound storage)
    (hreach : Reachable IsFresh (Cache.new storage slotCount allocator) before)
    (hflags : flags.isReadable = false)
    (hfresh : AllFresh (.openFile path flags mode :: later) before)
    (halone : ∀ h' f, before.table.get? h' = some f → disk.path f.file ≠ Path.ofString path)
    (havoids : ∀ request ∈ later, request.Avoids (Path.ofString path))
    (hopen : (serve (.openFile path flags mode) before).1 = .opened (.ok h))
    (hclose : .close h ∉ later) :
    let opened := (serve (.openFile path flags mode) before).2
    let closed := close h (session later opened).2
    let initial := disk.content opened.storage (Path.ofString path)
    let stored := disk.content closed.2.storage (Path.ofString path)
    closed.1 = .ok () ∧ stored.size = reach initial.size (writesThrough h later opened) ∧
      ∀ i, Bytes.byteAt stored i =
        (placedThrough h later opened).foldl Placed.apply (Bytes.byteAt initial) i := by
  intro opened closed initial stored
  have hc := hreach.housed
  have hsound := hreach.sound hs
  have hopening : Opening path flags mode before (.ok h) opened := by
    have hcases := openFile_opening path flags mode before
    rwa [show (openFile path flags mode before).1 = .ok h from Reply.opened.inj hopen] at hcases
  obtain ⟨f₀, _, hf₀, hsize, hpath, hrun, hl₀, habsent⟩ :=
    lone_opening hsound hc hopening hfresh.1 halone
  have hflagsOf : flagsOf f₀.file = flags := henforces.openFile hsound hrun
  have hrefuses : disk.Refuses f₀.file := henforces.refuses (by rw [hflagsOf, hflags])
  have htakes : disk.Takes f₀.file :=
    henforces.takes (by rw [hflagsOf, OpenFlags.isWritable_of_not_isReadable hflags])
  have hk₀ : Carries disk h f₀.file f₀.descriptor (Bytes.byteAt initial) opened :=
    ⟨hl₀, fun hs hkey => absurd hkey (habsent _ _ _ hs), fun _ _ => by rw [Disk.byteAt, hpath]⟩
  obtain ⟨f, hf, hk, hblank⟩ := hk₀.session (hc.serve _) hrefuses htakes hf₀
    (fun i hi => Bytes.byteAt_of_size_le (hsize ▸ hi)) hfresh.2 (hpath ▸ havoids) hclose
  obtain ⟨f', hf', hreached⟩ := size_session hf₀ hclose
  obtain rfl := Option.some.inj (hf.symm.trans hf')
  obtain ⟨hok, hstored, hbytes, hk'⟩ := hk.sync htakes hf hblank
  have hcontent : stored =
      disk.content (sync h (session later opened).2).2.storage (disk.path f₀.file) := by
    rw [hpath]
    exact congrFun (content_close hk'.lone.sound hf) _
  refine ⟨(close_of_some hf).1.trans hok, ?_, fun i => ?_⟩
  · rw [hcontent, hstored, hreached, hsize]
  · rw [hcontent]
    exact hbytes i

/-- A file is opened for writing only, in a storage that refuses to read it and fails nothing else,
at a path at which no other file is open or is opened, and is closed after any requests. Closing it
succeeds. The stored file is as long as it was, or as the furthest write reached. It has the bytes
it had, but for those that were written; and each time that a part of a block was written which was
in no slot, all other bytes of that block became zero. The blocks to which this did not happen are
as they were with exactly the writes applied. -/
theorem stored_of_writeOnly (henforces : disk.Enforces flagsOf) (hs : disk.Sound storage)
    (hreach : Reachable IsFresh (Cache.new storage slotCount allocator) before)
    (hflags : flags.isReadable = false)
    (hfresh : AllFresh (.openFile path flags mode :: later) before)
    (halone : ∀ h' f, before.table.get? h' = some f → disk.path f.file ≠ Path.ofString path)
    (havoids : ∀ request ∈ later, request.Avoids (Path.ofString path))
    (hopen : (serve (.openFile path flags mode) before).1 = .opened (.ok h))
    (hclose : .close h ∉ later) :
    let opened := (serve (.openFile path flags mode) before).2
    let closed := close h (session later opened).2
    let initial := disk.content opened.storage (Path.ofString path)
    let stored := disk.content closed.2.storage (Path.ofString path)
    let writes := writesThrough h later opened
    let placed := placedThrough h later opened
    closed.1 = .ok () ∧ stored.size = reach initial.size writes ∧
      (∀ i, Bytes.byteAt stored i = placed.foldl Placed.apply (Bytes.byteAt initial) i) ∧
      ∀ i, (∀ p ∈ placed, p.blanks = true → p.block ≠ blockOf i) →
        Bytes.byteAt stored i = writes.foldl Written.apply (Bytes.byteAt initial) i := by
  intro opened closed initial stored writes placed
  obtain ⟨hok, hsize, hbytes⟩ :=
    placed_of_close henforces hs hreach hflags hfresh halone havoids hopen hclose
  refine ⟨hok, hsize, hbytes, fun i hkept => ?_⟩
  calc Bytes.byteAt stored i
      = placed.foldl Placed.apply (Bytes.byteAt initial) i := hbytes i
    _ = (placed.map Placed.written).foldl Written.apply (Bytes.byteAt initial) i :=
        Placed.foldl_apply_of_kept hkept rfl
    _ = writes.foldl Written.apply (Bytes.byteAt initial) i :=
        congrFun (foldl_placedThrough h later opened _) i

end Opened

/-- A file of two bytes, in a storage that holds files to the access they were opened for. -/
def pairGuarded : Cache (Guarded Memory) (Guarded.File Memory.File) :=
  Cache.new ⟨pairStored, true⟩ 1

/-- The bytes of that file. -/
def pairBytes (c : Cache (Guarded Memory) (Guarded.File Memory.File)) : ByteArray :=
  (Guarded.disk Memory.workingDisk).content c.storage (Path.ofString "a")

/-- A byte is written to the block after them. -/
def writtenBehind : List Request := [.seek ⟨0⟩ (.start blockSize), .write ⟨0⟩ ⟨#[5]⟩]

theorem stored_of_writeOnly_behind :
    let opened := (serve (.openFile "a" OpenFlags.writeOnly 0) pairGuarded).2
    let closed := close ⟨0⟩ (session writtenBehind opened).2
    closed.1 = .ok () ∧ (pairBytes closed.2).size = 4097 ∧
      Bytes.byteAt (pairBytes closed.2) 1 = 8 ∧ Bytes.byteAt (pairBytes closed.2) 2 = 0 ∧
      Bytes.byteAt (pairBytes closed.2) 4096 = 5 := by
  intro opened closed
  have hs : (Guarded.disk Memory.workingDisk).Sound ⟨pairStored, true⟩ := ⟨rfl, rfl⟩
  have hreach : Reachable IsFresh _ pairGuarded := .first
  have hfresh : AllFresh (.openFile "a" OpenFlags.writeOnly 0 :: writtenBehind) pairGuarded :=
    ⟨fun _ _ _ _ hf => absurd hf (get?_new _ _ _), trivial, trivial, trivial⟩
  have hopen : (openFile "a" OpenFlags.writeOnly 0 pairGuarded).1 = .ok ⟨0⟩ := by decide +kernel
  obtain ⟨hok, hsize, hbytes, hkept⟩ := stored_of_writeOnly
    (Guarded.disk_enforces Memory.workingDisk_takes) hs hreach (by decide) hfresh
    (fun _ _ hf => absurd hf (get?_new _ _ _)) (by simp [writtenBehind, Request.Avoids])
    (congrArg Reply.opened hopen) (by simp [writtenBehind])
  have hblocks : ∀ p ∈ placedThrough ⟨0⟩ writtenBehind opened, p.blanks = true → p.block ≠ 0 := by
    decide +kernel
  have hend : reach (pairBytes opened).size (writesThrough ⟨0⟩ writtenBehind opened) = 4097 := by
    decide +kernel
  have hold : (writesThrough ⟨0⟩ writtenBehind opened).foldl Written.apply
      (Bytes.byteAt (pairBytes opened)) 1 = 8 := by decide +kernel
  have hgap : (writesThrough ⟨0⟩ writtenBehind opened).foldl Written.apply
      (Bytes.byteAt (pairBytes opened)) 2 = 0 := by decide +kernel
  have hnew : (placedThrough ⟨0⟩ writtenBehind opened).foldl Placed.apply
      (Bytes.byteAt (pairBytes opened)) 4096 = 5 := by decide +kernel
  exact ⟨hok, hsize.trans hend, (hkept 1 hblocks).trans hold, (hkept 2 hblocks).trans hgap,
    (hbytes 4096).trans hnew⟩

/-- The first of the two bytes is written. -/
def writtenFirst : List Request := [.write ⟨0⟩ ⟨#[9]⟩]

/-- The second one is zero then. -/
theorem contents_writtenFirst :
    let opened := (serve (.openFile "a" OpenFlags.writeOnly 0) pairGuarded).2
    let closed := close ⟨0⟩ (session writtenFirst opened).2
    (writesThrough ⟨0⟩ writtenFirst opened).map (fun w => (w.start, w.stop)) = [(0, 1)] ∧
      closed.1 = .ok () ∧ (pairBytes closed.2).size = 2 ∧
      Bytes.byteAt (pairBytes opened) 1 = 8 ∧ Bytes.byteAt (pairBytes closed.2) 1 = 0 := by
  intro opened closed
  have hs : (Guarded.disk Memory.workingDisk).Sound ⟨pairStored, true⟩ := ⟨rfl, rfl⟩
  have hreach : Reachable IsFresh _ pairGuarded := .first
  have hfresh : AllFresh (.openFile "a" OpenFlags.writeOnly 0 :: writtenFirst) pairGuarded :=
    ⟨fun _ _ _ _ hf => absurd hf (get?_new _ _ _), trivial, trivial⟩
  have hopen : (openFile "a" OpenFlags.writeOnly 0 pairGuarded).1 = .ok ⟨0⟩ := by decide +kernel
  obtain ⟨hok, hsize, hbytes⟩ := placed_of_close
    (Guarded.disk_enforces Memory.workingDisk_takes) hs hreach (by decide) hfresh
    (fun _ _ hf => absurd hf (get?_new _ _ _)) (by simp [writtenFirst, Request.Avoids])
    (congrArg Reply.opened hopen) (by simp [writtenFirst])
  have hend : reach (pairBytes opened).size (writesThrough ⟨0⟩ writtenFirst opened) = 2 := by
    decide +kernel
  have hzero : (placedThrough ⟨0⟩ writtenFirst opened).foldl Placed.apply
      (Bytes.byteAt (pairBytes opened)) 1 = 0 := by decide +kernel
  exact ⟨by decide +kernel, hok, hsize.trans hend, by decide +kernel, (hbytes 1).trans hzero⟩

end Cache

end BlockCache
