import BlockCache.Proofs.Forgetting
import BlockCache.Proofs.Lone
import BlockCache.Proofs.WriteOnly

/-!
What becomes of a file that was not opened for writing, in a storage that withholds writing from it.
Nobody keeps a handle from writing into the pool, and such a write succeeds; but no block can be
written back, so the stored file stays as it is whatever is asked through the handle. What was
written is read again while its block is in the pool. When the block is put out of it nobody hears
of the failure, and from the next time it is asked for it has its stored bytes.
-/

namespace BlockCache

namespace Cache

variable {σ φ : Type} [Storage σ φ]

/-- What a cache has for the file of a handle that is not changed in the storage: the bytes of every
block that is in the pool. -/
structure Views (disk : Disk σ φ) (h : Handle) (file : φ) (owner : Descriptor) (stored : ByteArray)
    (bytes : Nat → UInt8) (c : Cache σ φ) : Prop where
  lone : Lone disk h file owner c
  content_eq : disk.content c.storage (disk.path file) = stored
  resident : Resident owner bytes c

variable {disk : Disk σ φ} {h : Handle} {file : φ} {owner : Descriptor} {stored : ByteArray}
  {bytes : Nat → UInt8} {c c' : Cache σ φ} {f : OpenFile φ} {touch : Touch} {how : How} {i : Nat}

/-- What is done through other handles stores nothing of a file that is not changed. -/
theorem Aside.content_eq (ha : Aside disk h file owner c c') (hl : Lone disk h file owner c)
    (hprotects : disk.Protects file) :
    disk.content c'.storage (disk.path file) = disk.content c.storage (disk.path file) := by
  induction ha with
  | quiet _ hcontent => exact hcontent
  | evict _ hstore => exact (hprotects.spares.storeBlock hl.sound hstore).2
  | trans hfirst _ ihfirst ihrest => exact (ihrest (hfirst.lone hl)).trans (ihfirst hl)

theorem Aside.views (ha : Aside disk h file owner c c')
    (hv : Views disk h file owner stored bytes c) (hprotects : disk.Protects file) :
    Views disk h file owner stored bytes c' :=
  ⟨ha.lone hv.lone, (ha.content_eq hv.lone hprotects).trans hv.content_eq, ha.resident hv.resident⟩

/-! ### One block -/

/-- A free slot that is filled with a block of the file has the bytes that are stored, unless it is
about to be written whole. -/
theorem Filled.views (hfilled : Filled file touch i c how c') (howner : touch.key.owner = owner)
    (hv : Views disk h file owner stored bytes c) (hprotects : disk.Protects file) {s : Slot}
    (hs : c.pool.slots[i]? = some s) (habsent : c.Absent touch.key) :
    how ≠ .refused ∧ ∃ bytes', Views disk h file owner stored bytes' c' ∧
      (touch.covers = false →
        bytes' = Change.restore (Bytes.byteAt stored) bytes touch.key.index) ∧
      ∀ j, blockOf j ≠ touch.key.index → bytes' j = bytes j := by
  obtain ⟨hsound, hcontent⟩ := hfilled.content_eq hv.lone.sound
  have hviews : how ≠ .refused → Views disk h file owner stored
      (refill bytes touch.key.index (c'.pool.blockAt i)) c' := fun hhow =>
    ⟨hv.lone.of_files (fun _ => by rw [hfilled.table_eq]) hsound,
      (congrFun hcontent _).trans hv.content_eq,
      hfilled.resident howner hhow hv.resident hs habsent⟩
  have hdelivered := hprotects.delivers (c.pool.blockAt i) touch.key.offset hv.lone.sound
  cases hfilled with
  | @loaded n block _ _ _ hread =>
      obtain ⟨-, -, hdeliver⟩ := disk.readAt hv.lone.sound hread
      obtain ⟨hn, hbytes⟩ := hdeliver n rfl
      rw [hv.content_eq] at hn hbytes
      refine ⟨by decide, _, hviews (by decide), fun _ => refill_eq (fun p hp => ?_)
        (fun j hj => if_neg hj), fun j hj => refill_other hj⟩
      rw [Pool.blockAt_take _ hs, Change.restore, blockOf_mul_add hp, if_pos rfl,
        Buffer.byteAt_zeroFrom]
      split
      · rename_i hlt
        exact hbytes p hlt
      · -- past the end of the file all bytes count as zero
        refine (Bytes.byteAt_of_size_le ?_).symm
        simp only [BlockId.offset] at hn
        omega
  | refused _ hread | zeroed _ hread =>
      obtain ⟨m, hok⟩ := hdelivered
      rw [hread] at hok
      cases hok
  | taken hwhole =>
      -- until it is written, the block has the bytes that happen to be in the slot
      exact ⟨by decide, _, hviews (by decide),
        fun hpart => absurd (hwhole.symm.trans hpart) (by decide), fun j hj => refill_other hj⟩

/-- Asking for a block of the file forgets what was written to it, if it is in no slot. The block is
never refused. -/
theorem Access.views (haccess : Access file touch c how i c') (howner : touch.key.owner = owner)
    (hv : Views disk h file owner stored bytes c) (hprotects : disk.Protects file) :
    how ≠ .refused ∧ ∃ bytes', Views disk h file owner stored bytes' c' ∧
      (touch.covers = false →
        bytes' = (changesFor c touch.key).foldl (Change.apply (Bytes.byteAt stored)) bytes) ∧
      ∀ j, blockOf j ≠ touch.key.index → bytes' j = bytes j := by
  cases haccess with
  | found hs hkey =>
      have hholds := holds_iff.mpr ⟨_, _, hs, hkey⟩
      refine ⟨by decide, bytes, (aside_hit hv.lone _ _).views hv hprotects, fun _ => ?_,
        fun _ _ => rfl⟩
      rw [changesFor, if_pos hholds]
      rfl
  | missed habsent hroom hfilled =>
      obtain ⟨s, hs, -⟩ := hroom.freed
      have habsent₁ : ∀ j t, _ := fun j t ht hkey => habsent j t (hroom.kept ht hkey).2 hkey
      obtain ⟨hhow, bytes', hv', hrestored, hother⟩ := hfilled.views howner
        ((hroom.aside_missed hv.lone).views hv hprotects) hprotects hs habsent₁
      refine ⟨hhow, bytes', hv', fun hpart => ?_, hother⟩
      rw [hrestored hpart, changesFor, holds_eq_false_iff.mpr habsent]
      rfl

/-! ### Transfers -/

/-- A chunk of the file that is written is in the bytes then, whether its block was forgotten or
not. -/
theorem Views.copyChunk (hv : Views disk h file owner stored bytes c) (hc : c.Housed)
    (hprotects : disk.Protects file) (hf : c.table.get? h = some f) {data : ByteArray}
    {chunk : Chunk} (hstart : chunk.start + chunk.length ≤ blockSize)
    (hposition : chunk.position + chunk.length ≤ data.size) :
    Views disk h file owner stored
      ((changesFor c ⟨f.descriptor, chunk.block⟩ ++ [Change.write (writtenOf data chunk)]).foldl
        (Change.apply (Bytes.byteAt stored)) bytes) (copyIn f data [chunk] c).2 := by
  obtain ⟨rfl, rfl⟩ := hv.lone.eq_of_get? hf
  have hsize : (Bytes.slice data chunk.position chunk.length).size = chunk.length := by
    rw [Bytes.size_slice]
    omega
  obtain ⟨how, i, c₁, haccess, hslot, hhow⟩ := slotToWrite_access hc (hc.capacity_pos hf) f
    chunk.block (chunk.length = blockSize)
  obtain ⟨-, bytes', hv₁, hpart, hother⟩ := haccess.views rfl hv hprotects
  obtain ⟨s, hs, hkey⟩ := haccess.holds hhow
  have hresident : Resident f.descriptor (patch bytes' (chunk.block * blockSize + chunk.start)
      (Bytes.slice data chunk.position chunk.length)) { c₁ with pool := c₁.pool.write i _ _ } :=
    Resident.write hv₁.resident (haccess.housed hc hf rfl) hs hkey (by rwa [hsize])
  rw [copyIn_single hslot, List.foldl_append]
  refine ⟨hv₁.lone.of_files (fun _ => rfl) hv₁.lone.sound, hv₁.content_eq, ?_⟩
  rw [patch_congr fun j hj => (hother j hj).trans (foldl_changesFor_of_other hj).symm] at hresident
  · exact hresident
  · by_cases hwhole : chunk.length = blockSize
    · exact Or.inr ⟨by omega, hsize.trans hwhole⟩
    · exact Or.inl (hpart (decide_eq_false hwhole))

theorem Views.copyIn (hv : Views disk h file owner stored bytes c) (hc : c.Housed)
    (hprotects : disk.Protects file) (hf : c.table.get? h = some f) {data : ByteArray}
    {cs : List Chunk} (hfits : ∀ chunk ∈ cs, chunk.start + chunk.length ≤ blockSize ∧
      chunk.position + chunk.length ≤ data.size) :
    Views disk h file owner stored
      ((changesIn f data cs c).foldl (Change.apply (Bytes.byteAt stored)) bytes)
      (copyIn f data cs c).2 := by
  induction cs generalizing c bytes with
  | nil => exact hv
  | cons chunk rest ih =>
      obtain ⟨hstart, hposition⟩ := hfits chunk List.mem_cons_self
      have hv₁ := hv.copyChunk hc hprotects hf hstart hposition
      have hf₁ := (congrArg (·.get? h) (table_copyIn f data [chunk] c)).trans hf
      obtain ⟨_, htransfer, -⟩ := copyIn_transfer hc hf rfl data [chunk]
      rw [changesIn, List.foldl_append]
      exact ih hv₁ (htransfer.housed hc hf rfl) hf₁
        fun chunk' hchunk' => hfits chunk' (List.mem_cons_of_mem _ hchunk')

/-- The chunks of the file that are read are as they are then, and the rest of the buffer stays. -/
theorem Views.copyOut {n : Nat} (offset position count : Nat) (buffer : Buffer n)
    (hfits : position + count ≤ n) (hv : Views disk h file owner stored bytes c) (hc : c.Housed)
    (hprotects : disk.Protects file) (hf : c.table.get? h = some f) :
    let copied := copyOut f (chunksFrom offset position count) buffer c
    let seen := (changesOut f (chunksFrom offset position count) c).foldl
      (Change.apply (Bytes.byteAt stored)) bytes
    copied.1.1 = .ok () ∧ Views disk h file owner stored seen copied.2 ∧
      (∀ j, j < position ∨ position + count ≤ j → copied.1.2.byteAt j = buffer.byteAt j) ∧
      ∀ j, j < count → copied.1.2.byteAt (position + j) = seen (offset + j) := by
  induction offset, position, count using chunksFrom.induct generalizing c buffer bytes with
  | case1 offset position =>
      rw [chunksFrom_zero]
      exact ⟨rfl, hv, fun _ _ => rfl, fun j hj => absurd hj (Nat.not_lt_zero j)⟩
  | case2 offset position count hcount hpos ih =>
      obtain ⟨rfl, rfl⟩ := hv.lone.eq_of_get? hf
      rw [chunksFrom_of_pos (Nat.pos_of_ne_zero hcount)]
      have hle := chunkLength_le offset count
      have hplace := placeInBlock_lt offset
      have hlength : chunkLength offset count ≤ blockSize - placeInBlock offset :=
        Nat.min_le_left _ _
      obtain ⟨how, i, c₁, haccess, ⟨hslot, -⟩ | ⟨-, -, rfl⟩⟩ :=
        slotToRead_access hc (hc.capacity_pos hf) f (blockOf offset)
      · obtain ⟨hhow, bytes', hv₁, hpart, -⟩ := haccess.views rfl hv hprotects
        obtain rfl := hpart rfl
        obtain ⟨s, hs, hkey⟩ := haccess.holds hhow
        have hblit := byteAt_blit_slice buffer (c₁.pool.blockAt i)
          (show position + chunkLength offset count ≤ n by omega)
          (show placeInBlock offset + chunkLength offset count ≤ blockSize by omega)
        let first : Chunk :=
          ⟨blockOf offset, placeInBlock offset, position, chunkLength offset count⟩
        rw [copyOut_of_ok first hslot, changesOut_of_ok first hslot, List.foldl_append]
        obtain ⟨hok, hv', houtside, hbytes⟩ := ih (buffer.blit position
          (Bytes.slice (c₁.pool.blockAt i).bytes (placeInBlock offset) (chunkLength offset count)))
          (by omega) hv₁ (haccess.housed hc hf rfl) (haccess.table_eq ▸ hf)
        refine ⟨hok, hv', fun j hj => ?_, fun j hj => ?_⟩
        · rw [houtside j (by omega), hblit, if_neg (by omega)]
        · by_cases hin : j < chunkLength offset count
          · -- this byte is in the first chunk, and the later ones are of other blocks
            have hplace' : offset + j = blockOf offset * blockSize + (placeInBlock offset + j) := by
              rw [← Nat.add_assoc, blockOf_mul_add_placeInBlock]
            rw [houtside _ (by omega), hblit, if_pos (by omega), Nat.add_sub_cancel_left,
              c₁.pool.blockAt_of_getElem? hs,
              foldl_changesOut_of_other fun _ hchunk => blockOf_ne_of_mem_chunksFrom hin hchunk,
              hplace']
            exact hv₁.resident hs hkey (by omega)
          · have hbyte := hbytes (j - chunkLength offset count) (by omega)
            rw [show offset + chunkLength offset count + (j - chunkLength offset count) =
              offset + j by omega] at hbyte
            rw [← hbyte]
            congr 1
            omega
      · exact absurd rfl (haccess.views rfl hv hprotects).1

/-! ### Calls -/

namespace Views

theorem of_table (hv : Views disk h file owner stored bytes c) {table : FileTable φ}
    (htable : SameFiles c.table table) (journal : Array Event) :
    Views disk h file owner stored bytes { c with table, journal } :=
  ⟨hv.lone.of_files htable hv.lone.sound, hv.content_eq, hv.resident⟩

theorem sync (hv : Views disk h file owner stored bytes c) (hprotects : disk.Protects file) :
    Views disk h file owner stored bytes (Cache.sync h c).2 := by
  obtain ⟨f, hf, rfl, -⟩ := hv.lone.has
  obtain ⟨_, _, -, -, htable⟩ := sync_steps_trim c h
  obtain ⟨hsound, hcontent⟩ := sync_of_spares hprotects.spares hv.lone.sound hf
  exact ⟨hv.lone.of_files (fun _ => by rw [htable]) hsound, hcontent.trans hv.content_eq,
    Resident.sync hv.resident hf⟩

/-- A read through the handle succeeds, and delivers the bytes of the file as they are then. -/
theorem read (hv : Views disk h file owner stored bytes c) (hc : c.Housed)
    (hprotects : disk.Protects file) (hf : c.table.get? h = some f) {n : Nat} (buffer : Buffer n) :
    let count := min n (f.size - f.cursor)
    let seen := (changesOut f (readChunks f n) c).foldl (Change.apply (Bytes.byteAt stored)) bytes
    (Cache.read h buffer c).1.1 = .ok count ∧
      Views disk h file owner stored seen (Cache.read h buffer c).2 ∧
      ∀ j, (Cache.read h buffer c).1.2.byteAt j =
        if j < count then seen (f.cursor + j) else buffer.byteAt j := by
  by_cases hend : f.size ≤ f.cursor
  · rw [read_of_end hf hend, readChunks_of_end hend, Nat.sub_eq_zero_of_le hend, Nat.min_zero]
    exact ⟨rfl, hv, fun j => (if_neg (Nat.not_lt_zero j)).symm⟩
  intro count seen
  obtain ⟨hok, hv', houtside, hbytes⟩ :=
    Views.copyOut f.cursor 0 count buffer (by omega) hv hc hprotects hf
  rcases hcopy : Cache.copyOut f (readChunks f n) buffer c with ⟨⟨outcome, buffer'⟩, c₁⟩
  rw [show Cache.copyOut f (chunksFrom f.cursor 0 count) buffer c = _ from hcopy]
    at hok hv' houtside hbytes
  obtain rfl : outcome = .ok () := hok
  have hmoved := sameFiles_of_modify c₁.table (h := h) (g := (·.moveBy count false))
    fun _ _ => ⟨rfl, rfl⟩
  rw [read_of_ok hf (Nat.not_le.mp hend) hcopy]
  refine ⟨rfl, hv'.of_table hmoved _, fun j => ?_⟩
  split
  · rename_i hj
    have hbyte := hbytes j hj
    rwa [Nat.zero_add] at hbyte
  · exact houtside j (Or.inr (by omega))

theorem write (hv : Views disk h file owner stored bytes c) (hc : c.Housed)
    (hprotects : disk.Protects file) (hf : c.table.get? h = some f) (data : ByteArray) :
    Views disk h file owner stored
      ((changesOf h c (.write h data)).foldl (Change.apply (Bytes.byteAt stored)) bytes)
      (Cache.write h data c).2 := by
  have hmoved := sameFiles_of_modify c.table (h := h) (g := (·.moveTo (writeStart f)))
    fun _ _ => ⟨rfl, rfl⟩
  have hv₁ := hv.of_table hmoved c.journal
  by_cases hfar : maxOffset < writeStart f + data.size
  · rw [write_of_far hf hfar, changesOf, writeThrough?_of_some hf, if_pos hfar]
    exact hv₁
  have hnear := Nat.not_lt.mp hfar
  have hfits : ∀ chunk ∈ chunks (writeStart f) data.size, chunk.start + chunk.length ≤ blockSize ∧
      chunk.position + chunk.length ≤ data.size :=
    fun chunk hchunk => ⟨(mem_chunks hchunk).1, (mem_chunks hchunk).2.2.1⟩
  have hcopied := hv₁.copyIn (hc.of_table hmoved c.journal) hprotects
    (c.table.get?_modify_self hf (·.moveTo (writeStart f))) hfits
  rw [copyIn_moveTo, changesIn_moveTo] at hcopied
  rw [write_of_near hf hnear rfl, changesOf_of_near hf hnear]
  exact hcopied.of_table
    (sameFiles_of_modify (h := h) (g := (·.moveBy data.size true)) _ fun _ _ => ⟨rfl, rfl⟩) _

/-- A request that does not close the handle changes the bytes as it is told. -/
theorem serve (hv : Views disk h file owner stored bytes c) (hc : c.Housed)
    (hprotects : disk.Protects file) {request : Request} (hfresh : c.IsFresh request)
    (havoids : request.Avoids (disk.path file)) (hclose : request ≠ .close h) :
    Views disk h file owner stored
      ((changesOf h c request).foldl (Change.apply (Bytes.byteAt stored)) bytes)
      (Cache.serve request c).2 := by
  obtain ⟨f, hf, -⟩ := hv.lone.has
  by_cases hread : ∃ buffer, request = .read h buffer
  · obtain ⟨buffer, rfl⟩ := hread
    rw [changesOf, hf]
    dsimp only
    rw [if_pos rfl]
    exact (hv.read hc hprotects hf (Buffer.ofBytes buffer)).2.1
  by_cases hwrite : ∃ data, request = .write h data
  · obtain ⟨data, rfl⟩ := hwrite
    exact hv.write hc hprotects hf data
  have hread' : ∀ buffer, request ≠ .read h buffer := fun buffer heq => hread ⟨buffer, heq⟩
  have hwrite' : ∀ data, request ≠ .write h data := fun data heq => hwrite ⟨data, heq⟩
  rw [changesOf_of_other hread' hwrite']
  by_cases hsync : request = .sync h
  · subst hsync
    exact hv.sync hprotects
  · exact (serve_aside hv.lone hc hfresh havoids hread' hwrite' hsync hclose).views hv hprotects

theorem session {requests : List Request} (hv : Views disk h file owner stored bytes c)
    (hc : c.Housed) (hprotects : disk.Protects file) (hfresh : AllFresh requests c)
    (havoids : ∀ request ∈ requests, request.Avoids (disk.path file))
    (hclose : .close h ∉ requests) :
    Views disk h file owner stored
      ((changesThrough h requests c).foldl (Change.apply (Bytes.byteAt stored)) bytes)
      (Cache.session requests c).2 := by
  induction requests generalizing c bytes with
  | nil => exact hv
  | cons request rest ih =>
      rw [List.mem_cons, not_or] at hclose
      rw [List.forall_mem_cons] at havoids
      rw [changesThrough, List.foldl_append]
      exact ih (hv.serve hc hprotects hfresh.1 havoids.1 (Ne.symm hclose.1)) (hc.serve request)
        hfresh.2 havoids.2 hclose.2

end Views

section Opened

variable {flagsOf : φ → OpenFlags} {storage : σ} {slotCount : Nat} {allocator : Allocator}
  {before : Cache σ φ} {path : String} {flags : OpenFlags} {mode : Nat} {later : List Request}

/-- A file that was opened without access for writing is viewed as it is told, until it is
closed. -/
theorem views_session (hwithholds : disk.Withholds flagsOf) (hs : disk.Sound storage)
    (hreach : Reachable IsFresh (Cache.new storage slotCount allocator) before)
    (hflags : flags.isWritable = false)
    (hfresh : AllFresh (.openFile path flags mode :: later) before)
    (halone : ∀ h' f, before.table.get? h' = some f → disk.path f.file ≠ Path.ofString path)
    (havoids : ∀ request ∈ later, request.Avoids (Path.ofString path))
    (hopen : (serve (.openFile path flags mode) before).1 = .opened (.ok h))
    (hclose : .close h ∉ later) :
    let opened := (serve (.openFile path flags mode) before).2
    let last := (session later opened).2
    let initial := disk.content opened.storage (Path.ofString path)
    ∃ f, last.table.get? h = some f ∧ f.size = reach initial.size (writesThrough h later opened) ∧
      disk.path f.file = Path.ofString path ∧ disk.Protects f.file ∧ last.Housed ∧
      Views disk h f.file f.descriptor initial ((changesThrough h later opened).foldl
        (Change.apply (Bytes.byteAt initial)) (Bytes.byteAt initial)) last := by
  intro opened last initial
  have hc := hreach.housed
  have hsound := hreach.sound hs
  have hopening : Opening path flags mode before (.ok h) opened := by
    have hcases := openFile_opening path flags mode before
    rwa [show (openFile path flags mode before).1 = .ok h from Reply.opened.inj hopen] at hcases
  obtain ⟨f₀, _, hf₀, hsize, hpath, hrun, hl₀, habsent⟩ :=
    lone_opening hsound hc hopening hfresh.1 halone
  have hv₀ : Views disk h f₀.file f₀.descriptor initial (Bytes.byteAt initial) opened :=
    ⟨hl₀, congrArg (disk.content opened.storage) hpath,
      fun hs hkey => absurd hkey (habsent _ _ _ hs)⟩
  have hprotects : disk.Protects f₀.file :=
    hwithholds.protects (by rw [hwithholds.openFile hsound hrun, hflags])
  have hc₀ : opened.Housed := hc.serve _
  have hv := hv₀.session hc₀ hprotects hfresh.2 (hpath ▸ havoids) hclose
  obtain ⟨f, hf, hreached⟩ := size_session hf₀ hclose
  obtain ⟨hfile, howner⟩ := hv.lone.eq_of_get? hf
  refine ⟨f, hf, hreached.trans (by rw [hsize]), by rw [hfile, hpath], by rwa [hfile],
    hc₀.session later, ?_⟩
  rw [hfile, howner]
  exact hv

/-- A file is opened without access for writing, in a storage that withholds writing from it, at a
path at which no other file is open or is opened. Whatever is asked then, until it is closed, the
stored file stays as it is. A write through the handle succeeds all the same, unless it reaches too
far, and the handle has the file as long as it was, or as the furthest write reached. Every read
succeeds. It delivers the bytes that were stored and then written, but of each block that was asked
for and was in no slot all that was written is forgotten. So a byte that no write covered is the
stored one. -/
theorem stored_of_readOnly (hwithholds : disk.Withholds flagsOf) (hs : disk.Sound storage)
    (hreach : Reachable IsFresh (Cache.new storage slotCount allocator) before)
    (hflags : flags.isWritable = false)
    (hfresh : AllFresh (.openFile path flags mode :: later) before)
    (halone : ∀ h' f, before.table.get? h' = some f → disk.path f.file ≠ Path.ofString path)
    (havoids : ∀ request ∈ later, request.Avoids (Path.ofString path))
    (hopen : (serve (.openFile path flags mode) before).1 = .opened (.ok h))
    (hclose : .close h ∉ later) :
    let opened := (serve (.openFile path flags mode) before).2
    let last := (session later opened).2
    let initial := disk.content opened.storage (Path.ofString path)
    let writes := writesThrough h later opened
    let filled := writes.filter Written.isFilled
    disk.content last.storage (Path.ofString path) = initial ∧
      ((∀ w ∈ writes, w.bytes.size = 0 → w.start ≤ reach initial.size filled) →
        last.length h = .ok (reach initial.size filled)) ∧
      ∃ f, last.table.get? h = some f ∧
        (∀ data, (write h data last).1 =
          if maxOffset < writeStart f + data.size then .error .writeTooFar else .ok data.size) ∧
        ∀ (n : Nat) (buffer : Buffer n),
          let count := min n (f.size - f.cursor)
          let seen := (changesThrough h (later ++ [.read h buffer.bytes]) opened).foldl
            (Change.apply (Bytes.byteAt initial)) (Bytes.byteAt initial)
          (read h buffer last).1.1 = .ok count ∧
            (∀ j, (read h buffer last).1.2.byteAt j =
              if j < count then seen (f.cursor + j) else buffer.byteAt j) ∧
            (∀ i, seen i = Bytes.byteAt initial i ∨
              seen i = writes.foldl Written.apply (Bytes.byteAt initial) i) ∧
            ∀ i, (∀ w ∈ writes, i < w.start ∨ w.stop ≤ i) → seen i = Bytes.byteAt initial i := by
  intro opened last initial writes filled
  obtain ⟨f, hf, hsize, hpath, hprotects, hc, hv⟩ :=
    views_session hwithholds hs hreach hflags hfresh halone havoids hopen hclose
  refine ⟨?_, fun hempty => ?_, f, hf, fun data => ?_, fun n buffer => ?_⟩
  · rw [← hpath]
    exact hv.content_eq
  · exact (length_of_some hf).trans
      (congrArg Except.ok (hsize.trans (reach_eq_filled_iff.mpr hempty)))
  · rcases write_of_some hf data with ⟨hfar, hfail, -⟩ | ⟨hnear, hok, -⟩
    · exact hfail.trans (if_pos hfar).symm
    · exact hok.trans (if_neg (Nat.not_lt.mpr hnear)).symm
  · obtain ⟨hok, -, hbytes⟩ := hv.read hc hprotects hf buffer
    have hwrites : writesThrough h (later ++ [.read h buffer.bytes]) opened = writes :=
      (writesThrough_append h later _ opened).trans (List.append_nil _)
    intro count seen
    have hcases : ∀ i, seen i = Bytes.byteAt initial i ∨
        seen i = writes.foldl Written.apply (Bytes.byteAt initial) i := by
      intro i
      have hbyte := foldl_changesThrough_cases h (later ++ [.read h buffer.bytes]) opened
        (Bytes.byteAt initial) i
      rwa [hwrites] at hbyte
    refine ⟨hok, ?_, hcases, fun i hout => ?_⟩
    · rw [← foldl_changesThrough_read hf buffer] at hbytes
      exact hbytes
    · rcases hcases i with hstored | hwritten
      · exact hstored
      · rw [hwritten, Written.foldl_apply_of_outside hout]

end Opened

/-- The file of two bytes, opened without access for writing. -/
def pairReadOnly : Cache (Guarded Memory) (Guarded.File Memory.File) :=
  (serve (.openFile "a" OpenFlags.readOnly 0) pairGuarded).2

/-- Its first byte is written, and then one in the next block, for which the first block has to be
put out of the only slot. -/
def overwritten : List Request :=
  [.write ⟨0⟩ ⟨#[9]⟩, .seek ⟨0⟩ (.start blockSize), .write ⟨0⟩ ⟨#[5]⟩, .seek ⟨0⟩ (.start 0)]

theorem stored_of_readOnly_overwritten :
    pairBytes (session overwritten pairReadOnly).2 = pairBytes pairReadOnly ∧
      (session overwritten pairReadOnly).2.length ⟨0⟩ = .ok 4097 ∧
      (write ⟨0⟩ ⟨#[1]⟩ (session overwritten pairReadOnly).2).1 = .ok 1 ∧
      (read ⟨0⟩ (Buffer.zero 1) (session overwritten pairReadOnly).2).1.1 = .ok 1 ∧
      (read ⟨0⟩ (Buffer.zero 1) (session overwritten pairReadOnly).2).1.2.byteAt 0 = 7 := by
  have hs : (Guarded.disk Memory.workingDisk).Sound ⟨pairStored, true⟩ := ⟨rfl, rfl⟩
  have hreach : Reachable IsFresh _ pairGuarded := .first
  have hfresh : AllFresh (.openFile "a" OpenFlags.readOnly 0 :: overwritten) pairGuarded :=
    ⟨fun _ _ _ _ hf => absurd hf (get?_new _ _ _), trivial, trivial, trivial, trivial, trivial⟩
  have hopen : (openFile "a" OpenFlags.readOnly 0 pairGuarded).1 = .ok ⟨0⟩ := by decide +kernel
  have hall := stored_of_readOnly (Guarded.disk_withholds Memory.workingDisk_delivers) hs hreach
    (by decide) hfresh (fun _ _ hf => absurd hf (get?_new _ _ _))
    (by simp [overwritten, Request.Avoids]) (congrArg Reply.opened hopen) (by simp [overwritten])
  rw [show (serve (.openFile "a" OpenFlags.readOnly 0) pairGuarded).2 = pairReadOnly from rfl]
    at hall
  obtain ⟨hstored, hlength, f, hf, hwrite, hread⟩ := hall
  have hplace : (session overwritten pairReadOnly).2.table.get? ⟨0⟩ = some f →
      writeStart f = 0 ∧ f.cursor = 0 ∧ f.size = 4097 := by
    have hplaces : ((session overwritten pairReadOnly).2.table.get? ⟨0⟩).map
        (fun f => (writeStart f, f.cursor, f.size)) = some (0, 0, 4097) := by decide +kernel
    intro hf
    rw [hf] at hplaces
    simpa using hplaces
  obtain ⟨hstart, hcursor, hsize⟩ := hplace hf
  have hfilled : ∀ w ∈ writesThrough ⟨0⟩ overwritten pairReadOnly, w.bytes.size ≠ 0 := by
    decide +kernel
  have hend : reach (pairBytes pairReadOnly).size
      ((writesThrough ⟨0⟩ overwritten pairReadOnly).filter Written.isFilled) = 4097 := by
    decide +kernel
  have hbyte : (changesThrough ⟨0⟩ (overwritten ++ [.read ⟨0⟩ (Buffer.zero 1).bytes])
      pairReadOnly).foldl (Change.apply (Bytes.byteAt (pairBytes pairReadOnly)))
      (Bytes.byteAt (pairBytes pairReadOnly)) 0 = 7 := by decide +kernel
  obtain ⟨hcount, hbytes, -⟩ := hread 1 (Buffer.zero 1)
  have hnear : ¬ maxOffset < writeStart f + 1 := by
    rw [hstart]
    decide
  have hone : min 1 (f.size - f.cursor) = 1 := by omega
  rw [hone] at hcount hbytes
  refine ⟨hstored, (hlength fun w hw hnone => absurd hnone (hfilled w hw)).trans (congrArg _ hend),
    (hwrite ⟨#[1]⟩).trans (if_neg hnear), hcount, ?_⟩
  rw [hbytes 0, if_pos Nat.one_pos, hcursor]
  exact hbyte

/-- Three bytes are written to it. -/
def writtenOver : List Request := [.write ⟨0⟩ ⟨#[9, 9, 9]⟩, .seek ⟨0⟩ (.start 0)]

/-- The writer is told that they were written, and reads them, and the file has three bytes for it;
but the stored file is as it was. -/
theorem read_writtenOver :
    (openFile "a" OpenFlags.readOnly 0 pairGuarded).1 = .ok ⟨0⟩ ∧
      (write ⟨0⟩ ⟨#[9, 9, 9]⟩ pairReadOnly).1 = .ok 3 ∧
      (session writtenOver pairReadOnly).2.length ⟨0⟩ = .ok 3 ∧
      (read ⟨0⟩ (Buffer.zero 1) (session writtenOver pairReadOnly).2).1.1 = .ok 1 ∧
      (read ⟨0⟩ (Buffer.zero 1) (session writtenOver pairReadOnly).2).1.2.byteAt 0 = 9 ∧
      (pairBytes (session writtenOver pairReadOnly).2).size = 2 ∧
      Bytes.byteAt (pairBytes (session writtenOver pairReadOnly).2) 0 = 7 := by
  have hs : (Guarded.disk Memory.workingDisk).Sound ⟨pairStored, true⟩ := ⟨rfl, rfl⟩
  have hreach : Reachable IsFresh _ pairGuarded := .first
  have hfresh : AllFresh (.openFile "a" OpenFlags.readOnly 0 :: writtenOver) pairGuarded :=
    ⟨fun _ _ _ _ hf => absurd hf (get?_new _ _ _), trivial, trivial, trivial⟩
  have hopen : (openFile "a" OpenFlags.readOnly 0 pairGuarded).1 = .ok ⟨0⟩ := by decide +kernel
  have hviews := views_session (Guarded.disk_withholds Memory.workingDisk_delivers) hs hreach
    (by decide) hfresh (fun _ _ hf => absurd hf (get?_new _ _ _))
    (by simp [writtenOver, Request.Avoids]) (congrArg Reply.opened hopen) (by simp [writtenOver])
  rw [show (serve (.openFile "a" OpenFlags.readOnly 0) pairGuarded).2 = pairReadOnly from rfl]
    at hviews
  obtain ⟨f, hf, -, -, hprotects, hc, hv⟩ := hviews
  obtain ⟨-, -, hbytes⟩ := hv.read hc hprotects hf (Buffer.zero 1)
  rw [← foldl_changesThrough_read hf] at hbytes
  have hplace : ((session writtenOver pairReadOnly).2.table.get? ⟨0⟩).map
      (fun f => (f.cursor, f.size)) = some (0, 3) := by decide +kernel
  rw [hf] at hplace
  obtain ⟨hcursor, hsize⟩ : f.cursor = 0 ∧ f.size = 3 := by simpa using hplace
  have hbyte : (changesThrough ⟨0⟩ (writtenOver ++ [.read ⟨0⟩ (Buffer.zero 1).bytes])
      pairReadOnly).foldl (Change.apply (Bytes.byteAt (pairBytes pairReadOnly)))
      (Bytes.byteAt (pairBytes pairReadOnly)) 0 = 9 := by decide +kernel
  refine ⟨hopen, by decide +kernel, by decide +kernel, by decide +kernel, ?_, by decide +kernel,
    by decide +kernel⟩
  rw [hbytes 0, if_pos (by omega), hcursor]
  exact hbyte

end Cache

end BlockCache
