import BlockCache.Proofs.Coupling
import BlockCache.Proofs.Reachable

/-!
What calls do to the contents of the open files. Between calls a cache is settled on an image: it is
coupled to it, and no file has bytes past its size. Each call settles the cache again, on an image
in which only the bytes of a write and the file of an open have changed; and a read delivers the
bytes of the image, but for blocks that were lost.
-/

namespace BlockCache

namespace Cache

variable {σ φ : Type} [Storage σ φ] {disk : Disk σ φ} {image : Image} {lost : List BlockId}
  {c c' : Cache σ φ}

/-- Whether a cache is in order and holds the bytes of an image. -/
structure Settled (disk : Disk σ φ) (image : Image) (lost : List BlockId) (c : Cache σ φ) :
    Prop where
  regular : c.Regular
  coupled : Coupled disk image lost c
  /-- Past its size a file has no bytes. -/
  blank : ∀ {h : Handle} {f : OpenFile φ} {i : Nat}, c.table.get? h = some f → f.size ≤ i →
    image h i = 0

/-- What a request asks of the one who makes it: no file is opened that is open. -/
def IsExclusive (disk : Disk σ φ) (c : Cache σ φ) : Request → Prop
  | .openFile path _ _ => ∀ h f, c.table.get? h = some f → disk.path f.file ≠ Path.ofString path
  | _ => True

/-- What is asked of every request: a file that it opens has a descriptor of its own, and is not
open yet. -/
def IsAdmitted (disk : Disk σ φ) (c : Cache σ φ) (request : Request) : Prop :=
  c.IsFresh request ∧ c.IsExclusive disk request

/-- The first request is always admitted. -/
theorem isAdmitted_new (disk : Disk σ φ) (storage : σ) (slotCount : Nat) (allocator : Allocator)
    (request : Request) :
    IsAdmitted disk (Cache.new storage slotCount allocator) request := by
  cases request with
  | openFile =>
      exact ⟨fun _ _ _ _ hf => absurd hf (get?_new storage slotCount allocator),
        fun _ _ hf => absurd hf (get?_new storage slotCount allocator)⟩
  | _ => exact ⟨trivial, trivial⟩

/-- A session in which no file is opened is always admitted. -/
theorem Reachable.session_unopened {first : Cache σ φ} {requests : List Request}
    (h : Reachable (IsAdmitted disk) first c)
    (hnone : ∀ request ∈ requests, ∀ path flags mode, request ≠ .openFile path flags mode) :
    Reachable (IsAdmitted disk) first (Cache.session requests c).2 := by
  induction requests generalizing c with
  | nil => exact h
  | cons request rest ih =>
      refine ih (.serve request h ?_) fun r hr => hnone r (List.mem_cons_of_mem _ hr)
      have hother := hnone request List.mem_cons_self
      cases request with
      | openFile path flags mode => exact absurd rfl (hother path flags mode)
      | _ => exact ⟨trivial, trivial⟩

/-- A block that was lost stays lost until its file is closed. -/
theorem Step.lost_kept {as : List Action} {new : List Event} (h : Step c as new c')
    (hstore : ∀ a ∈ as, a.isStore = true) {key : BlockId} (hmem : key ∈ lost) :
    key ∈ lostAfter lost new := by
  cases h with
  | report new hnote =>
      rw [lostAfter_of_isNote lost hnote]
      exact hmem
  | @evictDirty _ _ _ _ outcome _ _ _ _ _ _ hnew =>
      subst hnew
      cases outcome with
      | ok _ => exact hmem
      | error e => exact List.mem_cons_of_mem _ hmem
  | overwriteZeros _ _ _ _ _ _ hnew =>
      subst hnew
      exact List.mem_cons_of_mem _ hmem
  | allocate _ _ hnew | hit _ _ hnew | evictClean _ hnew | fillFailed _ _ _ _ _ hnew
    | trimFailed _ _ hnew =>
      subst hnew
      exact hmem
  | miss | fill | overwrite | replace | flush | sync => exact hmem
  | trim | move | refuse | abandon | bind | drop =>
      exact absurd (hstore _ List.mem_cons_self) Bool.false_ne_true

theorem Steps.lost_kept {as : List Action} {new : List Event} (h : Steps c as new c')
    (hstore : ∀ a ∈ as, a.isStore = true) {key : BlockId} (hmem : key ∈ lost) :
    key ∈ lostAfter lost new := by
  induction h generalizing lost with
  | nil => exact hmem
  | cons hstep _ ih =>
      rw [lostAfter_append]
      have hfirst := hstep.lost_kept (fun a ha => hstore a (List.mem_append_left _ ha)) hmem
      exact ih (fun a ha => hstore a (List.mem_append_right _ ha)) hfirst

/-! ### Reading -/

/-- A part of a block replaces as much of a buffer. -/
theorem byteAt_blit_slice {n position start length : Nat} (buffer : Buffer n) (block : Block)
    (hfits : position + length ≤ n) (hpart : start + length ≤ blockSize) (j : Nat) :
    (buffer.blit position (Bytes.slice block.bytes start length)).byteAt j =
      if position ≤ j ∧ j < position + length then block.byteAt (start + (j - position))
      else buffer.byteAt j := by
  have hsize : (Bytes.slice block.bytes start length).size = length := by
    rw [Bytes.size_slice, Buffer.size_bytes]
    omega
  rw [Buffer.byteAt_blit, hsize]
  by_cases hin : position ≤ j ∧ j < position + length
  · rw [if_pos ⟨hin.1, hin.2, by omega⟩, if_pos hin, Bytes.byteAt_slice, if_pos (by omega)]
    rfl
  · rw [if_neg fun hall => hin ⟨hall.1, hall.2.1⟩, if_neg hin]

/-- Copying out delivers the bytes of the image, but for blocks that were lost by then, and leaves
the rest of the buffer alone. -/
theorem copyOut_bytes {n : Nat} {h : Handle} {f : OpenFile φ} {offset position count : Nat}
    {buffer buffer' : Buffer n} (hfits : position + count ≤ n) (hreg : c.Regular)
    (hc : Coupled disk image lost c) (hf : c.table.get? h = some f)
    (hcopy : copyOut f (chunksFrom offset position count) buffer c = ((.ok (), buffer'), c')) :
    ∃ new, Steps c [] new c' ∧
      (∀ i, i < position ∨ position + count ≤ i → buffer'.byteAt i = buffer.byteAt i) ∧
      ∀ i, i < count → ⟨f.descriptor, blockOf (offset + i)⟩ ∉ lostAfter lost new →
        buffer'.byteAt (position + i) = image h (offset + i) := by
  induction offset, position, count using chunksFrom.induct generalizing c buffer lost with
  | case1 offset position =>
      rw [chunksFrom_zero] at hcopy
      obtain ⟨hres, rfl⟩ := Prod.mk.inj hcopy
      obtain ⟨-, rfl⟩ := Prod.mk.inj hres
      exact ⟨[], .nil c, fun _ _ => rfl, fun i hi => absurd hi (Nat.not_lt_zero i)⟩
  | case2 offset position count hcount hpos ih =>
      rw [chunksFrom_of_pos (Nat.pos_of_ne_zero hcount), copyOut, bind_apply] at hcopy
      rcases slotToRead_spec hreg hf (blockOf offset) with
        ⟨i, s, new, c₁, hslot, hsteps, hs, hkey⟩ | ⟨e, new, c₁, hslot, -, -⟩
      · rw [hslot] at hcopy
        dsimp only at hcopy
        rw [bind_apply, get_apply] at hcopy
        dsimp only at hcopy
        have hc₁ := hsteps.coupled_tend hreg hc
        have hf₁ : c₁.table.get? h = some f := by rw [hsteps.table_tend, hf]
        have hle := chunkLength_le offset count
        obtain ⟨news, hrest, houtside, hbytes⟩ :=
          ih (by omega) (hsteps.regular hreg) hc₁ hf₁ hcopy
        have hplace := placeInBlock_lt offset
        have hlength : chunkLength offset count ≤ blockSize - placeInBlock offset :=
          Nat.min_le_left _ _
        have hpart : placeInBlock offset + chunkLength offset count ≤ blockSize := by omega
        have hblit := byteAt_blit_slice buffer (c₁.pool.blockAt i)
          (show position + chunkLength offset count ≤ n by omega) hpart
        refine ⟨new ++ news, hsteps.append hrest, fun j hj => ?_, fun j hj hkept => ?_⟩
        · rw [houtside j (by omega), hblit, if_neg (by omega)]
        · rw [lostAfter_append] at hkept
          by_cases hin : j < chunkLength offset count
          · -- this byte is in the first chunk, and the later ones leave it alone
            have hblock : blockOf (offset + j) = blockOf offset := by
              simp only [blockOf, placeInBlock, blockSize] at *
              omega
            rw [hblock] at hkept
            have hkept₁ : ⟨f.descriptor, blockOf offset⟩ ∉ lostAfter lost new :=
              fun hmem => hkept (hrest.lost_kept (fun _ ha => absurd ha List.not_mem_nil) hmem)
            rw [houtside _ (by omega), hblit, if_pos (by omega), Nat.add_sub_cancel_left,
              c₁.pool.blockAt_of_getElem? hs]
            calc s.block.byteAt (placeInBlock offset + j)
                = image h (blockOf offset * blockSize + (placeInBlock offset + j)) :=
                  hc₁.resident hf₁ hs hkey hkept₁ (by omega)
              _ = image h (offset + j) := by
                  rw [← Nat.add_assoc, blockOf_mul_add_placeInBlock]
          · have hmore : offset + chunkLength offset count + (j - chunkLength offset count) =
                offset + j := by omega
            have hbyte := hbytes (j - chunkLength offset count) (by omega) (by rwa [hmore])
            rw [hmore] at hbyte
            rw [← hbyte]
            congr 1
            omega
      · rw [hslot] at hcopy
        obtain ⟨hres, -⟩ := Prod.mk.inj hcopy
        obtain ⟨herr, -⟩ := Prod.mk.inj hres
        cases herr

/-! ### What is stored chunk by chunk -/

/-- Bytes may be replaced in two parts. -/
theorem patch_patch (bytes : Nat → UInt8) (data : ByteArray) {offset position len count : Nat}
    (hlen : len ≤ count) (hfits : position + count ≤ data.size) :
    patch (patch bytes offset (Bytes.slice data position len)) (offset + len)
        (Bytes.slice data (position + len) (count - len)) =
      patch bytes offset (Bytes.slice data position count) := by
  funext i
  simp only [patch, Bytes.size_slice, Bytes.byteAt_slice]
  by_cases hfirst : offset ≤ i ∧ i < offset + len
  · rw [if_neg (by omega), if_pos (by omega), if_pos (by omega), if_pos (by omega),
      if_pos (by omega)]
  · by_cases hsecond : offset + len ≤ i ∧ i < offset + count
    · rw [if_pos (by omega), if_pos (by omega), if_pos (by omega), if_pos (by omega)]
      congr 1
      omega
    · rw [if_neg (by omega), if_neg (by omega), if_neg (by omega)]

theorem foldl_storeOf (h : Handle) (data : ByteArray) {offset position count : Nat} (image : Image)
    (hfits : position + count ≤ data.size) :
    ((chunksFrom offset position count).map (storeOf h data)).foldl Action.apply image =
      Function.update image h (patch (image h) offset (Bytes.slice data position count)) := by
  induction offset, position, count using chunksFrom.induct generalizing image with
  | case1 offset position =>
      have hnone : patch (image h) offset (Bytes.slice data position 0) = image h := by
        funext i
        rw [patch, Bytes.size_slice, if_neg (by omega)]
      rw [chunksFrom_zero, hnone, Function.update_eq_self]
      rfl
  | case2 offset position count hcount hpos ih =>
      have hle := chunkLength_le offset count
      rw [chunksFrom_of_pos (Nat.pos_of_ne_zero hcount), List.map_cons, List.foldl_cons,
        ih _ (by omega), storeOf, blockOf_mul_add_placeInBlock, Action.apply,
        Function.update_idem, Function.update_self, patch_patch _ _ hle hfits]

/-- Storing all chunks of a byte string stores the byte string. -/
theorem foldl_storeOf_chunks (h : Handle) (data : ByteArray) (offset : Nat) (image : Image) :
    ((chunks offset data.size).map (storeOf h data)).foldl Action.apply image =
      Function.update image h (patch (image h) offset data) := by
  have hwhole : patch (image h) offset (Bytes.slice data 0 data.size) =
      patch (image h) offset data := by
    funext i
    simp only [patch, Bytes.size_slice, Bytes.byteAt_slice, Nat.sub_zero, Nat.min_self,
      Nat.zero_add]
    split
    · rw [if_pos (by omega)]
    · rfl
  rw [chunks, foldl_storeOf h data image (by omega), hwhole]

/-! ### Calls -/

theorem settled_new (disk : Disk σ φ) {storage : σ} (hs : disk.Sound storage) (slotCount : Nat)
    (allocator : Allocator) (image : Image) :
    Settled disk image [] (Cache.new storage slotCount allocator) where
  regular := regular_new storage slotCount allocator
  coupled := {
    sound := hs
    apart := fun hf => absurd hf (get?_new storage slotCount allocator)
    resident := fun hf => absurd hf (get?_new storage slotCount allocator)
    stored := fun hf => absurd hf (get?_new storage slotCount allocator) }
  blank := fun hf => absurd hf (get?_new storage slotCount allocator)

namespace Settled

theorem tend (hc : Settled disk image lost c) {new : List Event} (h : Steps c [] new c') :
    Settled disk image (lostAfter lost new) c' where
  regular := h.regular hc.regular
  coupled := h.coupled_tend hc.regular hc.coupled
  blank := by
    rw [h.table_tend]
    exact hc.blank

theorem move (hc : Settled disk image lost c) {h : Handle} {new : List Event}
    (hstep : Step c [.move h] new c') : Settled disk image lost c' where
  regular := hstep.regular hc.regular
  coupled := hstep.coupled_move hc.coupled
  blank := by
    intro h' f' i hf' hi
    obtain ⟨f, hf, -, -, hsize⟩ := hstep.get?_move hf'
    exact hc.blank hf (Nat.le_trans hsize hi)

theorem trim (hc : Settled disk image lost c) {h : Handle} {new : List Event}
    (hstep : Step c [.trim h] new c') : Settled disk image lost c' where
  regular := hstep.regular hc.regular
  coupled := hstep.coupled_trim hc.regular (fun _ hf _ hi => hc.blank hf hi) hc.coupled
  blank := by
    rw [hstep.table_eq (by simp [Action.keepsTable])]
    exact hc.blank

theorem drop (hc : Settled disk image lost c) {h : Handle} {new : List Event}
    (hstep : Step c [.drop h] new c') : Settled disk image (lostAfter lost new) c' where
  regular := hstep.regular hc.regular
  coupled := hstep.coupled_drop hc.regular hc.coupled
  blank := by
    cases hstep with
    | drop hf =>
        intro h' f' i hf' hi
        exact hc.blank (c.table.get?_of_remove hf').2 hi

theorem visit (hc : Settled disk image lost c) {path : String} {new : List Event}
    (hstep : Step c [.visit path] new c')
    (hclosed : ∀ h f, c.table.get? h = some f → disk.path f.file ≠ Path.ofString path) :
    Settled disk image lost c' where
  regular := hstep.regular hc.regular
  coupled := hstep.coupled_visit hclosed hc.coupled
  blank := by
    rw [hstep.table_eq (by simp [Action.keepsTable])]
    exact hc.blank

theorem step (hc : Settled disk image lost c) {as : List Action} {new : List Event}
    (hstep : Step c as new c') (hkeep : ∀ a ∈ as, a.keepsBytes = true) :
    Settled disk image (lostAfter lost new) c' := by
  rcases hstep.actions with rfl | ⟨a, rfl⟩
  · exact hc.tend (.single hstep)
  · have ha := hkeep a List.mem_cons_self
    cases a with
    | move h =>
        have hc' := hc.move hstep
        cases hstep
        exact hc'
    | trim h =>
        have hc' := hc.trim hstep
        cases hstep
        exact hc'
    | drop h => exact hc.drop hstep
    | store | visit | bind => cases ha

theorem steps (hc : Settled disk image lost c) {as : List Action} {new : List Event}
    (h : Steps c as new c') (hkeep : ∀ a ∈ as, a.keepsBytes = true) :
    Settled disk image (lostAfter lost new) c' := by
  induction h generalizing lost with
  | nil => exact hc
  | cons hstep _ ih =>
      rw [lostAfter_append]
      exact ih (hc.step hstep fun a ha => hkeep a (List.mem_append_left _ ha))
        fun a ha => hkeep a (List.mem_append_right _ ha)

theorem bind (hc : Settled disk image lost c) {path : String} {flags : OpenFlags} {mode : Nat}
    {file : φ} {i size : Nat} {opened sized : σ} (hplace : c.table.lowestFree = some i)
    (hallocated : c.isAllocated = true)
    (hopen : Storage.openFile path flags mode c.storage = (.ok file, opened))
    (hsize : Storage.size file opened = (.ok size, sized))
    (hfresh : ∀ h f, c.table.get? h = some f → f.descriptor ≠ Storage.descriptor σ file)
    (hclosed : ∀ h f, c.table.get? h = some f → disk.path f.file ≠ Path.ofString path) :
    Settled disk (Function.update image ⟨i⟩ (disk.byteAt sized file))
      (lostAfter lost [.opened path i (Storage.descriptor σ file) size])
      (c.bound path flags i file size sized) where
  regular := (Step.bind hplace hallocated hopen hsize hfresh rfl).regular hc.regular
  coupled := coupled_bound hc.coupled hc.regular hplace hopen hsize hfresh hclosed
  blank := by
    intro h f j hf hj
    obtain ⟨rfl, rfl⟩ | ⟨hh, hf⟩ := c.table.get?_of_add_cases hplace hf
    · obtain ⟨hsound, -, -⟩ := disk.openFile hc.coupled.sound hopen
      obtain ⟨-, hsame, htold⟩ := disk.size hsound hsize
      rw [Function.update_self, Disk.byteAt, hsame]
      apply Bytes.byteAt_of_size_le
      rw [← htold size rfl]
      exact hj
    · rw [Function.update_of_ne hh]
      exact hc.blank hf hj

theorem openFile (hc : Settled disk image lost c) {path : String} {flags : OpenFlags} {mode : Nat}
    (hfresh : FreshDescriptor c path flags mode)
    (hclosed : ∀ h f, c.table.get? h = some f → disk.path f.file ≠ Path.ofString path) :
    ∃ as new, Steps c as new (Cache.openFile path flags mode c).2 ∧
      ((∃ e, (Cache.openFile path flags mode c).1 = .error e ∧
          Settled disk image (lostAfter lost new) (Cache.openFile path flags mode c).2) ∨
        ∃ h, (Cache.openFile path flags mode c).1 = .ok h ∧
          Settled disk
            (Function.update image h fun i =>
              Bytes.byteAt (disk.content (Cache.openFile path flags mode c).2.storage
                (Path.ofString path)) i)
            (lostAfter lost new) (Cache.openFile path flags mode c).2) := by
  obtain ⟨new, c₁, hsteps, hstorage, htable, ⟨e, hopen, -⟩ | ⟨_, fault, c', -, hstep, hopen, -⟩ |
    ⟨i, file, size, opened, sized, hplace, hallocated, hrun, hsize, hfresh₁, hopen⟩⟩ :=
    openFile_spec hfresh
  · rw [hopen]
    exact ⟨_, _, hsteps, Or.inl ⟨e, rfl, hc.tend hsteps⟩⟩
  · rw [hopen]
    have hc₁ := hc.tend hsteps
    rw [← htable] at hclosed
    refine ⟨_, _, hsteps.append (.single hstep), Or.inl ⟨_, rfl, ?_⟩⟩
    rw [List.append_nil]
    exact hc₁.visit hstep hclosed
  · rw [hopen]
    have hpath := (disk.openFile hc.coupled.sound (hstorage ▸ hrun)).2.2 file rfl
    have hcontent : (fun j => Bytes.byteAt (disk.content sized (Path.ofString path)) j) =
        disk.byteAt sized file := by
      funext j
      rw [Disk.byteAt, hpath]
    rw [← htable] at hclosed
    have hbind := Step.bind hplace hallocated hrun hsize hfresh₁ rfl
    refine ⟨_, _, hsteps.append (.single hbind), Or.inr ⟨⟨i⟩, rfl, ?_⟩⟩
    rw [show (c₁.bound path flags i file size sized).storage = sized from rfl, hcontent,
      lostAfter_append]
    exact (hc.tend hsteps).bind hplace hallocated hrun hsize hfresh₁ hclosed

/-- A read changes nothing of the contents. If it succeeds it delivers them, and leaves the rest of
the buffer alone. -/
theorem read (hc : Settled disk image lost c) {n : Nat} (h : Handle) (buffer : Buffer n) :
    ∃ as new, Steps c as new (Cache.read h buffer c).2 ∧ (∀ a ∈ as, a.keepsBytes = true) ∧
      Settled disk image (lostAfter lost new) (Cache.read h buffer c).2 ∧
      ∀ f count, c.table.get? h = some f → (Cache.read h buffer c).1.1 = .ok count →
        (∀ i, i < count → ⟨f.descriptor, blockOf (f.cursor + i)⟩ ∉ lostAfter lost new →
          (Cache.read h buffer c).1.2.byteAt i = image h (f.cursor + i)) ∧
        ∀ i, count ≤ i → (Cache.read h buffer c).1.2.byteAt i = buffer.byteAt i := by
  obtain ⟨as, new, hsteps, hkeep⟩ := read_steps hc.regular h buffer
  refine ⟨as, new, hsteps, hkeep, hc.steps hsteps hkeep, fun f count hf hcount => ?_⟩
  by_cases hend : f.size ≤ f.cursor
  · rw [read_of_end hf hend] at hcount ⊢
    obtain rfl := Except.ok.inj hcount
    exact ⟨fun i hi => absurd hi (Nat.not_lt_zero i), fun _ _ => rfl⟩
  have hlt := Nat.not_le.mp hend
  rcases hcopy : copyOut f (readChunks f n) buffer c with ⟨⟨outcome, buffer'⟩, c₁⟩
  cases outcome with
  | error e =>
      rw [read_of_error hf hlt (by rw [hcopy])] at hcount
      cases hcount
  | ok _ =>
      obtain ⟨news, hrest, houtside, hbytes⟩ :=
        copyOut_bytes (by omega) hc.regular hc.coupled hf hcopy
      have hread := read_of_ok hf hlt hcopy
      -- the journal tells that the steps are those of the copying, and a note
      have hnew : new = news ++ [.hasRead f.descriptor f.cursor (min n (f.size - f.cursor))] := by
        have hjournal := hsteps.journal_eq
        rw [hread, Array.toList_appendList, hrest.journal_eq, List.append_assoc] at hjournal
        exact (List.append_cancel_left hjournal).symm
      rw [hread] at hcount ⊢
      obtain rfl := Except.ok.inj hcount
      refine ⟨fun i hi hkept => ?_, fun i hi => houtside i (Or.inr (by omega))⟩
      rw [hnew, lostAfter_append, lostAfter_of_isNote _ (by simp [Event.isNote])] at hkept
      have hbyte := hbytes i hi hkept
      rwa [Nat.zero_add] at hbyte

/-- A write that succeeds replaces the bytes from where it starts; one that fails replaces none. -/
theorem write (hc : Settled disk image lost c) (h : Handle) (data : ByteArray) :
    ∃ as new, Steps c as new (Cache.write h data c).2 ∧
      (∀ a ∈ as, a.isStore = true ∨ a.keepsBytes = true) ∧
      ((∃ e, (Cache.write h data c).1 = .error e ∧
          Settled disk image (lostAfter lost new) (Cache.write h data c).2) ∨
        ∃ f, c.table.get? h = some f ∧ (Cache.write h data c).1 = .ok data.size ∧
          Settled disk (Function.update image h (patch (image h) (writeStart f) data))
            (lostAfter lost new) (Cache.write h data c).2) := by
  cases hf : c.table.get? h with
  | none =>
      rw [write_of_none hf]
      exact ⟨[], [], .nil c, fun _ ha => (nomatch ha), Or.inl ⟨_, rfl, hc⟩⟩
  | some f =>
      by_cases hfar : maxOffset < writeStart f + data.size
      · have hmove : Step c [.move h] [] _ :=
          .move (·.moveTo (writeStart f)) hf rfl rfl rfl (Nat.le_refl _)
        rw [write_of_far hf hfar]
        exact ⟨_, _, .single hmove, by simp [Action.keepsBytes], Or.inl ⟨_, rfl, hc.move hmove⟩⟩
      have hnear := Nat.not_lt.mp hfar
      have hget := get?_write hc.regular hf hnear
      obtain ⟨c₁, new, c₂, c₃, c', hmove, -, hsteps, -, hmove', -, hreport, -, hwrite⟩ :=
        write_spec hc.regular hf hnear
      have hc₁ := hc.move hmove
      have hstores : ∀ a ∈ (chunks (writeStart f) data.size).map (storeOf h data),
          a.isStore = true := by
        intro a ha
        obtain ⟨chunk, -, rfl⟩ := List.mem_map.mp ha
        rfl
      have hc₂ := hsteps.coupled hstores hc₁.regular hc₁.coupled
      rw [foldl_storeOf_chunks] at hc₂
      have hreg₃ := hmove'.regular (hsteps.regular hc₁.regular)
      rw [hwrite] at hget ⊢
      refine ⟨_, _, (((Steps.single hmove).append hsteps).append (.single hmove')).append hreport,
        fun a ha => ?_, Or.inr ⟨f, rfl, rfl, ?_⟩⟩
      · simp only [List.append_nil, List.mem_append, List.mem_singleton] at ha
        rcases ha with (rfl | ha) | rfl
        · exact Or.inr rfl
        · exact Or.inl (hstores a ha)
        · exact Or.inr rfl
      rw [List.append_nil, List.nil_append, lostAfter_append]
      exact {
        regular := hreport.regular hreg₃
        coupled := hreport.coupled_tend hreg₃ (hmove'.coupled_move hc₂)
        blank := by
          intro h' f' i hf' hi
          rw [hget] at hf'
          split at hf'
          · rename_i hh
            obtain rfl := Option.some.inj hf'
            have hi' : f.size ≤ i ∧ writeStart f + data.size ≤ i := by
              simp only [OpenFile.moveBy, OpenFile.moveTo] at hi
              simp only [if_true] at hi
              omega
            rw [hh, Function.update_self, patch, if_neg (by omega)]
            exact hc.blank hf hi'.1
          · rename_i hh
            rw [Function.update_of_ne hh]
            exact hc.blank hf' hi }

theorem sync (hc : Settled disk image lost c) (h : Handle) :
    ∃ as new, Steps c as new (Cache.sync h c).2 ∧
      Settled disk image (lostAfter lost new) (Cache.sync h c).2 := by
  obtain ⟨as, new, hsteps, hkeep, -⟩ := sync_steps c h
  exact ⟨as, new, hsteps, hc.steps hsteps hkeep⟩

theorem close (hc : Settled disk image lost c) (h : Handle) :
    ∃ as new, Steps c as new (Cache.close h c).2 ∧
      Settled disk image (lostAfter lost new) (Cache.close h c).2 := by
  obtain ⟨as, new, hsteps, hkeep⟩ := close_steps c h
  exact ⟨as, new, hsteps, hc.steps hsteps hkeep⟩

theorem seek (hc : Settled disk image lost c) (h : Handle) (target : SeekTarget) :
    ∃ as, Steps c as [] (Cache.seek h target c).2 ∧
      Settled disk image lost (Cache.seek h target c).2 := by
  obtain ⟨as, hsteps, hkeep⟩ := seek_steps c h target
  exact ⟨as, hsteps, hc.steps hsteps hkeep⟩

end Settled

/-- What becomes of the image when a request is served: a file that is opened enters it as it is
stored then, and a write that succeeds replaces bytes in it. -/
def recorded (disk : Disk σ φ) (image : Image) (c : Cache σ φ) : Request → Image
  | .openFile path flags mode =>
      match (openFile path flags mode c).1 with
      | .ok h => Function.update image h fun i =>
          Bytes.byteAt (disk.content (openFile path flags mode c).2.storage (Path.ofString path)) i
      | .error _ => image
  | .write h data =>
      match (write h data c).1, c.table.get? h with
      | .ok _, some f => Function.update image h (patch (image h) (writeStart f) data)
      | _, _ => image
  | _ => image

/-- Any call settles the cache again, on the image that is recorded. -/
theorem serve_settled (hc : Settled disk image lost c) (request : Request)
    (hadmits : IsAdmitted disk c request) :
    ∃ as new, Steps c as new (serve request c).2 ∧
      Settled disk (recorded disk image c request) (lostAfter lost new) (serve request c).2 := by
  cases request with
  | openFile path flags mode =>
      obtain ⟨as, new, hsteps, ⟨e, hopen, hc'⟩ | ⟨h, hopen, hc'⟩⟩ :=
        hc.openFile hadmits.1 hadmits.2
      · refine ⟨as, new, hsteps, ?_⟩
        simp only [recorded, hopen]
        exact hc'
      · refine ⟨as, new, hsteps, ?_⟩
        simp only [recorded, hopen]
        exact hc'
  | write h data =>
      obtain ⟨as, new, hsteps, -, ⟨e, hwrite, hc'⟩ | ⟨f, hf, hwrite, hc'⟩⟩ := hc.write h data
      · refine ⟨as, new, hsteps, ?_⟩
        simp only [recorded, hwrite]
        exact hc'
      · refine ⟨as, new, hsteps, ?_⟩
        simp only [recorded, hwrite, hf]
        exact hc'
  | read h buffer =>
      obtain ⟨as, new, hsteps, -, hc', -⟩ := hc.read h (Buffer.ofBytes buffer)
      exact ⟨as, new, hsteps, hc'⟩
  | close h => exact hc.close h
  | sync h => exact hc.sync h
  | seek h target =>
      obtain ⟨as, hsteps, hc'⟩ := hc.seek h target
      exact ⟨as, [], hsteps, hc'⟩
  | position | length | flags | isResident => exact ⟨[], [], .nil c, hc⟩

end Cache

end BlockCache
