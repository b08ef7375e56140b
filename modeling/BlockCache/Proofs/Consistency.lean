import BlockCache.Proofs.Contents

/-!
What is known of the stored files after any failure. If a write that fails leaves every byte the old
or the new one, then in every state that a cache can reach its slots and the stored files still
agree on some contents: a clean slot has the bytes that are stored, and neither has bytes past the
size of the file. What those contents are may have changed with a failure, but syncing a file with
success stores exactly the bytes that are read from it.

A file may grow while it is written to. Until then the new bytes are past its size, so that they are
bounded by an extent instead.
-/

namespace BlockCache

/-- Whether an action only stores bytes, within the extents of the files. -/
def Action.IsWithin (extent : Handle → Nat) : Action → Prop
  | .store h offset data => offset + data.size ≤ extent h
  | _ => False

theorem Action.IsWithin.isStore {extent : Handle → Nat} {a : Action} (h : a.IsWithin extent) :
    a.isStore = true := by
  cases a with
  | store => rfl
  | _ => cases h

theorem Action.IsWithin.keepsTable {extent : Handle → Nat} {a : Action} (h : a.IsWithin extent) :
    a.keepsTable = true := by
  cases a with
  | store => rfl
  | _ => cases h

/-- Bytes stored within the extents leave the image blank past them. -/
theorem blank_foldl_apply {extent : Handle → Nat} {as : List Action}
    (has : ∀ a ∈ as, a.IsWithin extent) {image : Image} {h : Handle} {i : Nat} (hi : extent h ≤ i)
    (hblank : image h i = 0) : (as.foldl Action.apply image) h i = 0 := by
  induction as generalizing image with
  | nil => exact hblank
  | cons a rest ih =>
      apply ih (fun a' ha' => has a' (List.mem_cons_of_mem _ ha'))
      have ha := has a List.mem_cons_self
      cases a with
      | store h' offset data =>
          change offset + data.size ≤ extent h' at ha
          rw [Action.apply]
          by_cases hh : h = h'
          · subst hh
            rw [Function.update_self, patch, if_neg (by omega)]
            exact hblank
          · rw [Function.update_of_ne hh]
            exact hblank
      | _ => exact hblank

namespace Cache

def sizes {σ φ : Type} (c : Cache σ φ) (h : Handle) : Nat := ((c.table.get? h).map (·.size)).getD 0

variable {σ φ : Type} [Storage σ φ] {disk : Disk σ φ} {image : Image} {lost lost' : List BlockId}
  {c c' : Cache σ φ}

/-- The bytes of one block may be told anew, if that is what its slot and the storage have. -/
theorem Coupled.retell (hc : Coupled disk image lost c) (hreg : c.Regular) {h : Handle}
    {f : OpenFile φ} {b : Nat} {bytes : Nat → UInt8} (hf : c.table.get? h = some f)
    (hlost : ∀ key, key ≠ ⟨f.descriptor, b⟩ → key ∉ lost' → key ∉ lost)
    (hsame : ∀ {b' p}, b' ≠ b → p < blockSize →
      bytes (b' * blockSize + p) = image h (b' * blockSize + p))
    (hresident : ⟨f.descriptor, b⟩ ∉ lost' → ∀ {j : Nat} {t : Slot} {p : Nat},
      c.pool.slots[j]? = some t → t.key = some ⟨f.descriptor, b⟩ → p < blockSize →
      t.block.byteAt p = bytes (b * blockSize + p))
    (hstored : ⟨f.descriptor, b⟩ ∉ lost' → c.Clean ⟨f.descriptor, b⟩ → ∀ {p}, p < blockSize →
      disk.byteAt c.storage f.file (b * blockSize + p) = bytes (b * blockSize + p)) :
    Coupled disk (Function.update image h bytes) lost' c := by
  have hthis : ∀ {h' : Handle} {f' : OpenFile φ} {b' : Nat}, c.table.get? h' = some f' →
      (⟨f'.descriptor, b'⟩ : BlockId) = ⟨f.descriptor, b⟩ → h' = h ∧ f' = f ∧ b' = b := by
    intro h' f' b' hf' hkey
    obtain ⟨hd, rfl⟩ := BlockId.mk.inj hkey
    obtain rfl := hreg.apart hf' hf hd
    rw [hf] at hf'
    exact ⟨rfl, (Option.some.inj hf').symm, rfl⟩
  refine hc.of_others (· = ⟨f.descriptor, b⟩) rfl hc.sound hlost (fun {h' f' b' p} hf' hK hp => ?_)
    (fun _ _ _ => rfl) (fun {j t key} ht hkey _ => ⟨t, ht, hkey, rfl⟩)
    (fun {j s key} hs hkey _ hd => ⟨s, hs, hkey, hd⟩)
    (fun {h' f' b' j t p} hf' hK hkept ht hkey hp => ?_)
    (fun {h' f' b' p} hf' hK hkept hclean hp => ?_)
  · by_cases hh : h' = h
    · subst hh
      rw [hf] at hf'
      obtain rfl := Option.some.inj hf'
      rw [Function.update_self]
      exact hsame (fun hb => hK (by rw [hb])) hp
    · rw [Function.update_of_ne hh]
  · obtain ⟨rfl, rfl, rfl⟩ := hthis hf' hK
    rw [Function.update_self]
    exact hresident hkept ht hkey hp
  · obtain ⟨rfl, rfl, rfl⟩ := hthis hf' hK
    rw [Function.update_self]
    exact hstored hkept hclean hp

/-- A block that was lost and is in no clean slot has bytes all the same: those in its slot, or the
stored ones if it is in none. -/
theorem Coupled.recover {h : Handle} {f : OpenFile φ} {b : Nat} {bytes : Nat → UInt8}
    (hc : Coupled disk image [⟨f.descriptor, b⟩] c) (hreg : c.Regular)
    (hf : c.table.get? h = some f)
    (hslot : ∀ {i : Nat} {s : Slot}, c.pool.slots[i]? = some s → s.key = some ⟨f.descriptor, b⟩ →
      s.dirty = true ∧ ∀ p, p < blockSize → s.block.byteAt p = bytes (b * blockSize + p)) :
    ∃ image', Coupled disk image' [] c ∧ ∀ (h' : Handle) (i : Nat), image' h' i = image h' i ∨
      h' = h ∧ (image' h' i = bytes i ∨ image' h' i = disk.byteAt c.storage f.file i) := by
  have hblock : ∀ {b' p : Nat}, p < blockSize → blockOf (b' * blockSize + p) = b' := by
    intro b' p hp
    simp only [blockOf, blockSize] at hp ⊢
    omega
  obtain ⟨told, htold, hresident, hstored⟩ : ∃ told : Nat → UInt8,
      (∀ i, told i = bytes i ∨ told i = disk.byteAt c.storage f.file i) ∧
      (∀ {j : Nat} {t : Slot} {p : Nat}, c.pool.slots[j]? = some t →
        t.key = some ⟨f.descriptor, b⟩ → p < blockSize →
        t.block.byteAt p = told (b * blockSize + p)) ∧
      (c.Clean ⟨f.descriptor, b⟩ → ∀ {p : Nat}, p < blockSize →
        disk.byteAt c.storage f.file (b * blockSize + p) = told (b * blockSize + p)) := by
    by_cases hclean : c.Clean ⟨f.descriptor, b⟩
    · refine ⟨disk.byteAt c.storage f.file, fun _ => Or.inr rfl, fun ht hkey _ => ?_,
        fun _ _ _ => rfl⟩
      have hdirty := (hslot ht hkey).1
      rw [hclean ht hkey] at hdirty
      cases hdirty
    · exact ⟨bytes, fun _ => Or.inl rfl, fun ht hkey hp => (hslot ht hkey).2 _ hp,
        fun hclean' => absurd @hclean' hclean⟩
  refine ⟨Function.update image h fun i => if blockOf i = b then told i else image h i,
    hc.retell (b := b) hreg hf (fun key hkey _ hmem => ?_) (fun {b' p} hb hp => ?_)
      (fun _ {j t p} ht hkey hp => ?_) (fun _ hclean {p} hp => ?_), fun h' i => ?_⟩
  · exact hkey (List.mem_singleton.mp hmem)
  · rw [hblock hp, if_neg hb]
  · rw [hblock hp, if_pos rfl]
    exact hresident ht hkey hp
  · rw [hblock hp, if_pos rfl]
    exact hstored hclean hp
  · by_cases hh : h' = h
    · subst hh
      rw [Function.update_self]
      by_cases hb : blockOf i = b
      · rw [if_pos hb]
        exact Or.inr ⟨rfl, htold i⟩
      · rw [if_neg hb]
        exact Or.inl rfl
    · exact Or.inl (congrFun (Function.update_of_ne hh _ _) i)

/-- Whether the slots of a cache and the stored files agree on some contents, which have nothing
past the extents of the files. -/
structure Consistent (disk : Disk σ φ) (extent : Handle → Nat) (c : Cache σ φ) : Prop where
  regular : c.Regular
  agreed : ∃ image, Coupled disk image [] c ∧ ∀ {h : Handle} {f : OpenFile φ} {i : Nat},
    c.table.get? h = some f → extent h ≤ i → image h i = 0
  stored_blank : ∀ {h : Handle} {f : OpenFile φ} {i : Nat}, c.table.get? h = some f →
    extent h ≤ i → disk.byteAt c.storage f.file i = 0

variable {extent : Handle → Nat}

/-! ### Steps -/

/-- Storing a block leaves every byte of an open file as it was or as in the image. -/
theorem Coupled.byteAt_storeBlock (htears : disk.Tears) (hc : Coupled disk image [] c)
    {block : Block} {tenant : Tenant} {i : Nat} {h h' : Handle} {f f' : OpenFile φ}
    {outcome : Except Error Unit} {storage : σ}
    (hs : c.pool.slots[i]? = some ⟨block, true, some tenant⟩) (hf : c.table.get? h = some f)
    (howner : f.descriptor = tenant.key.owner)
    (hstore : storeBlock f.file tenant.key block c.storage = (outcome, storage))
    (hf' : c.table.get? h' = some f') (j : Nat) :
    disk.byteAt storage f'.file j = disk.byteAt c.storage f'.file j ∨
      disk.byteAt storage f'.file j = image h' j := by
  obtain ⟨⟨owner, b⟩, frequency⟩ := tenant
  obtain rfl : f.descriptor = owner := howner
  obtain ⟨-, hother, houtside, -⟩ := Disk.storeBlock_spec hc.sound hstore
  by_cases hh : h' = h
  · subst hh
    rw [hf] at hf'
    obtain rfl := Option.some.inj hf'
    have hp := placeInBlock_lt j
    rw [← blockOf_mul_add_placeInBlock j]
    by_cases hb : blockOf j = b
    · obtain ⟨result, hwrite, -⟩ := storeBlock_run hstore
      have hbyte := hc.resident (p := placeInBlock j) hf hs rfl List.not_mem_nil hp
      rcases htears hc.sound hwrite (placeInBlock j) hp with hold | hnew
      · exact Or.inl (by rw [hb]; exact hold)
      · exact Or.inr (by rw [hb, ← hbyte]; exact hnew)
    · exact Or.inl (houtside _ _ hp hb)
  · apply Or.inl
    rw [Disk.byteAt, hother _ fun hpath => hh (hc.apart hf' hf hpath)]
    rfl

/-- A step that only stores bytes into the pool leaves every stored byte of an open file as it was
or as in the image. -/
theorem Step.byteAt_stored (htears : disk.Tears) (hc : Coupled disk image [] c) {as : List Action}
    {new : List Event} (hstep : Step c as new c') (hstore : ∀ a ∈ as, a.isStore = true)
    {h : Handle} {f : OpenFile φ} (hf : c.table.get? h = some f) (i : Nat) :
    disk.byteAt c'.storage f.file i = disk.byteAt c.storage f.file i ∨
      disk.byteAt c'.storage f.file i = image h i := by
  have hsame : disk.content c'.storage = disk.content c.storage →
      disk.byteAt c'.storage f.file i = disk.byteAt c.storage f.file i ∨
        disk.byteAt c'.storage f.file i = image h i := by
    intro hcontent
    apply Or.inl
    rw [Disk.byteAt, hcontent]
    rfl
  cases hstep with
  | allocate | report | hit | miss | evictClean | overwrite | replace => exact hsame rfl
  | evictDirty hs hf' howner hrun => exact hc.byteAt_storeBlock htears hs hf' howner hrun hf i
  | flush hs hf' howner hrun => exact hc.byteAt_storeBlock htears hs hf' howner hrun hf i
  | fill _ _ _ _ hread => exact hsame (disk.readAt hc.sound hread).2.1
  | fillFailed _ _ _ _ hread => exact hsame (disk.readAt hc.sound hread).2.1
  | overwriteZeros _ _ _ _ _ hread => exact hsame (disk.readAt hc.sound hread).2.1
  | sync _ hsync => exact hsame (disk.sync hc.sound hsync).2
  | trimFailed _ hset => exact hsame ((disk.setLen hc.sound hset).2.2.2 _ rfl)
  | trim | move | refuse | abandon | bind | drop =>
      exact absurd (hstore _ List.mem_cons_self) Bool.false_ne_true

/-- A step that only stores bytes loses at most one block. If a slot has it then, that slot is dirty
and has the bytes that were stored, the others being zeros. -/
theorem Step.loses {as : List Action} {new : List Event} (hstep : Step c as new c')
    (hstore : ∀ a ∈ as, a.isStore = true) (hreg : c.Regular) :
    lostAfter [] new = [] ∨ ∃ h f b, c.table.get? h = some f ∧
      lostAfter [] new = [⟨f.descriptor, b⟩] ∧
      ∀ {i : Nat} {s : Slot}, c'.pool.slots[i]? = some s → s.key = some ⟨f.descriptor, b⟩ →
        s.dirty = true ∧ ∀ p, p < blockSize →
          s.block.byteAt p = as.foldl Action.apply (fun _ _ => 0) h (b * blockSize + p) := by
  have hreg' := hstep.regular hreg
  cases hstep with
  | report new hnote => exact Or.inl (lostAfter_of_isNote [] hnote)
  | @evictDirty block tenant h f outcome storage _ hs hf howner _ hnew =>
      subst hnew
      obtain ⟨⟨owner, b⟩, frequency⟩ := tenant
      obtain rfl : f.descriptor = owner := howner
      cases outcome with
      | ok _ => exact Or.inl rfl
      | error e =>
          refine Or.inr ⟨h, f, b, hf, rfl, fun {j t} ht hkey => ?_⟩
          -- the block was in the slot that is free now, and in no other one
          change (c.pool.evict c.pool.victim _).slots[j]? = some t at ht
          rw [Pool.slots_evict] at ht
          rcases Pool.getElem?_modify_cases ht with ⟨s, -, -, rfl⟩ | ⟨hj, ht⟩
          · cases hkey
          · exact absurd (hreg.distinct ht hs hkey rfl) hj
  | @overwriteZeros h f index i start s data block fault storage _ hf hs hfree _ hfits _ hnew =>
      subst hnew
      refine Or.inr ⟨h, f, index, hf, rfl, fun {j t} ht hkey => ?_⟩
      have hslots := c.pool.slots_take_write i start ⟨f.descriptor, index⟩
        (Buffer.zero blockSize) Stats.filled data
      obtain rfl := hreg'.eq_of_modify hslots hs rfl ht hkey
      refine ⟨rfl, fun p hp => ?_⟩
      have hzero : ((s.setBlock (Buffer.zero blockSize)).assign
          ⟨f.descriptor, index⟩).block.byteAt p = 0 := Buffer.byteAt_zero _ _
      rw [List.foldl_cons, List.foldl_nil, Action.apply, Function.update_self, patch_within,
        Slot.byteAt_write _ _ _ hp, hzero]
  | allocate _ _ hnew | hit _ _ hnew | evictClean _ hnew | fillFailed _ _ _ _ _ hnew
    | trimFailed _ _ hnew =>
      subst hnew
      exact Or.inl rfl
  | miss | fill | overwrite | replace | flush | sync => exact Or.inl rfl
  | trim | move | refuse | abandon | bind | drop =>
      exact absurd (hstore _ List.mem_cons_self) Bool.false_ne_true

/-- Steps that store bytes within the extents keep a cache consistent, whatever fails. -/
theorem Step.consistent (htears : disk.Tears) {as : List Action} {new : List Event}
    (hstep : Step c as new c') (hwithin : ∀ a ∈ as, a.IsWithin extent)
    (hc : Consistent disk extent c) : Consistent disk extent c' := by
  obtain ⟨hreg, ⟨image, hcoupled, hblank⟩, hstored⟩ := hc
  have hstore : ∀ a ∈ as, a.isStore = true := fun a ha => (hwithin a ha).isStore
  have htable := hstep.table_eq fun a ha => (hwithin a ha).keepsTable
  have hreg' := hstep.regular hreg
  have hcoupled' := hstep.coupled hstore hreg hcoupled
  have hblank' : ∀ {h : Handle} {f : OpenFile φ} {i : Nat}, c'.table.get? h = some f →
      extent h ≤ i → (as.foldl Action.apply image) h i = 0 := by
    intro h f i hf hi
    rw [htable] at hf
    exact blank_foldl_apply hwithin hi (hblank hf hi)
  have hstored' : ∀ {h : Handle} {f : OpenFile φ} {i : Nat}, c'.table.get? h = some f →
      extent h ≤ i → disk.byteAt c'.storage f.file i = 0 := by
    intro h f i hf hi
    rw [htable] at hf
    rcases hstep.byteAt_stored htears hcoupled hstore hf i with hold | hnew
    · rw [hold, hstored hf hi]
    · rw [hnew, hblank hf hi]
  refine ⟨hreg', ?_, hstored'⟩
  rcases hstep.loses hstore hreg with hnone | ⟨h, f, b, hf, hone, hslot⟩
  · rw [hnone] at hcoupled'
    exact ⟨_, hcoupled', hblank'⟩
  · rw [hone] at hcoupled'
    rw [← htable] at hf
    obtain ⟨image', hcoupled'', hbytes⟩ := hcoupled'.recover hreg' hf hslot
    refine ⟨image', hcoupled'', fun {h' f' i} hf' hi => ?_⟩
    rcases hbytes h' i with hsame | ⟨rfl, hslot' | hstored''⟩
    · rw [hsame, hblank' hf' hi]
    · rw [hslot', blank_foldl_apply hwithin hi rfl]
    · rw [hstored'', hstored' hf hi]

theorem Steps.consistent (htears : disk.Tears) {as : List Action} {new : List Event}
    (h : Steps c as new c') (hwithin : ∀ a ∈ as, a.IsWithin extent)
    (hc : Consistent disk extent c) : Consistent disk extent c' := by
  induction h with
  | nil => exact hc
  | cons hstep _ ih =>
      have hfirst := hstep.consistent htears
        (fun a ha => hwithin a (List.mem_append_left _ ha)) hc
      exact ih (fun a ha => hwithin a (List.mem_append_right _ ha)) hfirst

theorem Consistent.mono {extent' : Handle → Nat} (hc : Consistent disk extent c)
    (hle : ∀ {h : Handle} {f : OpenFile φ}, c.table.get? h = some f → extent h ≤ extent' h) :
    Consistent disk extent' c where
  regular := hc.regular
  agreed := by
    obtain ⟨image, hcoupled, hblank⟩ := hc.agreed
    exact ⟨image, hcoupled, fun hf hi => hblank hf (Nat.le_trans (hle hf) hi)⟩
  stored_blank := fun hf hi => hc.stored_blank hf (Nat.le_trans (hle hf) hi)

theorem Consistent.move (hc : Consistent disk extent c) {h : Handle} {new : List Event}
    (hstep : Step c [.move h] new c') : Consistent disk extent c' where
  regular := hstep.regular hc.regular
  agreed := by
    obtain ⟨image, hcoupled, hblank⟩ := hc.agreed
    refine ⟨image, hstep.coupled_move hcoupled, fun {h' f' i} hf' hi => ?_⟩
    obtain ⟨f, hf, -⟩ := hstep.get?_move hf'
    exact hblank hf hi
  stored_blank := by
    intro h' f' i hf' hi
    obtain ⟨f, hf, hfile, -⟩ := hstep.get?_move hf'
    rw [← hfile]
    cases hstep
    exact hc.stored_blank hf hi

/-! ### Calls -/

omit [Storage σ φ] in
theorem sizes_of_some {h : Handle} {f : OpenFile φ} (hf : c.table.get? h = some f) :
    c.sizes h = f.size := by
  rw [sizes, hf]
  rfl

/-- Whether a cache is consistent with nothing past the sizes of the files. -/
def Firm (disk : Disk σ φ) (c : Cache σ φ) : Prop := Consistent disk c.sizes c

namespace Firm

theorem settled (hc : Firm disk c) : ∃ image, Settled disk image [] c := by
  obtain ⟨image, hcoupled, hblank⟩ := hc.agreed
  refine ⟨image, hc.regular, hcoupled, fun {h f i} hf hi => hblank hf ?_⟩
  rw [sizes_of_some hf]
  exact hi

theorem of_settled (hc : Settled disk image [] c)
    (hstored : ∀ {h : Handle} {f : OpenFile φ} {i : Nat}, c.table.get? h = some f → f.size ≤ i →
      disk.byteAt c.storage f.file i = 0) : Firm disk c where
  regular := hc.regular
  agreed := by
    refine ⟨image, hc.coupled, fun {h f i} hf hi => hc.blank hf ?_⟩
    rw [← sizes_of_some hf]
    exact hi
  stored_blank := by
    intro h f i hf hi
    rw [sizes_of_some hf] at hi
    exact hstored hf hi

theorem blank (hc : Firm disk c) {h : Handle} {f : OpenFile φ} {i : Nat}
    (hf : c.table.get? h = some f) (hi : f.size ≤ i) : disk.byteAt c.storage f.file i = 0 := by
  rw [← sizes_of_some hf] at hi
  exact hc.stored_blank hf hi

theorem tend (htears : disk.Tears) (hc : Firm disk c) {new : List Event} (h : Steps c [] new c') :
    Firm disk c' := by
  have hsizes : c'.sizes = c.sizes := by
    funext h'
    rw [sizes, sizes, h.table_tend]
  have hsteps := h.consistent htears (fun _ ha => nomatch ha) hc
  rw [← hsizes] at hsteps
  exact hsteps

theorem move (hc : Firm disk c) {h : Handle} {new : List Event} (hstep : Step c [.move h] new c') :
    Firm disk c' := by
  refine (Consistent.move hc hstep).mono fun {h' f'} hf' => ?_
  obtain ⟨f, hf, -, -, hsize⟩ := hstep.get?_move hf'
  rw [sizes_of_some hf, sizes_of_some hf']
  exact hsize

theorem trim (hc : Firm disk c) {h : Handle} {new : List Event} (hstep : Step c [.trim h] new c') :
    Firm disk c' := by
  obtain ⟨image, hset⟩ := hc.settled
  apply of_settled (hset.trim hstep)
  cases hstep with
  | @trim _ f storage hf htrim =>
      obtain ⟨-, hother, hresize, -⟩ := disk.setLen hset.coupled.sound htrim
      intro h' f' i hf' hi
      by_cases hpath : disk.path f'.file = disk.path f.file
      · rw [Disk.byteAt, hpath, hresize rfl, Bytes.byteAt_resize, ← hpath]
        split
        · exact hc.blank hf' hi
        · rfl
      · rw [Disk.byteAt, hother _ hpath]
        exact hc.blank hf' hi

theorem drop (hc : Firm disk c) {h : Handle} {new : List Event} (hstep : Step c [.drop h] new c') :
    Firm disk c' := by
  obtain ⟨image, hset⟩ := hc.settled
  have hset' := hset.drop hstep
  cases hstep with
  | @drop _ f _ hf hnew =>
      subst hnew
      refine of_settled hset' fun {h' f' i} hf' hi => ?_
      rw [Disk.byteAt, (disk.close hset.coupled.sound).2]
      exact hc.blank (c.table.get?_of_remove hf').2 hi

theorem steps (htears : disk.Tears) (hc : Firm disk c) {as : List Action} {new : List Event}
    (h : Steps c as new c') (hkeep : ∀ a ∈ as, a.keepsBytes = true) : Firm disk c' := by
  induction h with
  | nil => exact hc
  | cons hstep _ ih =>
      refine ih ?_ fun a ha => hkeep a (List.mem_append_right _ ha)
      rcases hstep.actions with rfl | ⟨a, rfl⟩
      · exact hc.tend htears (.single hstep)
      · have ha := hkeep a (List.mem_append_left _ List.mem_cons_self)
        cases a with
        | move => exact hc.move hstep
        | trim => exact hc.trim hstep
        | drop => exact hc.drop hstep
        | store | visit | bind => cases ha

theorem visit (hc : Firm disk c) {path : String} {new : List Event}
    (hstep : Step c [.visit path] new c')
    (hclosed : ∀ h f, c.table.get? h = some f → disk.path f.file ≠ Path.ofString path) :
    Firm disk c' := by
  obtain ⟨image, hset⟩ := hc.settled
  refine of_settled (hset.visit hstep hclosed) fun {h f i} hf hi => ?_
  rw [hstep.table_eq (by simp [Action.keepsTable])] at hf
  rw [Disk.byteAt, (hstep.content_visit hset.coupled.sound).2 _ (hclosed h f hf)]
  exact hc.blank hf hi

theorem bind (hc : Firm disk c) {path : String} {flags : OpenFlags} {mode : Nat} {file : φ}
    {i size : Nat} {opened sized : σ} (hplace : c.table.lowestFree = some i)
    (hallocated : c.isAllocated = true)
    (hopen : Storage.openFile path flags mode c.storage = (.ok file, opened))
    (hsize : Storage.size file opened = (.ok size, sized))
    (hfresh : ∀ h f, c.table.get? h = some f → f.descriptor ≠ Storage.descriptor σ file)
    (hclosed : ∀ h f, c.table.get? h = some f → disk.path f.file ≠ Path.ofString path) :
    Firm disk (c.bound path flags i file size sized) := by
  obtain ⟨image, hset⟩ := hc.settled
  obtain ⟨hsound, hother, hpath⟩ := disk.openFile hset.coupled.sound hopen
  obtain ⟨-, hcontent, htold⟩ := disk.size hsound hsize
  have hset' := hset.bind hplace hallocated hopen hsize hfresh hclosed
  refine of_settled hset' fun {h f j} hf hj => ?_
  have hbound := hset'.blank hf hj
  show disk.byteAt sized f.file j = 0
  obtain ⟨rfl, rfl⟩ | ⟨-, hf⟩ := c.table.get?_of_add_cases hplace hf
  · rw [Function.update_self] at hbound
    exact hbound
  · rw [Disk.byteAt, hcontent, hother _ (hclosed h f hf)]
    exact hc.blank hf hj

theorem openFile (htears : disk.Tears) (hc : Firm disk c) {path : String} {flags : OpenFlags}
    {mode : Nat} (hfresh : FreshDescriptor c path flags mode)
    (hclosed : ∀ h f, c.table.get? h = some f → disk.path f.file ≠ Path.ofString path) :
    Firm disk (Cache.openFile path flags mode c).2 := by
  obtain ⟨new, c₁, hsteps, -, htable, ⟨e, hopen, -⟩ | ⟨_, fault, c', -, hstep, hopen, -⟩ |
    ⟨i, file, size, opened, sized, hplace, hallocated, hrun, hsize, hfresh₁, hopen⟩⟩ :=
    openFile_spec hfresh
  all_goals
    rw [hopen]
    rw [← htable] at hclosed
    have hc₁ := hc.tend htears hsteps
  · exact hc₁
  · exact hc₁.visit hstep hclosed
  · exact hc₁.bind hplace hallocated hrun hsize hfresh₁ hclosed

/-- Before a file grows it may have bytes past its size, up to where the write ends. -/
theorem write (htears : disk.Tears) (hc : Firm disk c) (h : Handle) (data : ByteArray) :
    Firm disk (Cache.write h data c).2 := by
  cases hf : c.table.get? h with
  | none =>
      rw [write_of_none hf]
      exact hc
  | some f =>
      by_cases hfar : maxOffset < writeStart f + data.size
      · rw [write_of_far hf hfar]
        exact hc.move (.move (·.moveTo (writeStart f)) hf rfl rfl rfl (Nat.le_refl _))
      obtain ⟨c₁, new, c₂, c₃, c', hmove, heq₁, hsteps, htable, hmove', heq₃, hreport, htable',
        hwrite⟩ := write_spec hc.regular hf (Nat.not_lt.mp hfar)
      rw [hwrite]
      refine Firm.tend htears ?_ hreport
      have hf₁ : c₁.table.get? h = some (f.moveTo (writeStart f)) := by
        rw [heq₁]
        exact c.table.get?_modify_self hf _
      -- while the chunks are stored, the file extends as far as the last of them
      have hextent : Consistent disk
          (Function.update c₁.sizes h (max f.size (writeStart f + data.size))) c₁ := by
        refine (hc.move hmove).mono fun {h' f'} hf' => ?_
        by_cases hh : h' = h
        · subst hh
          rw [sizes_of_some hf₁, Function.update_self]
          exact Nat.le_max_left _ _
        · exact Nat.le_of_eq (Function.update_of_ne hh _ _).symm
      have hwithin : ∀ a ∈ (chunks (writeStart f) data.size).map (storeOf h data),
          a.IsWithin (Function.update c₁.sizes h (max f.size (writeStart f + data.size))) := by
        intro a ha
        obtain ⟨chunk, hchunk, rfl⟩ := List.mem_map.mp ha
        have hspec := mem_chunks hchunk
        change _ + (Bytes.slice data chunk.position chunk.length).size ≤ _
        rw [Function.update_self, Bytes.size_slice]
        omega
      refine ((hsteps.consistent htears hwithin hextent).move hmove').mono fun {h' f'} hf' => ?_
      rw [sizes_of_some hf']
      rw [heq₃] at hf'
      change (c₂.table.modify h _).get? h' = some f' at hf'
      rw [htable] at hf'
      rcases c₁.table.get?_modify_cases hf' with ⟨f₁, hf₁', rfl, rfl⟩ | ⟨hh, hf₁'⟩
      · rw [hf₁] at hf₁'
        obtain rfl := Option.some.inj hf₁'
        rw [Function.update_self]
        exact Nat.le_refl _
      · exact Nat.le_of_eq ((Function.update_of_ne hh _ _).trans (sizes_of_some hf₁'))

end Firm

/-- Any call leaves the cache firm, whatever fails in it. -/
theorem serve_firm (htears : disk.Tears) (hc : Firm disk c) (request : Request)
    (hfresh : c.IsFresh request) (hexclusive : c.IsExclusive disk request) :
    Firm disk (serve request c).2 := by
  cases request with
  | openFile path flags mode => exact hc.openFile htears hfresh hexclusive
  | write h data => exact hc.write htears h data
  | read h buffer =>
      obtain ⟨as, new, hsteps, hkeep⟩ := read_steps hc.regular h (Buffer.ofBytes buffer)
      exact hc.steps htears hsteps hkeep
  | close h =>
      obtain ⟨as, new, hsteps, hkeep⟩ := close_steps c h
      exact hc.steps htears hsteps hkeep
  | sync h =>
      obtain ⟨as, new, hsteps, hkeep, -⟩ := sync_steps c h
      exact hc.steps htears hsteps hkeep
  | seek h target =>
      obtain ⟨as, hsteps, hkeep⟩ := seek_steps c h target
      exact hc.steps htears hsteps hkeep
  | position | length | flags | isResident => exact hc

/-- Every state that a cache can reach is firm. -/
theorem Reachable.firm (htears : disk.Tears) {storage : σ} {slotCount : Nat} {allocator : Allocator}
    (hs : disk.Sound storage)
    (h : Reachable (IsAdmitted disk) (Cache.new storage slotCount allocator) c) : Firm disk c := by
  induction h with
  | first =>
      refine Firm.of_settled (settled_new disk hs slotCount allocator fun _ _ => 0)
        fun {h f i} hf _ => ?_
      exact absurd hf (get?_new storage slotCount allocator)
  | serve request _ hadmits ih => exact serve_firm htears ih request hadmits.1 hadmits.2

end Cache

end BlockCache
