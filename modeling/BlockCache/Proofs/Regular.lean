import BlockCache.Proofs.Step

/-!
The order that every cache keeps: no block is in two slots, every block in the pool belongs to an
open file, open files have descriptors of their own, a dirty slot is occupied, and an occupied slot
was asked for. Main statement: every step keeps it.
-/

namespace BlockCache

namespace Cache

variable {σ φ : Type}

/-- The order that every cache keeps. -/
structure Regular (c : Cache σ φ) : Prop where
  /-- No block is in two slots. -/
  distinct : ∀ {i j : Nat} {s t : Slot} {key : BlockId}, c.pool.slots[i]? = some s →
    c.pool.slots[j]? = some t → s.key = some key → t.key = some key → i = j
  /-- Every block in the pool belongs to an open file. -/
  owned : ∀ {i : Nat} {s : Slot} {key : BlockId}, c.pool.slots[i]? = some s → s.key = some key →
    ∃ h f, c.table.get? h = some f ∧ f.descriptor = key.owner
  /-- Open files have descriptors of their own. -/
  apart : ∀ {h h' : Handle} {f f' : OpenFile φ}, c.table.get? h = some f →
    c.table.get? h' = some f' → f.descriptor = f'.descriptor → h = h'
  dirty_occupied : ∀ {i : Nat} {s : Slot}, c.pool.slots[i]? = some s → s.dirty = true →
    s.key ≠ none
  frequency_pos : ∀ {i : Nat} {s : Slot}, c.pool.slots[i]? = some s → s.key ≠ none →
    1 ≤ s.frequency
  capacity_eq : 0 < c.pool.capacity → c.pool.capacity = c.slotCount
  /-- A file is opened only after the pool got its slots. -/
  capacity_pos : ∀ {h : Handle} {f : OpenFile φ}, c.table.get? h = some f → 0 < c.pool.capacity

/-- A new cache has no file open. -/
theorem get?_new (storage : σ) (slotCount : Nat) (allocator : Allocator) {h : Handle}
    {f : OpenFile φ} :
    (Cache.new storage slotCount allocator : Cache σ φ).table.get? h ≠ some f := by
  intro hf
  rw [show (Cache.new storage slotCount allocator : Cache σ φ).table =
      FileTable.create maxHandles from rfl,
    FileTable.get?_create] at hf
  cases hf

theorem regular_new (storage : σ) (slotCount : Nat) (allocator : Allocator) :
    (Cache.new storage slotCount allocator : Cache σ φ).Regular := by
  have hslot : ∀ (i : Nat) (s : Slot),
      (Cache.new storage slotCount allocator : Cache σ φ).pool.slots[i]? = some s → False := by
    intro i s hs
    simp [Cache.new, Pool.unallocated] at hs
  exact {
    distinct := fun hs _ _ _ => (hslot _ _ hs).elim
    owned := fun hs _ => (hslot _ _ hs).elim
    apart := fun hf _ _ => absurd hf (get?_new storage slotCount allocator)
    dirty_occupied := fun hs _ => (hslot _ _ hs).elim
    frequency_pos := fun hs _ => (hslot _ _ hs).elim
    capacity_eq := fun h => absurd h (Nat.lt_irrefl 0)
    capacity_pos := fun hf => absurd hf (get?_new storage slotCount allocator) }

namespace Regular

variable {c c' : Cache σ φ}

/-- The owner that a descriptor is looked up to have is the open file with it. -/
theorem ownerOf_eq (hreg : c.Regular) {h : Handle} {f : OpenFile φ} (hf : c.table.get? h = some f) :
    c.table.ownerOf f.descriptor = some f := by
  obtain ⟨f', howner⟩ := c.table.ownerOf_isSome hf
  obtain ⟨h', hf', hd⟩ := c.table.ownerOf_eq_some howner
  obtain rfl := hreg.apart hf hf' hd.symm
  rw [hf] at hf'
  rw [howner, Option.some.inj hf']

/-- The only slot of a block that was just let in is the one it was let into. -/
theorem eq_of_modify (hreg : c'.Regular) {slots : Array Slot} {i : Nat} {g : Slot → Slot} {s : Slot}
    (hslots : c'.pool.slots = slots.modify i g) (hs : slots[i]? = some s) {key : BlockId}
    (hkey : (g s).key = some key) {j : Nat} {t : Slot} (ht : c'.pool.slots[j]? = some t)
    (hkey' : t.key = some key) : t = g s := by
  have hi : c'.pool.slots[i]? = some (g s) := by
    rw [hslots]
    exact Pool.getElem?_modify_self hs
  obtain rfl := hreg.distinct hi ht hkey hkey'
  exact Option.some.inj (ht.symm.trans hi)

/-- A step that lets no block into the pool keeps the order. -/
theorem of_fewer (hreg : c.Regular) (htable : c'.table = c.table)
    (hcount : c'.slotCount = c.slotCount) (hsize : c'.pool.slots.size = c.pool.slots.size)
    (hslots : ∀ (j : Nat) (t : Slot), c'.pool.slots[j]? = some t → ∃ s, c.pool.slots[j]? = some s ∧
      (∀ key, t.key = some key → s.key = some key) ∧ (t.dirty = true → t.key ≠ none) ∧
      (t.key ≠ none → 1 ≤ t.frequency)) : c'.Regular where
  distinct hs ht hkey hkey' := by
    obtain ⟨s₀, hs₀, hsame, -⟩ := hslots _ _ hs
    obtain ⟨t₀, ht₀, hsame', -⟩ := hslots _ _ ht
    exact hreg.distinct hs₀ ht₀ (hsame _ hkey) (hsame' _ hkey')
  owned hs hkey := by
    obtain ⟨s₀, hs₀, hsame, -⟩ := hslots _ _ hs
    rw [htable]
    exact hreg.owned hs₀ (hsame _ hkey)
  apart hf hf' := by
    rw [htable] at hf hf'
    exact hreg.apart hf hf'
  dirty_occupied hs := by
    obtain ⟨_, _, _, hdirty, -⟩ := hslots _ _ hs
    exact hdirty
  frequency_pos hs := by
    obtain ⟨_, _, _, _, hfreq⟩ := hslots _ _ hs
    exact hfreq
  capacity_eq h := by
    rw [Pool.capacity, hsize] at h ⊢
    rw [hcount]
    exact hreg.capacity_eq h
  capacity_pos hf := by
    rw [htable] at hf
    rw [Pool.capacity, hsize]
    exact hreg.capacity_pos hf

/-- A step that changes one slot without letting another block into it keeps the order. -/
theorem of_modify (hreg : c.Regular) (htable : c'.table = c.table)
    (hcount : c'.slotCount = c.slotCount) {i : Nat} {g : Slot → Slot}
    (hslots : c'.pool.slots = c.pool.slots.modify i g)
    (hslot : ∀ s, c.pool.slots[i]? = some s → (∀ key, (g s).key = some key → s.key = some key) ∧
      ((g s).dirty = true → (g s).key ≠ none) ∧ ((g s).key ≠ none → 1 ≤ (g s).frequency)) :
    c'.Regular := by
  refine hreg.of_fewer htable hcount (by rw [hslots, Array.size_modify]) fun j t ht => ?_
  rw [hslots] at ht
  rcases Pool.getElem?_modify_cases ht with ⟨s, hs, rfl, rfl⟩ | ⟨-, ht⟩
  · exact ⟨s, hs, hslot s hs⟩
  · exact ⟨t, ht, fun _ h => h, hreg.dirty_occupied ht, hreg.frequency_pos ht⟩

/-- A step that changes the bytes of one slot but not its block keeps the order. -/
theorem of_patch (hreg : c.Regular) (htable : c'.table = c.table)
    (hcount : c'.slotCount = c.slotCount) {i : Nat} {g : Slot → Slot}
    (hslots : c'.pool.slots = c.pool.slots.modify i g) (htenant : ∀ s, (g s).tenant = s.tenant)
    (hdirty : ∀ s, c.pool.slots[i]? = some s → (g s).dirty = true → s.key ≠ none) : c'.Regular := by
  refine hreg.of_modify htable hcount hslots fun s hs => ?_
  have hkey : (g s).key = s.key := congrArg (Option.map _) (htenant s)
  have hfreq : (g s).frequency = s.frequency := by
    rw [Slot.frequency, htenant]
    rfl
  rw [hkey, hfreq]
  exact ⟨fun _ h => h, hdirty s hs, hreg.frequency_pos hs⟩

/-- A step that leaves the slots and the open files alone keeps the order. -/
theorem of_same (hreg : c.Regular) (htable : c'.table = c.table)
    (hcount : c'.slotCount = c.slotCount) (hslots : c'.pool.slots = c.pool.slots) : c'.Regular := by
  refine hreg.of_fewer htable hcount (by rw [hslots]) fun j t ht => ?_
  rw [hslots] at ht
  exact ⟨t, ht, fun _ h => h, hreg.dirty_occupied ht, hreg.frequency_pos ht⟩

/-- A step that lets an absent block of an open file into a slot keeps the order. -/
theorem of_assign (hreg : c.Regular) (htable : c'.table = c.table)
    (hcount : c'.slotCount = c.slotCount) {h : Handle} {f : OpenFile φ} {key : BlockId}
    (hf : c.table.get? h = some f) (howner : f.descriptor = key.owner) (habsent : c.Absent key)
    {i : Nat} {g : Slot → Slot} (hslots : c'.pool.slots = c.pool.slots.modify i g)
    (hkey : ∀ s, (g s).key = some key) (hfreq : ∀ s, 1 ≤ (g s).frequency) : c'.Regular where
  distinct hs ht hk hk' := by
    rw [hslots] at hs ht
    rcases Pool.getElem?_modify_cases hs with ⟨s₀, -, rfl, rfl⟩ | ⟨-, hs₀⟩ <;>
      rcases Pool.getElem?_modify_cases ht with ⟨t₀, -, rfl, rfl⟩ | ⟨-, ht₀⟩
    · rfl
    · rw [hkey] at hk
      exact absurd (hk'.trans hk.symm) (habsent _ _ ht₀)
    · rw [hkey] at hk'
      exact absurd (hk.trans hk'.symm) (habsent _ _ hs₀)
    · exact hreg.distinct hs₀ ht₀ hk hk'
  owned hs hk := by
    rw [htable]
    rw [hslots] at hs
    rcases Pool.getElem?_modify_cases hs with ⟨s₀, -, rfl, rfl⟩ | ⟨-, hs₀⟩
    · rw [hkey] at hk
      exact ⟨h, f, hf, Option.some.inj hk ▸ howner⟩
    · exact hreg.owned hs₀ hk
  apart hf hf' := by
    rw [htable] at hf hf'
    exact hreg.apart hf hf'
  dirty_occupied hs hdirty := by
    rw [hslots] at hs
    rcases Pool.getElem?_modify_cases hs with ⟨s₀, -, rfl, rfl⟩ | ⟨-, hs₀⟩
    · rw [hkey]
      exact Option.some_ne_none _
    · exact hreg.dirty_occupied hs₀ hdirty
  frequency_pos hs hk := by
    rw [hslots] at hs
    rcases Pool.getElem?_modify_cases hs with ⟨s₀, -, rfl, rfl⟩ | ⟨-, hs₀⟩
    · exact hfreq s₀
    · exact hreg.frequency_pos hs₀ hk
  capacity_eq hpos := by
    rw [Pool.capacity, hslots, Array.size_modify] at hpos ⊢
    rw [hcount]
    exact hreg.capacity_eq hpos
  capacity_pos hf := by
    rw [htable] at hf
    rw [Pool.capacity, hslots, Array.size_modify]
    exact hreg.capacity_pos hf

/-- A step that changes an open file but not its descriptor keeps the order. -/
theorem of_move (hreg : c.Regular) {h : Handle} {f : OpenFile φ} {g : OpenFile φ → OpenFile φ}
    (hf : c.table.get? h = some f) (hg : (g f).descriptor = f.descriptor) :
    ({ c with table := c.table.modify h g } : Cache σ φ).Regular := by
  have hback : ∀ {h' f'}, (c.table.modify h g).get? h' = some f' →
      ∃ f₀, c.table.get? h' = some f₀ ∧ f₀.descriptor = f'.descriptor := by
    intro h' f' hf'
    rcases c.table.get?_modify_cases hf' with ⟨f₀, hf₀, rfl, rfl⟩ | ⟨-, hf₀⟩
    · rw [hf] at hf₀
      obtain rfl := Option.some.inj hf₀
      exact ⟨f, hf, hg.symm⟩
    · exact ⟨f', hf₀, rfl⟩
  exact {
    distinct := hreg.distinct
    owned := by
      intro i s key hs hkey
      obtain ⟨h', f', hf', howner⟩ := hreg.owned hs hkey
      by_cases hh : h' = h
      · subst hh
        rw [hf] at hf'
        obtain rfl := Option.some.inj hf'
        exact ⟨h', g f, c.table.get?_modify_self hf g, hg.trans howner⟩
      · refine ⟨h', f', ?_, howner⟩
        rw [FileTable.get?_modify, if_neg (Ne.symm hh)]
        exact hf'
    apart := by
      intro h₁ h₂ f₁ f₂ hf₁ hf₂ hd
      obtain ⟨f₁', hf₁', hd₁⟩ := hback hf₁
      obtain ⟨f₂', hf₂', hd₂⟩ := hback hf₂
      apply hreg.apart hf₁' hf₂'
      calc f₁'.descriptor = f₁.descriptor := hd₁
        _ = f₂.descriptor := hd
        _ = f₂'.descriptor := hd₂.symm
    dirty_occupied := hreg.dirty_occupied
    frequency_pos := hreg.frequency_pos
    capacity_eq := hreg.capacity_eq
    capacity_pos := fun hf' => hreg.capacity_pos (hback hf').choose_spec.1 }

/-- Binding a file with a descriptor of its own keeps the order. -/
theorem of_bind (hreg : c.Regular) {i : Nat} {file : OpenFile φ}
    (hplace : c.table.lowestFree = some i) (hallocated : 0 < c.pool.capacity)
    (hfresh : ∀ h f, c.table.get? h = some f → f.descriptor ≠ file.descriptor)
    (hcount : c'.slotCount = c.slotCount) (hpool : c'.pool = c.pool)
    (htable : c'.table = ⟨c.table.entries.modify i fun _ => some file⟩) : c'.Regular := by
  exact {
    distinct := by rw [hpool]; exact hreg.distinct
    owned := by
      intro j s key hs hkey
      rw [hpool] at hs
      obtain ⟨h, f, hf, howner⟩ := hreg.owned hs hkey
      refine ⟨h, f, ?_, howner⟩
      rw [htable, c.table.get?_of_add hplace, if_neg]
      · exact hf
      · intro hh
        rw [hh, c.table.get?_lowestFree hplace] at hf
        cases hf
    apart := by
      intro h₁ h₂ f₁ f₂ hf₁ hf₂ hd
      rw [htable] at hf₁ hf₂
      obtain ⟨rfl, rfl⟩ | ⟨-, hf₁'⟩ := c.table.get?_of_add_cases hplace hf₁ <;>
        obtain ⟨rfl, rfl⟩ | ⟨-, hf₂'⟩ := c.table.get?_of_add_cases hplace hf₂
      · rfl
      · exact absurd hd.symm (hfresh _ _ hf₂')
      · exact absurd hd (hfresh _ _ hf₁')
      · exact hreg.apart hf₁' hf₂' hd
    dirty_occupied := by rw [hpool]; exact hreg.dirty_occupied
    frequency_pos := by rw [hpool]; exact hreg.frequency_pos
    capacity_eq := by rw [hpool, hcount]; exact hreg.capacity_eq
    capacity_pos := fun _ => by rw [hpool]; exact hallocated }

/-- Giving a file up with its blocks keeps the order. -/
theorem of_drop (hreg : c.Regular) {h : Handle} {f : OpenFile φ} (hf : c.table.get? h = some f)
    (hcount : c'.slotCount = c.slotCount) (hpool : c'.pool = (c.pool.forget f.descriptor).2)
    (htable : c'.table = c.table.remove h) : c'.Regular := by
  have hslot : ∀ {j : Nat} {t : Slot}, c'.pool.slots[j]? = some t → t = t.vacated ∨
      (c.pool.slots[j]? = some t ∧ t.ownedBy f.descriptor = false) := by
    intro j t ht
    rw [hpool, Pool.slots_forget, Array.getElem?_map] at ht
    obtain ⟨s, hs, rfl⟩ := Option.map_eq_some_iff.mp ht
    cases howned : s.ownedBy f.descriptor with
    | true => exact Or.inl rfl
    | false => exact Or.inr ⟨hs, howned⟩
  have hkept : ∀ {j : Nat} {t : Slot}, c'.pool.slots[j]? = some t → t.key ≠ none →
      c.pool.slots[j]? = some t ∧ t.ownedBy f.descriptor = false := by
    intro j t ht hkey
    rcases hslot ht with hvacated | hkept
    · exact absurd (hvacated ▸ t.key_vacated) hkey
    · exact hkept
  have hfile : ∀ {h' f'}, c'.table.get? h' = some f' → h ≠ h' ∧ c.table.get? h' = some f' := by
    intro h' f' hf'
    rw [htable] at hf'
    exact c.table.get?_of_remove hf'
  have hsize : c'.pool.capacity = c.pool.capacity := by
    rw [Pool.capacity, hpool, Pool.slots_forget, Array.size_map, Pool.capacity]
  exact {
    distinct := by
      intro i j s t key hs ht hkey hkey'
      have hs' := hkept hs (by rw [hkey]; exact Option.some_ne_none _)
      have ht' := hkept ht (by rw [hkey']; exact Option.some_ne_none _)
      exact hreg.distinct hs'.1 ht'.1 hkey hkey'
    owned := by
      intro i s key hs hkey
      obtain ⟨hs', howned⟩ := hkept hs (by rw [hkey]; exact Option.some_ne_none _)
      obtain ⟨h', f', hf', howner⟩ := hreg.owned hs' hkey
      refine ⟨h', f', ?_, howner⟩
      rw [htable, FileTable.get?_remove, if_neg]
      · exact hf'
      · rintro rfl
        rw [hf] at hf'
        obtain rfl := Option.some.inj hf'
        rw [Slot.ownedBy_of_key hkey, decide_eq_false_iff_not] at howned
        exact howned howner.symm
    apart := fun hf₁ hf₂ => hreg.apart (hfile hf₁).2 (hfile hf₂).2
    dirty_occupied := by
      intro i s hs hdirty
      rcases hslot hs with hvacated | ⟨hs', -⟩
      · rw [hvacated] at hdirty
        cases hdirty
      · exact hreg.dirty_occupied hs' hdirty
    frequency_pos := fun hs hkey => hreg.frequency_pos (hkept hs hkey).1 hkey
    capacity_eq := by rw [hsize, hcount]; exact hreg.capacity_eq
    capacity_pos := fun hf' => by rw [hsize]; exact hreg.capacity_pos (hfile hf').2 }

/-- A pool that just got its slots is in order, no file being open before. -/
theorem of_allocate (hreg : c.Regular) (hempty : c.isAllocated = false) {pool : Pool Scan}
    (hpool : Pool.create c.slotCount Scan.mk c.allocator = .ok pool)
    (hcount : c'.slotCount = c.slotCount)
    (hpool' : c'.pool = pool) (htable : c'.table = c.table) : c'.Regular := by
  obtain ⟨-, hslots⟩ := Pool.slots_create hpool
  have hblank : ∀ {j : Nat} {t : Slot}, c'.pool.slots[j]? = some t → t = Slot.blank := by
    intro j t ht
    rw [hpool', hslots, Array.getElem?_replicate] at ht
    split at ht
    · exact (Option.some.inj ht).symm
    · cases ht
  have hclosed : ∀ {h : Handle} {f : OpenFile φ}, c'.table.get? h ≠ some f := by
    intro h f hf
    rw [htable] at hf
    exact (of_decide_eq_false hempty) (hreg.capacity_pos hf)
  exact {
    distinct := by
      intro i j s t key hs _ hkey
      rw [hblank hs, Slot.key_blank] at hkey
      cases hkey
    owned := by
      intro i s key hs hkey
      rw [hblank hs, Slot.key_blank] at hkey
      cases hkey
    apart := fun hf => absurd hf hclosed
    dirty_occupied := by
      intro i s hs hdirty
      rw [hblank hs] at hdirty
      cases hdirty
    frequency_pos := by
      intro i s hs hkey
      exact absurd (hblank hs ▸ Slot.key_blank) hkey
    capacity_eq := fun _ => by
      rw [Pool.capacity, hpool', hslots, Array.size_replicate, hcount]
    capacity_pos := fun hf => absurd hf hclosed }

end Regular

variable [Storage σ φ]

/-- Every step keeps the order. -/
theorem Step.regular {c c' : Cache σ φ} {as : List Action} {new : List Event} (h : Step c as new c')
    (hreg : c.Regular) : c'.Regular := by
  have hvacate : ∀ (i : Nat) (s : Slot), c.pool.slots[i]? = some s →
      (∀ key, s.vacated.key = some key → s.key = some key) ∧
      (s.vacated.dirty = true → s.vacated.key ≠ none) ∧
      (s.vacated.key ≠ none → 1 ≤ s.vacated.frequency) := by
    intro i s _
    refine ⟨fun key hk => ?_, fun hd => ?_, fun hk => absurd s.key_vacated hk⟩
    · cases hk
    · cases hd
  cases h with
  | allocate hempty hpool => exact hreg.of_allocate hempty hpool rfl rfl rfl
  | report => exact hreg.of_same rfl rfl rfl
  | hit hs hkey =>
      refine hreg.of_modify rfl rfl (Pool.slots_modifySlot _ _ _) fun s' hs' =>
        ⟨fun key hk => ?_, fun _ => ?_, fun hk => ?_⟩
      · rwa [Slot.key_bump] at hk
      · rw [Slot.key_bump, Option.some.inj (hs'.symm.trans hs), hkey]
        exact Option.some_ne_none _
      · rw [Slot.key_bump] at hk
        exact s'.frequency_bump_pos hk
  | miss => exact hreg.of_same rfl rfl rfl
  | evictClean hs => exact hreg.of_modify rfl rfl (Pool.slots_evict _ _ _) (hvacate _)
  | evictDirty hs => exact hreg.of_modify rfl rfl (Pool.slots_evict _ _ _) (hvacate _)
  | fill hf hs hfree habsent =>
      refine hreg.of_assign rfl rfl hf rfl habsent (Pool.slots_take _ _ _ _ _) ?_ ?_
      · exact fun s => (s.setBlock _).key_assign _
      · exact fun _ => Nat.le_refl 1
  | fillFailed hf hs hfree =>
      refine hreg.of_patch rfl rfl (Pool.slots_modifySlot _ _ _) (fun _ => rfl) fun s' hs' hd => ?_
      exact hreg.dirty_occupied hs' hd
  | overwrite hf hs hkey =>
      refine hreg.of_patch rfl rfl (Pool.slots_write _ _ _ _) (fun _ => rfl) fun s' hs' _ => ?_
      rw [Option.some.inj (hs'.symm.trans hs), hkey]
      exact Option.some_ne_none _
  | replace hf hs hfree habsent =>
      refine hreg.of_assign rfl rfl hf rfl habsent (Pool.slots_assign_write _ _ _ _ _) ?_ ?_
      · exact fun s => (s.assign _).key_write _ _
      · exact fun _ => Nat.le_refl 1
  | overwriteZeros hf hs hfree habsent =>
      refine hreg.of_assign rfl rfl hf rfl habsent (Pool.slots_take_write _ _ _ _ _ _ _) ?_ ?_
      · exact fun s => ((s.setBlock _).assign _).key_write _ _
      · exact fun _ => Nat.le_refl 1
  | @flush _ _ _ _ _ outcome _ hs hf howner hstore =>
      cases outcome with
      | ok _ =>
          refine hreg.of_patch rfl rfl (Pool.slots_settle_of_ok _ _ _) (fun _ => rfl) ?_
          intro s' hs' hd
          cases hd
      | error e => exact hreg.of_same rfl rfl (Pool.slots_settle_of_error _ _ _ _)
  | sync => exact hreg.of_same rfl rfl rfl
  | trim => exact hreg.of_same rfl rfl rfl
  | trimFailed => exact hreg.of_same rfl rfl rfl
  | move g hf hfile hdescriptor => exact hreg.of_move hf hdescriptor
  | refuse => exact hreg.of_same rfl rfl rfl
  | abandon => exact hreg.of_same rfl rfl rfl
  | bind hplace hallocated hopen hsize hfresh =>
      exact hreg.of_bind hplace (of_decide_eq_true hallocated) hfresh rfl rfl rfl
  | drop hf => exact hreg.of_drop hf rfl rfl rfl

theorem Steps.regular {c c' : Cache σ φ} {as : List Action} {new : List Event}
    (h : Steps c as new c') (hreg : c.Regular) : c'.Regular :=
  h.induct Step.regular hreg

end Cache

end BlockCache
