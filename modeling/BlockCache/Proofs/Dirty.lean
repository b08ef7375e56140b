import BlockCache.Proofs.Calls

/-!
Which blocks are dirty. A block that is dirty after a step was dirty before it, in the same slot,
unless the step stored bytes in that block.
-/

namespace BlockCache

namespace Cache

variable {σ φ : Type} {c c' : Cache σ φ}

/-- Whether every dirty block of a cache was so in another one, in the same slot. -/
def DirtyWithin (c' c : Cache σ φ) : Prop :=
  ∀ ⦃j : Nat⦄ ⦃t : Slot⦄ ⦃key : BlockId⦄, c'.pool.slots[j]? = some t → t.key = some key →
    t.dirty = true → ∃ s, c.pool.slots[j]? = some s ∧ s.key = some key ∧ s.dirty = true

theorem dirtyWithin_of_same (hslots : c'.pool.slots = c.pool.slots) : DirtyWithin c' c := by
  intro j t key ht hkey hd
  rw [hslots] at ht
  exact ⟨t, ht, hkey, hd⟩

theorem dirtyWithin_of_modify {i : Nat} {g : Slot → Slot}
    (hslots : c'.pool.slots = c.pool.slots.modify i g)
    (hslot : ∀ s key, (g s).key = some key → (g s).dirty = true →
      s.key = some key ∧ s.dirty = true) :
    DirtyWithin c' c := by
  intro j t key ht hkey hd
  rw [hslots] at ht
  rcases Pool.getElem?_modify_cases ht with ⟨s, hs, rfl, rfl⟩ | ⟨-, ht⟩
  · exact ⟨s, hs, hslot s key hkey hd⟩
  · exact ⟨t, ht, hkey, hd⟩

variable [Storage σ φ]

/-- A step that stores no bytes makes no block dirty. -/
theorem Step.dirtyWithin {as : List Action} {new : List Event} (h : Step c as new c')
    (hstore : ∀ h offset bytes, .store h offset bytes ∉ as) : DirtyWithin c' c := by
  have hvacated : ∀ (s : Slot) (key : BlockId), s.vacated.key = some key →
      s.vacated.dirty = true → s.key = some key ∧ s.dirty = true := by
    intro s key hkey
    cases hkey
  cases h with
  | allocate hempty hpool =>
      intro j t key ht hkey
      rw [(Pool.slots_create hpool).2, Array.getElem?_replicate] at ht
      split at ht
      · obtain rfl := Option.some.inj ht
        cases hkey
      · cases ht
  | hit =>
      refine dirtyWithin_of_modify (Pool.slots_modifySlot _ _ _) fun s key hkey hd => ?_
      rw [Slot.key_bump] at hkey
      exact ⟨hkey, hd⟩
  | evictClean | evictDirty => exact dirtyWithin_of_modify (Pool.slots_evict _ _ _) hvacated
  | fill =>
      refine dirtyWithin_of_modify (Pool.slots_take _ _ _ _ _) fun s key _ hd => ?_
      cases hd
  | fillFailed =>
      exact dirtyWithin_of_modify (Pool.slots_modifySlot _ _ _) fun s key hkey hd => ⟨hkey, hd⟩
  | @flush _ tenant i _ _ outcome =>
      cases outcome with
      | ok _ =>
          refine dirtyWithin_of_modify (Pool.slots_settle_of_ok _ _ _) fun s key _ hd => ?_
          cases hd
      | error e => exact dirtyWithin_of_same (Pool.slots_settle_of_error c.pool i tenant.key e)
  | @drop _ f =>
      intro j t key ht hkey hd
      rw [Pool.slots_forget, Array.getElem?_map] at ht
      obtain ⟨s, hs, rfl⟩ := Option.map_eq_some_iff.mp ht
      split at hkey
      · cases hkey
      · rename_i hkept
        rw [if_neg hkept] at hd
        exact ⟨s, hs, hkey, hd⟩
  | overwrite | replace | overwriteZeros => exact absurd List.mem_cons_self (hstore _ _ _)
  | report | miss | sync | trim | trimFailed | move | refuse | abandon | bind =>
      exact dirtyWithin_of_same rfl

theorem blockOf_mul_add {index start : Nat} (h : start < blockSize) :
    blockOf (index * blockSize + start) = index := by
  rw [blockOf, Nat.mul_comm, Nat.mul_add_div blockSize_pos, Nat.div_eq_of_lt h, Nat.add_zero]

/-- A step that stores bytes makes no other block dirty than the one they are in. -/
theorem Step.dirty_store {h : Handle} {offset : Nat} {bytes : ByteArray} {new : List Event}
    (hstep : Step c [.store h offset bytes] new c') :
    ∃ f, c.table.get? h = some f ∧ ∀ {j : Nat} {t : Slot} {key : BlockId},
      c'.pool.slots[j]? = some t → t.key = some key → t.dirty = true →
      (key.owner = f.descriptor ∧ (0 < bytes.size → key.index = blockOf offset)) ∨
        ∃ s, c.pool.slots[j]? = some s ∧ s.key = some key ∧ s.dirty = true := by
  have hmodified : ∀ {f : OpenFile φ} {index i start : Nat} {g : Slot → Slot},
      c'.pool.slots = c.pool.slots.modify i g →
      (∀ s, c.pool.slots[i]? = some s → (g s).key = some ⟨f.descriptor, index⟩) →
      offset = index * blockSize + start → start + bytes.size ≤ blockSize →
      ∀ {j : Nat} {t : Slot} {key : BlockId}, c'.pool.slots[j]? = some t → t.key = some key →
        t.dirty = true →
        (key.owner = f.descriptor ∧ (0 < bytes.size → key.index = blockOf offset)) ∨
          ∃ s, c.pool.slots[j]? = some s ∧ s.key = some key ∧ s.dirty = true := by
    intro f index i start g hslots hown hoffset hfits j t key ht hkey hd
    rw [hslots] at ht
    rcases Pool.getElem?_modify_cases ht with ⟨s, hs, rfl, rfl⟩ | ⟨-, ht⟩
    · obtain rfl := Option.some.inj (hkey.symm.trans (hown s hs))
      refine Or.inl ⟨rfl, fun hpos => ?_⟩
      rw [hoffset, blockOf_mul_add (by omega)]
    · exact Or.inr ⟨t, ht, hkey, hd⟩
  cases hstep with
  | overwrite hf hs hkey hfits =>
      refine ⟨_, hf, hmodified (Pool.slots_write _ _ _ _) (fun s' hs' => ?_) rfl hfits⟩
      rw [Slot.key_write, Option.some.inj (hs'.symm.trans hs), hkey]
  | replace hf _ _ _ hsize =>
      have hfits : 0 + bytes.size ≤ blockSize := by omega
      exact ⟨_, hf, hmodified (Pool.slots_assign_write _ _ _ _ _) (fun _ _ => rfl)
        (Nat.add_zero _).symm hfits⟩
  | overwriteZeros hf _ _ _ hfits =>
      exact ⟨_, hf, hmodified (Pool.slots_take_write _ _ _ _ _ _ _) (fun _ _ => rfl) rfl
        hfits⟩

/-- A block of an open file that is dirty after a step was so before it, unless the step stored
bytes of that file. -/
theorem Step.dirty_before {as : List Action} {new : List Event} (hstep : Step c as new c')
    (hreg : c.Regular) {h : Handle} {f : OpenFile φ} (hf : c.table.get? h = some f)
    (hstore : ∀ offset bytes, .store h offset bytes ∉ as) {j : Nat} {t : Slot} {key : BlockId}
    (ht : c'.pool.slots[j]? = some t) (hkey : t.key = some key) (howner : key.owner = f.descriptor)
    (hd : t.dirty = true) : ∃ s, c.pool.slots[j]? = some s ∧ s.key = some key ∧ s.dirty = true := by
  by_cases hother : ∃ k offset bytes, .store k offset bytes ∈ as
  · obtain ⟨k, offset, bytes, hmem⟩ := hother
    obtain rfl : as = [.store k offset bytes] := hstep.eq_of_mem hmem
    obtain ⟨f', hf', hstored⟩ := hstep.dirty_store
    refine (hstored ht hkey hd).resolve_left fun ⟨howner', _⟩ => ?_
    obtain rfl := hreg.apart hf' hf (howner'.symm.trans howner)
    exact hstore _ _ hmem
  · exact hstep.dirtyWithin (fun k offset bytes hmem => hother ⟨k, offset, bytes, hmem⟩) ht hkey hd

end Cache

end BlockCache
