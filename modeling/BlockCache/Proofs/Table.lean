import BlockCache.FileTable

/-!
What the operations of the table of open files do to the open file of a handle.
-/

namespace BlockCache

namespace FileTable

variable {φ : Type} (t : FileTable φ)

theorem get_of_some {h : Handle} {f : OpenFile φ} (hf : t.get? h = some f) : t.get h = .ok f := by
  rw [get, hf]

theorem get_of_none {h : Handle} (hf : t.get? h = none) : t.get h = .error .notOpen := by
  rw [get, hf]

theorem get?_create (capacity : Nat) (h : Handle) :
    (FileTable.create capacity : FileTable φ).get? h = none := by
  rw [get?, create, Array.getElem?_replicate]
  split <;> rfl

theorem get?_modify (h h' : Handle) (g : OpenFile φ → OpenFile φ) :
    (t.modify h g).get? h' = if h = h' then (t.get? h').map g else t.get? h' := by
  show ((t.entries.modify h.index (·.map g))[h'.index]?).join = _
  rw [Array.getElem?_modify]
  by_cases hh : h = h'
  · subst hh
    rw [if_pos rfl, if_pos rfl, get?]
    cases t.entries[h.index]? <;> rfl
  · have hindex : h.index ≠ h'.index := fun heq => hh (by cases h; cases h'; exact congrArg _ heq)
    rw [if_neg hindex, if_neg hh, get?]

theorem get?_modify_self {h : Handle} {f : OpenFile φ} (hf : t.get? h = some f)
    (g : OpenFile φ → OpenFile φ) : (t.modify h g).get? h = some (g f) := by
  rw [get?_modify, if_pos rfl, hf]
  rfl

/-- An open file after one of them was changed: the changed one, or another one as it was. -/
theorem get?_modify_cases {h h' : Handle} {g : OpenFile φ → OpenFile φ} {f' : OpenFile φ}
    (hf : (t.modify h g).get? h' = some f') :
    (∃ f, t.get? h = some f ∧ h' = h ∧ f' = g f) ∨ (h' ≠ h ∧ t.get? h' = some f') := by
  rw [get?_modify] at hf
  split at hf
  · rename_i hh
    subst hh
    obtain ⟨f, hget, rfl⟩ := Option.map_eq_some_iff.mp hf
    exact Or.inl ⟨f, hget, rfl, rfl⟩
  · rename_i hh
    exact Or.inr ⟨Ne.symm hh, hf⟩

theorem get?_remove (h h' : Handle) :
    (t.remove h).get? h' = if h = h' then none else t.get? h' := by
  show ((t.entries.modify h.index fun _ => none)[h'.index]?).join = _
  rw [Array.getElem?_modify]
  by_cases hh : h = h'
  · subst hh
    rw [if_pos rfl, if_pos rfl]
    cases t.entries[h.index]? <;> rfl
  · have hindex : h.index ≠ h'.index := fun heq => hh (by cases h; cases h'; exact congrArg _ heq)
    rw [if_neg hindex, if_neg hh, get?]

/-- A new file takes the first free place. -/
theorem add_of_lowestFree {i : Nat} (hi : t.lowestFree = some i) (file : OpenFile φ) :
    t.add file = .ok (⟨i⟩, ⟨t.entries.modify i fun _ => some file⟩) := by
  rw [add, hi]

theorem get?_lowestFree {i : Nat} (hi : t.lowestFree = some i) : t.get? ⟨i⟩ = none := by
  obtain ⟨hlt, hnone, -⟩ := Array.findIdx?_eq_some_iff_getElem.mp hi
  rw [get?, Array.getElem?_eq_getElem hlt, Option.isNone_iff_eq_none.mp hnone]
  rfl

/-- The first free place is the least number that is no handle of an open file. -/
theorem lowestFree_eq {n : Nat} (hn : t.entries.size = n) :
    t.lowestFree = (List.range n).find? fun i => (t.get? ⟨i⟩).isNone := by
  subst hn
  have hentry : ∀ {i : Nat} (hi : i < t.entries.size), t.get? ⟨i⟩ = t.entries[i] := by
    intro i hi
    rw [get?, Array.getElem?_eq_getElem hi]
    rfl
  cases hplace : t.lowestFree with
  | none =>
      refine (List.find?_eq_none.mpr fun i hi => ?_).symm
      have hlt := List.mem_range.mp hi
      rw [hentry hlt, Array.findIdx?_eq_none_iff.mp hplace _ (Array.getElem_mem hlt)]
      exact Bool.false_ne_true
  | some i =>
      obtain ⟨hlt, hfree, hbefore⟩ := Array.findIdx?_eq_some_iff_getElem.mp hplace
      refine (List.find?_range_eq_some.mpr ⟨?_, List.mem_range.mpr hlt, fun j hj => ?_⟩).symm
      · rw [hentry hlt]
        exact hfree
      · rw [hentry (Nat.lt_trans hj hlt), Bool.eq_false_iff.mpr (hbefore j hj)]
        rfl

theorem get?_of_add {i : Nat} (hi : t.lowestFree = some i) (file : OpenFile φ) (h : Handle) :
    (⟨t.entries.modify i fun _ => some file⟩ : FileTable φ).get? h =
      if h = ⟨i⟩ then some file else t.get? h := by
  obtain ⟨hlt, -⟩ := Array.findIdx?_eq_some_iff_getElem.mp hi
  obtain ⟨j⟩ := h
  rw [get?, Array.getElem?_modify]
  by_cases hj : i = j
  · subst hj
    rw [if_pos rfl, if_pos rfl, Array.getElem?_eq_getElem hlt]
    rfl
  · rw [if_neg hj, if_neg fun heq => hj (Handle.mk.inj heq).symm, get?]

/-- An open file is the one that was added, or was open before. -/
theorem get?_of_add_cases {i : Nat} (hi : t.lowestFree = some i) {file f : OpenFile φ} {h : Handle}
    (hf : (⟨t.entries.modify i fun _ => some file⟩ : FileTable φ).get? h = some f) :
    (h = ⟨i⟩ ∧ f = file) ∨ (h ≠ ⟨i⟩ ∧ t.get? h = some f) := by
  rw [t.get?_of_add hi] at hf
  split at hf
  · rename_i hh
    exact Or.inl ⟨hh, (Option.some.inj hf).symm⟩
  · rename_i hh
    exact Or.inr ⟨hh, hf⟩

/-- A file that is open still was not removed. -/
theorem get?_of_remove {h h' : Handle} {f : OpenFile φ} (hf : (t.remove h).get? h' = some f) :
    h ≠ h' ∧ t.get? h' = some f := by
  rw [get?_remove] at hf
  split at hf
  · cases hf
  · rename_i hh
    exact ⟨hh, hf⟩

/-- The owner of a descriptor is an open file with it. -/
theorem ownerOf_eq_some {d : Descriptor} {f : OpenFile φ} (hf : t.ownerOf d = some f) :
    ∃ h, t.get? h = some f ∧ f.descriptor = d := by
  obtain ⟨entry, hmem, hentry⟩ := Array.exists_of_findSome?_eq_some hf
  cases entry with
  | none => cases hentry
  | some f' =>
      obtain ⟨i, hi, hget⟩ := Array.mem_iff_getElem.mp hmem
      obtain ⟨hd, hff⟩ : f'.descriptor = d ∧ f' = f := by simpa using hentry
      subst hff
      refine ⟨⟨i⟩, ?_, hd⟩
      rw [get?, Array.getElem?_eq_getElem hi, hget]
      rfl

/-- An open descriptor has an owner. -/
theorem ownerOf_isSome {h : Handle} {f : OpenFile φ} (hf : t.get? h = some f) :
    ∃ f', t.ownerOf f.descriptor = some f' := by
  have hentry : t.entries[h.index]? = some (some f) := Option.join_eq_some_iff.mp hf
  cases howner : t.ownerOf f.descriptor with
  | some f' => exact ⟨f', rfl⟩
  | none =>
      have hnone := Array.findSome?_eq_none_iff.mp howner _ (Array.mem_of_getElem? hentry)
      simp at hnone

theorem ownerOf_eq_none_iff {d : Descriptor} :
    t.ownerOf d = none ↔ ∀ h f, t.get? h = some f → f.descriptor ≠ d := by
  constructor
  · rintro hnone h f hf rfl
    obtain ⟨f', hsome⟩ := t.ownerOf_isSome hf
    rw [hnone] at hsome
    cases hsome
  · intro hall
    cases howner : t.ownerOf d with
    | none => rfl
    | some f =>
        obtain ⟨h, hf, hd⟩ := t.ownerOf_eq_some howner
        exact absurd hd (hall h f hf)

end FileTable

end BlockCache
