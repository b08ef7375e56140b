import BlockCache.Pool

/-!
What the operations of a pool do to its slots. A pool is seen through the slot at an index: every
operation changes one slot and leaves the others as they are, apart from `forget`, which frees all
the slots of an owner. Writing dirty blocks back is unfolded into one attempt after the other.
-/

namespace BlockCache

/-! ### A computation on a state -/

theorem bind_apply {β α α' : Type} (x : StateM β α) (f : α → StateM β α') (b : β) :
    (x >>= f) b = f (x b).1 (x b).2 := rfl

theorem pure_apply {β α : Type} (a : α) (b : β) : (pure a : StateM β α) b = (a, b) := rfl

theorem get_apply {β : Type} (b : β) : (get : StateM β β) b = (b, b) := rfl

theorem map_apply {β α α' : Type} (f : α → α') (x : StateM β α) (b : β) :
    (f <$> x) b = (f (x b).1, (x b).2) := rfl

namespace Slot

variable (s : Slot) (key : BlockId) (block : Block) (start : Nat) (bytes : ByteArray)

@[simp] theorem key_bump : s.bump.key = s.key := by
  simp [Slot.key, bump, Option.map_map, Function.comp_def]

@[simp] theorem key_assign : (s.assign key).key = some key := rfl

@[simp] theorem key_vacated : s.vacated.key = none := rfl

@[simp] theorem key_dirtied : s.dirtied.key = s.key := rfl

@[simp] theorem key_setBlock : (s.setBlock block).key = s.key := rfl

@[simp] theorem key_write : (s.write start bytes).key = s.key := rfl

@[simp] theorem key_blank : blank.key = none := rfl

theorem byteAt_write {p : Nat} (hp : p < blockSize) : (s.write start bytes).block.byteAt p =
    if start ≤ p ∧ p < start + bytes.size then Bytes.byteAt bytes (p - start)
    else s.block.byteAt p := by
  show (s.block.blit start bytes).byteAt p = _
  rw [Buffer.byteAt_blit]
  by_cases hin : start ≤ p ∧ p < start + bytes.size
  · rw [if_pos ⟨hin.1, hin.2, hp⟩, if_pos hin]
  · rw [if_neg fun hall => hin ⟨hall.1, hall.2.1⟩, if_neg hin]

theorem holds_iff : s.holds key = true ↔ s.key = some key := by
  cases h : s.tenant <;> simp [holds, Slot.key, h]

theorem ownedBy_iff (owner : Descriptor) :
    s.ownedBy owner = true ↔ ∃ key, s.key = some key ∧ key.owner = owner := by
  cases h : s.tenant <;> simp [ownedBy, Slot.key, h]

/-- A slot with a block is owned by the descriptor of that block, and by no other. -/
theorem ownedBy_of_key {s : Slot} {key : BlockId} (h : s.key = some key) (owner : Descriptor) :
    s.ownedBy owner = decide (key.owner = owner) := by
  rw [Bool.eq_iff_iff, ownedBy_iff, decide_eq_true_eq, h]
  exact ⟨fun ⟨_, heq, howner⟩ => Option.some.inj heq ▸ howner, fun howner => ⟨key, rfl, howner⟩⟩

/-- Whose block a slot holds is told by its tenant. -/
theorem ownedBy_of_tenant {s' : Slot} (h : s'.tenant = s.tenant) (owner : Descriptor) :
    s'.ownedBy owner = s.ownedBy owner := by
  rw [ownedBy, ownedBy, h]

theorem key_eq_none_iff : s.key = none ↔ s.tenant = none := by
  simp [Slot.key]

/-- Looking a block up again keeps an occupied slot asked for. -/
theorem frequency_bump_pos (h : s.key ≠ none) : 1 ≤ s.bump.frequency := by
  obtain ⟨block, dirty, tenant⟩ := s
  cases tenant with
  | none => exact absurd rfl h
  | some tenant =>
      show 1 ≤ tenant.frequency + 1
      omega

end Slot

namespace Pool

variable {ι β : Type} (pool : Pool ι)

/-! ### The slots after an operation -/

@[simp] theorem slots_modifySlot (i : Nat) (f : Slot → Slot) :
    (pool.modifySlot i f).slots = pool.slots.modify i f := rfl

@[simp] theorem slots_count (f : Stats → Stats) : (pool.count f).slots = pool.slots := rfl

@[simp] theorem slots_write (i start : Nat) (bytes : ByteArray) :
    (pool.write i start bytes).slots = pool.slots.modify i (·.write start bytes) := rfl

theorem slots_settle_of_ok (i : Nat) (key : BlockId) :
    (pool.settle ⟨i, key, .ok ()⟩).slots = pool.slots.modify i Slot.cleaned := rfl

theorem slots_settle_of_error (i : Nat) (key : BlockId) (e : Error) :
    (pool.settle ⟨i, key, .error e⟩).slots = pool.slots := rfl

/-- A slot after one of the slots was changed: the changed one, or another one as it was. -/
theorem getElem?_modify_cases {slots : Array Slot} {f : Slot → Slot} {i j : Nat} {t : Slot}
    (h : (slots.modify i f)[j]? = some t) :
    (∃ s, slots[i]? = some s ∧ j = i ∧ t = f s) ∨ (j ≠ i ∧ slots[j]? = some t) := by
  rw [Array.getElem?_modify] at h
  split at h
  · rename_i hij
    subst hij
    obtain ⟨s, hs, rfl⟩ := Option.map_eq_some_iff.mp h
    exact Or.inl ⟨s, hs, rfl, rfl⟩
  · rename_i hij
    exact Or.inr ⟨Ne.symm hij, h⟩

theorem getElem?_modify_self {slots : Array Slot} {f : Slot → Slot} {i : Nat} {s : Slot}
    (h : slots[i]? = some s) : (slots.modify i f)[i]? = some (f s) := by
  rw [Array.getElem?_modify, if_pos rfl, h]
  rfl

theorem getElem?_modify_other {slots : Array Slot} {f : Slot → Slot} {i j : Nat} (h : j ≠ i) :
    (slots.modify i f)[j]? = slots[j]? := by
  rw [Array.getElem?_modify, if_neg (Ne.symm h)]

/-- An attempt to write a block back changes no other slot. -/
theorem getElem?_settle_other (attempt : WriteAttempt) {j : Nat} (h : j ≠ attempt.slot) :
    (pool.settle attempt).slots[j]? = pool.slots[j]? := by
  obtain ⟨i, key, outcome⟩ := attempt
  cases outcome with
  | ok _ => rw [slots_settle_of_ok, getElem?_modify_other h]
  | error e => rw [slots_settle_of_error]

theorem modify_modify (slots : Array Slot) (i : Nat) (f g : Slot → Slot) :
    (slots.modify i f).modify i g = slots.modify i fun s => g (f s) := by
  apply Array.ext_getElem?
  intro j
  rw [Array.getElem?_modify, Array.getElem?_modify, Array.getElem?_modify]
  split
  · rw [Option.map_map]
    rfl
  · rfl

theorem blockAt_of_getElem? {i : Nat} {s : Slot} (h : pool.slots[i]? = some s) :
    pool.blockAt i = s.block := by
  rw [blockAt, h]

/-! ### Looking up by a search of the slots -/

theorem lookup_cases (pool : Pool Scan) (key : BlockId) :
    (∃ (i : Nat) (s : Slot), pool.slots[i]? = some s ∧ s.key = some key ∧
      pool.lookup key =
        (some ⟨i, s.bump.frequency⟩, (pool.modifySlot i Slot.bump).count Stats.hit)) ∨
    ((∀ (i : Nat) (s : Slot), pool.slots[i]? = some s → s.key ≠ some key) ∧
      pool.lookup key = (none, pool.count Stats.miss)) := by
  cases hfind : pool.slots.findIdx? fun slot => slot.holds key with
  | some i =>
      obtain ⟨hi, hholds, -⟩ := Array.findIdx?_eq_some_iff_getElem.mp hfind
      have hs : pool.slots[i]? = some pool.slots[i] := Array.getElem?_eq_getElem hi
      have hfreq : ((pool.modifySlot i Slot.bump).count Stats.hit).frequencyAt i =
          pool.slots[i].bump.frequency := by
        rw [frequencyAt, slots_count, slots_modifySlot, getElem?_modify_self hs]
      refine Or.inl ⟨i, pool.slots[i], hs, (Slot.holds_iff _ _).mp hholds, ?_⟩
      rw [lookup, show Lookup.find pool.index pool.slots key = some i from hfind]
      simp only [hfreq]
  | none =>
      rw [Array.findIdx?_eq_none_iff] at hfind
      refine Or.inr ⟨fun i s hs hkey => ?_, ?_⟩
      · have hholds := hfind s (Array.mem_of_getElem? hs)
        rw [(Slot.holds_iff _ _).mpr hkey] at hholds
        cases hholds
      · have hnone : Lookup.find pool.index pool.slots key = none :=
          Array.findIdx?_eq_none_iff.mpr hfind
        rw [lookup, hnone]

/-! ### Making room -/

/-- The slot that makes room is one of the pool. -/
theorem victim_lt (h : 0 < pool.capacity) : pool.victim < pool.slots.size := by
  unfold victim
  split
  · rename_i i hi
    exact (Array.findIdx?_eq_some_iff_getElem.mp hi).1
  · show (pool.slots.findIdx? fun s => s.frequency == evictedFrequency pool.slots).getD 0 < _
    cases hi : pool.slots.findIdx? fun s => s.frequency == evictedFrequency pool.slots with
    | some i => exact (Array.findIdx?_eq_some_iff_getElem.mp hi).1
    | none => exact h

section Telling

variable [Lookup ι]

@[simp] theorem slots_assign (i : Nat) (key : BlockId) :
    (pool.assign i key).slots = pool.slots.modify i (·.assign key) := rfl

@[simp] theorem slots_vacate (i : Nat) (key : BlockId) :
    (pool.vacate i key).slots = pool.slots.modify i Slot.vacated := rfl

@[simp] theorem slots_evict (i : Nat) (eviction : Eviction) :
    (pool.evict i eviction).slots = pool.slots.modify i Slot.vacated := by
  unfold evict
  split <;> rfl

/-- The slots after one of them was filled and taken by a block. -/
theorem slots_take (i : Nat) (key : BlockId) (block : Block) (f : Stats → Stats) :
    (((pool.modifySlot i (·.setBlock block)).assign i key).count f).slots =
      pool.slots.modify i fun s => (s.setBlock block).assign key := by
  rw [slots_count, slots_assign, slots_modifySlot, modify_modify]

/-- A slot that is taken has the block it was given. -/
theorem blockAt_take {i : Nat} {s : Slot} (hs : pool.slots[i]? = some s) (key : BlockId)
    (block : Block) (f : Stats → Stats) :
    (((pool.modifySlot i (·.setBlock block)).assign i key).count f).blockAt i = block := by
  refine (blockAt_of_getElem? _ (s := (s.setBlock block).assign key) ?_).trans rfl
  rw [slots_take]
  exact getElem?_modify_self hs

/-- The slots after one of them was taken by a block and written to. -/
theorem slots_assign_write (i start : Nat) (key : BlockId) (bytes : ByteArray) :
    ((pool.assign i key).write i start bytes).slots =
      pool.slots.modify i fun s => (s.assign key).write start bytes := by
  rw [slots_write, slots_assign, modify_modify]

/-- The slots after one of them was filled, taken by a block and written to. -/
theorem slots_take_write (i start : Nat) (key : BlockId) (block : Block) (f : Stats → Stats)
    (bytes : ByteArray) :
    ((((pool.modifySlot i (·.setBlock block)).assign i key).count f).write i start bytes).slots =
      pool.slots.modify i fun s => ((s.setBlock block).assign key).write start bytes := by
  rw [slots_write, slots_take, modify_modify]

theorem makeRoom_of_none (writeBack : BlockId → Block → StateM β (Except Error Unit))
    (hs : pool.slots[pool.victim]? = none) (b : β) :
    pool.makeRoom writeBack b = ((⟨pool.victim, none⟩, pool), b) := by
  simp only [makeRoom, hs]
  rfl

theorem makeRoom_of_free (writeBack : BlockId → Block → StateM β (Except Error Unit)) {s : Slot}
    (hs : pool.slots[pool.victim]? = some s) (hfree : s.key = none) (b : β) :
    pool.makeRoom writeBack b = ((⟨pool.victim, none⟩, pool), b) := by
  obtain ⟨block, dirty, tenant⟩ := s
  cases tenant with
  | none => simp only [makeRoom, hs]; rfl
  | some tenant => cases hfree

theorem makeRoom_of_clean (writeBack : BlockId → Block → StateM β (Except Error Unit))
    {block : Block} {tenant : Tenant}
    (hs : pool.slots[pool.victim]? = some ⟨block, false, some tenant⟩) (b : β) :
    pool.makeRoom writeBack b =
      ((⟨pool.victim, some ⟨tenant.key, tenant.frequency, none⟩⟩,
        pool.evict pool.victim ⟨tenant.key, tenant.frequency, none⟩), b) := by
  simp only [makeRoom, hs]
  rfl

theorem makeRoom_of_dirty (writeBack : BlockId → Block → StateM β (Except Error Unit))
    {block : Block} {tenant : Tenant}
    (hs : pool.slots[pool.victim]? = some ⟨block, true, some tenant⟩) (b : β) :
    pool.makeRoom writeBack b =
      ((⟨pool.victim, some ⟨tenant.key, tenant.frequency, some (writeBack tenant.key block b).1⟩⟩,
        pool.evict pool.victim
          ⟨tenant.key, tenant.frequency, some (writeBack tenant.key block b).1⟩),
        (writeBack tenant.key block b).2) := by
  simp only [makeRoom, hs]
  rfl

/-! ### Filling a slot -/

section Filling

variable {slot n : Nat} {key : BlockId} {read : Block → StateM β (Except Error Nat × Block)}
  {block : Block} {e : Error} {b b' : β}

theorem fill_of_ok (h : read (pool.blockAt slot) b = ((.ok n, block), b')) :
    pool.fill slot key read b =
      ((.ok (), ((pool.modifySlot slot (·.setBlock (block.zeroFrom n))).assign slot key).count
        Stats.filled), b') := by
  rw [fill, bind_apply, h]
  rfl

theorem fill_of_error (h : read (pool.blockAt slot) b = ((.error e, block), b')) :
    pool.fill slot key read b = ((.error e, pool.modifySlot slot (·.setBlock block)), b') := by
  rw [fill, bind_apply, h]
  rfl

theorem fillOrZero_of_ok (h : read (pool.blockAt slot) b = ((.ok n, block), b')) :
    pool.fillOrZero slot key read b =
      ((none, ((pool.modifySlot slot (·.setBlock (block.zeroFrom n))).assign slot key).count
        Stats.filled), b') := by
  rw [fillOrZero, bind_apply, h]
  rfl

theorem fillOrZero_of_error (h : read (pool.blockAt slot) b = ((.error e, block), b')) :
    pool.fillOrZero slot key read b =
      ((some e, ((pool.modifySlot slot (·.setBlock (Buffer.zero blockSize))).assign slot key).count
        Stats.filled), b') := by
  rw [fillOrZero, bind_apply, h]
  rfl

end Filling

end Telling

/-! ### Writing back -/

/-- The attempts of writing blocks back, when the first of them is told apart. -/
theorem writeAll_cons (writeBack : BlockId → Block → StateM β (Except Error Unit))
    (dirty : DirtyBlock) (rest : List DirtyBlock) (b : β) :
    writeAll writeBack (dirty :: rest) b =
      (⟨dirty.slot, dirty.key, (writeBack dirty.key dirty.block b).1⟩ ::
        (writeAll writeBack rest (writeBack dirty.key dirty.block b).2).1,
        (writeAll writeBack rest (writeBack dirty.key dirty.block b).2).2) := rfl

theorem flush_apply (owner : Descriptor)
    (writeBack : BlockId → Block → StateM β (Except Error Unit)) (b : β) :
    pool.flush owner writeBack b =
      ((⟨owner, (writeAll writeBack (pool.dirtyBlocks owner) b).1⟩,
        (writeAll writeBack (pool.dirtyBlocks owner) b).1.foldl settle pool),
        (writeAll writeBack (pool.dirtyBlocks owner) b).2) := rfl

/-- The slots that the attempts name are those of the blocks, in their order. -/
theorem map_slot_writeAll (writeBack : BlockId → Block → StateM β (Except Error Unit))
    (dirty : List DirtyBlock) (b : β) :
    (writeAll writeBack dirty b).1.map (·.slot) = dirty.map (·.slot) := by
  induction dirty generalizing b with
  | nil => rfl
  | cons d rest ih =>
      rw [writeAll_cons, List.map_cons, List.map_cons, ih]

theorem mem_dirtyBlocks {owner : Descriptor} {d : DirtyBlock} :
    d ∈ pool.dirtyBlocks owner ↔
      ∃ tenant, pool.slots[d.slot]? = some ⟨d.block, true, some tenant⟩ ∧ tenant.key = d.key ∧
        d.key.owner = owner := by
  rw [dirtyBlocks, List.mem_filterMap]
  constructor
  · rintro ⟨⟨⟨block, dirty, tenant⟩, i⟩, hmem, hd⟩
    rw [List.mk_mem_zipIdx_iff_getElem?, Array.getElem?_toList] at hmem
    split at hd
    · rename_i heq
      obtain ⟨hslot, rfl⟩ := Prod.mk.inj heq
      split at hd
      · rename_i howner
        obtain rfl := Option.some.inj hd
        exact ⟨_, hslot ▸ hmem, rfl, howner⟩
      · cases hd
    · cases hd
  · rintro ⟨tenant, hslot, hkey, howner⟩
    refine ⟨(⟨d.block, true, some tenant⟩, d.slot), ?_, ?_⟩
    · rw [List.mk_mem_zipIdx_iff_getElem?, Array.getElem?_toList]
      exact hslot
    · simp only [hkey, if_pos howner]

theorem dirtyBlocks_eq_nil {owner : Descriptor} :
    pool.dirtyBlocks owner = [] ↔ ∀ (i : Nat) (s : Slot) (key : BlockId),
      pool.slots[i]? = some s → s.key = some key → key.owner = owner → s.dirty = false := by
  rw [List.eq_nil_iff_forall_not_mem]
  constructor
  · rintro hnone i ⟨block, dirty, tenant⟩ key hs hkey howner
    obtain ⟨tenant, rfl, rfl⟩ := Option.map_eq_some_iff.mp hkey
    cases dirty with
    | false => rfl
    | true =>
        have hmem : ⟨i, tenant.key, block⟩ ∈ pool.dirtyBlocks owner :=
          pool.mem_dirtyBlocks.mpr ⟨tenant, hs, rfl, howner⟩
        exact absurd hmem (hnone _)
  · intro hclean d hd
    obtain ⟨tenant, hs, hkey, howner⟩ := pool.mem_dirtyBlocks.mp hd
    cases hclean _ _ _ hs (congrArg some hkey) howner

/-- What is picked from the slots, one thing at most from each of them, stands in their order. -/
theorem ascending_picked {γ : Type} (slots : Array Slot) (pick : Slot × Nat → Option γ)
    (slotOf : γ → Nat) (hpick : ∀ {s i a}, pick (s, i) = some a → slotOf a = i) :
    (slots.toList.zipIdx.filterMap pick).Pairwise fun a a' => slotOf a < slotOf a' := by
  rw [List.pairwise_filterMap]
  have hidx : (slots.toList.zipIdx).Pairwise fun a b => a.2 < b.2 := by
    rw [← List.pairwise_map (f := Prod.snd) (R := (· < ·)), List.zipIdx_map_snd]
    exact List.pairwise_lt_range'
  apply hidx.imp
  rintro ⟨s, i⟩ ⟨s', i'⟩ hlt a ha a' ha'
  rw [hpick ha, hpick ha']
  exact hlt

/-- The dirty blocks of an owner stand in the order of their slots. -/
theorem ascending_dirtyBlocks (owner : Descriptor) :
    (pool.dirtyBlocks owner).Pairwise fun d d' => d.slot < d'.slot := by
  refine ascending_picked pool.slots _ DirtyBlock.slot fun {s i d} hd => ?_
  split at hd
  · rename_i heq
    split at hd
    · cases hd
      cases heq
      rfl
    · cases hd
  · cases hd

/-- No slot is written back twice. -/
theorem pairwise_dirtyBlocks (owner : Descriptor) :
    (pool.dirtyBlocks owner).Pairwise fun d d' => d.slot ≠ d'.slot :=
  (pool.ascending_dirtyBlocks owner).imp Nat.ne_of_lt

/-- Changing slots one after the other changes each of them once, if changing one twice is the same
as changing it once. -/
theorem getElem?_foldl_modify (f : Slot → Slot) (hf : ∀ s, f (f s) = f s) (is : List Nat)
    (slots : Array Slot) (j : Nat) :
    (is.foldl (fun slots i => slots.modify i f) slots)[j]? =
      if j ∈ is then slots[j]?.map f else slots[j]? := by
  induction is generalizing slots with
  | nil => rfl
  | cons i rest ih =>
      rw [List.foldl_cons, ih, Array.getElem?_modify]
      simp only [List.mem_cons]
      by_cases hi : i = j
      · simp only [if_pos hi, if_pos (Or.inl hi.symm : j = i ∨ j ∈ rest), Option.map_map,
          Function.comp_def, hf, ite_self]
      · simp only [if_neg hi, Ne.symm hi, false_or]

/-- If every attempt succeeded, the slots that were written back are clean. -/
theorem slots_foldl_settle {attempts : List WriteAttempt}
    (hok : ∀ a ∈ attempts, a.outcome = .ok ()) :
    (attempts.foldl settle pool).slots =
      (attempts.map (·.slot)).foldl (fun slots i => slots.modify i Slot.cleaned) pool.slots := by
  induction attempts generalizing pool with
  | nil => rfl
  | cons a rest ih =>
      obtain ⟨slot, key, outcome⟩ := a
      obtain rfl : outcome = .ok () := hok _ List.mem_cons_self
      rw [List.foldl_cons, ih _ fun a ha => hok a (List.mem_cons_of_mem _ ha), slots_settle_of_ok]
      rfl

/-- A flush without a failure leaves no dirty block of the owner. -/
theorem flush_clean {owner : Descriptor}
    {writeBack : BlockId → Block → StateM β (Except Error Unit)} {b : β}
    (hok : (pool.flush owner writeBack b).1.1.failed = 0) {i : Nat} {s : Slot}
    (hs : (pool.flush owner writeBack b).1.2.slots[i]? = some s) {key : BlockId}
    (hkey : s.key = some key) (howner : key.owner = owner) : s.dirty = false := by
  rw [flush_apply] at hok hs
  have hall : ∀ a ∈ (writeAll writeBack (pool.dirtyBlocks owner) b).1, a.outcome = .ok () := by
    intro a ha
    have hsucc := List.countP_eq_zero.mp hok a ha
    cases ho : a.outcome with
    | ok _ => rfl
    | error e => simp [ho, succeeded] at hsucc
  rw [slots_foldl_settle _ hall, map_slot_writeAll,
    getElem?_foldl_modify Slot.cleaned fun _ => rfl] at hs
  split at hs
  · obtain ⟨t, -, rfl⟩ := Option.map_eq_some_iff.mp hs
    rfl
  · rename_i hnot
    obtain ⟨block, dirty, tenant⟩ := s
    cases dirty with
    | false => rfl
    | true =>
        cases tenant with
        | none => cases hkey
        | some tenant =>
            cases hkey
            have hmem : (⟨i, tenant.key, block⟩ : DirtyBlock) ∈ pool.dirtyBlocks owner :=
              pool.mem_dirtyBlocks.mpr ⟨tenant, hs, rfl, howner⟩
            exact absurd (List.mem_map.mpr ⟨_, hmem, rfl⟩) hnot

@[simp] theorem size_settle (attempt : WriteAttempt) :
    (pool.settle attempt).slots.size = pool.slots.size := by
  obtain ⟨i, key, outcome⟩ := attempt
  cases outcome with
  | ok _ => rw [slots_settle_of_ok, Array.size_modify]
  | error e => rw [slots_settle_of_error]

/-- After an attempt to write a block back its slot is clean if the attempt succeeded; nothing else
changes. -/
theorem getElem?_settle (attempt : WriteAttempt) {i : Nat} {s : Slot}
    (hs : pool.slots[i]? = some s) :
    (pool.settle attempt).slots[i]? =
      some { s with dirty := s.dirty && !(attempt.slot == i && succeeded attempt.outcome) } := by
  by_cases hi : i = attempt.slot
  · obtain ⟨j, key, outcome⟩ := attempt
    obtain rfl : i = j := hi
    cases outcome with
    | ok _ =>
        rw [slots_settle_of_ok, getElem?_modify_self hs]
        simp [Slot.cleaned, succeeded]
    | error e =>
        rw [slots_settle_of_error, hs]
        simp [succeeded]
  · have hother : (attempt.slot == i) = false := beq_false_of_ne (Ne.symm hi)
    rw [pool.getElem?_settle_other attempt hi, hs, hother]
    simp

/-- An attempt to write a block back leaves the block in its slot. -/
theorem tenant_settle (attempt : WriteAttempt) {i : Nat} {s : Slot} (hs : pool.slots[i]? = some s) :
    ∃ s', (pool.settle attempt).slots[i]? = some s' ∧ s'.tenant = s.tenant :=
  ⟨_, pool.getElem?_settle attempt hs, rfl⟩

/-- The same for any number of attempts. -/
theorem getElem?_foldl_settle (attempts : List WriteAttempt) {i : Nat} {s : Slot}
    (hs : pool.slots[i]? = some s) :
    (attempts.foldl settle pool).slots[i]? =
      some { s with
        dirty := s.dirty && attempts.all fun a => !(a.slot == i && succeeded a.outcome) } := by
  induction attempts generalizing pool s with
  | nil => rw [List.foldl_nil, hs, List.all_nil, Bool.and_true]
  | cons a rest ih =>
      rw [List.foldl_cons, ih (pool.settle a) (pool.getElem?_settle a hs), List.all_cons,
        Bool.and_assoc]

/-- A slot that no attempt is about stays as it is. -/
theorem slot_foldl_settle (attempts : List WriteAttempt) {i : Nat} {s : Slot}
    (hs : pool.slots[i]? = some s) :
    ∃ dirty, (attempts.foldl settle pool).slots[i]? = some { s with dirty } ∧
      ((∀ a ∈ attempts, i ≠ a.slot) → dirty = s.dirty) := by
  refine ⟨_, pool.getElem?_foldl_settle attempts hs, fun hnone => ?_⟩
  have hall : attempts.all (fun a => !(a.slot == i && succeeded a.outcome)) = true :=
    List.all_eq_true.mpr fun a ha => by simp [Ne.symm (hnone a ha)]
  rw [hall, Bool.and_true]

@[simp] theorem size_foldl_settle (attempts : List WriteAttempt) :
    (attempts.foldl settle pool).slots.size = pool.slots.size := by
  induction attempts generalizing pool with
  | nil => rfl
  | cons a rest ih => rw [List.foldl_cons, ih, size_settle]

section Flushing

variable (owner : Descriptor) (writeBack : BlockId → Block → StateM β (Except Error Unit)) (b : β)

@[simp] theorem size_flush : (pool.flush owner writeBack b).1.2.slots.size = pool.slots.size := by
  rw [flush_apply, size_foldl_settle]

/-- Writing the blocks of an owner back does no more to a slot than make it clean, and leaves the
slots of other owners as they are. -/
theorem slot_flush {i : Nat} {s : Slot} (hs : pool.slots[i]? = some s) :
    ∃ dirty, (pool.flush owner writeBack b).1.2.slots[i]? = some { s with dirty } ∧
      (s.ownedBy owner = false → dirty = s.dirty) := by
  rw [flush_apply]
  obtain ⟨dirty, hs', hsame⟩ :=
    pool.slot_foldl_settle (writeAll writeBack (pool.dirtyBlocks owner) b).1 hs
  refine ⟨dirty, hs', fun hother => hsame fun a ha hi => ?_⟩
  have hslot : i ∈ (writeAll writeBack (pool.dirtyBlocks owner) b).1.map (·.slot) :=
    List.mem_map.mpr ⟨a, ha, hi.symm⟩
  rw [map_slot_writeAll] at hslot
  obtain ⟨d, hd, rfl⟩ := List.mem_map.mp hslot
  obtain ⟨tenant, hdirty, hkey, howner⟩ := pool.mem_dirtyBlocks.mp hd
  obtain rfl := Option.some.inj (hs.symm.trans hdirty)
  rw [(Slot.ownedBy_iff _ owner).mpr ⟨tenant.key, rfl, by rw [hkey, howner]⟩] at hother
  cases hother

/-- Writing the blocks of an owner back leaves every block in its slot, and the slots of other
owners as they are. -/
theorem tenant_flush {i : Nat} {s : Slot} (hs : pool.slots[i]? = some s) :
    ∃ s', (pool.flush owner writeBack b).1.2.slots[i]? = some s' ∧ s'.tenant = s.tenant ∧
      (s.ownedBy owner = false → s' = s) := by
  obtain ⟨dirty, hs', hsame⟩ := pool.slot_flush owner writeBack b hs
  exact ⟨_, hs', rfl, fun hother => by rw [hsame hother]⟩

end Flushing

/-! ### Letting go -/

section Forgetting

theorem mem_residents {owner : Descriptor} {i : Nat} {key : BlockId} :
    (i, key) ∈ pool.residents owner ↔
      ∃ s, pool.slots[i]? = some s ∧ s.key = some key ∧ key.owner = owner := by
  rw [residents, List.mem_filterMap]
  constructor
  · rintro ⟨⟨⟨block, dirty, tenant⟩, j⟩, hmem, hd⟩
    rw [List.mk_mem_zipIdx_iff_getElem?, Array.getElem?_toList] at hmem
    split at hd
    · rename_i heq
      obtain ⟨hslot, rfl⟩ := Prod.mk.inj heq
      split at hd
      · rename_i howner
        cases hd
        exact ⟨_, hmem, by rw [hslot]; rfl, howner⟩
      · cases hd
    · cases hd
  · rintro ⟨⟨block, dirty, tenant⟩, hslot, hkey, howner⟩
    cases tenant with
    | none => cases hkey
    | some tenant =>
        cases hkey
        refine ⟨(⟨block, dirty, some tenant⟩, i), ?_, ?_⟩
        · rw [List.mk_mem_zipIdx_iff_getElem?, Array.getElem?_toList]
          exact hslot
        · simp only [if_pos howner]

/-- No slot is let go of twice. -/
theorem pairwise_residents (owner : Descriptor) :
    (pool.residents owner).Pairwise fun r r' => r.1 ≠ r'.1 := by
  refine (ascending_picked pool.slots _ Prod.fst fun {s i r} hr => ?_).imp Nat.ne_of_lt
  split at hr
  · rename_i heq
    split at hr
    · cases hr
      cases heq
      rfl
    · cases hr
  · cases hr

variable [Lookup ι]

theorem slots_foldl_vacate (gone : List (Nat × BlockId)) :
    (gone.foldl (fun pool resident => pool.vacate resident.1 resident.2) pool).slots =
      (gone.map (·.1)).foldl (fun slots i => slots.modify i Slot.vacated) pool.slots := by
  induction gone generalizing pool with
  | nil => rfl
  | cons resident rest ih =>
      rw [List.foldl_cons, ih, slots_vacate]
      rfl

/-- Forgetting an owner frees its slots and no others. -/
theorem slots_forget (owner : Descriptor) :
    (pool.forget owner).2.slots =
      pool.slots.map fun s => if s.ownedBy owner then s.vacated else s := by
  apply Array.ext_getElem?
  intro i
  rw [forget, slots_foldl_vacate, getElem?_foldl_modify Slot.vacated fun _ => rfl,
    Array.getElem?_map]
  split
  · rename_i hmem
    obtain ⟨⟨j, key⟩, hresident, hj⟩ := List.mem_map.mp hmem
    obtain rfl : j = i := hj
    obtain ⟨s, hs, hkey, howner⟩ := pool.mem_residents.mp hresident
    rw [hs, Option.map_some, Option.map_some,
      if_pos ((s.ownedBy_iff owner).mpr ⟨key, hkey, howner⟩)]
  · rename_i hmem
    cases hs : pool.slots[i]? with
    | none => rfl
    | some s =>
        rw [Option.map_some, if_neg]
        intro howned
        obtain ⟨key, hkey, howner⟩ := (s.ownedBy_iff owner).mp howned
        exact hmem (List.mem_map.mpr ⟨(i, key), pool.mem_residents.mpr ⟨s, hs, hkey, howner⟩, rfl⟩)

end Forgetting

/-! ### A new pool -/

section Creating

variable {κ : Type} {capacity : Nat} {index : ι} {allocator : Allocator} {pool : Pool ι}

/-- A pool has the slots it was created with if nothing speaks against so many. -/
theorem create_eq_ok (h : Pool.create capacity index allocator = .ok pool) :
    allocator.refusal capacity = none ∧
      pool = ⟨Array.replicate capacity Slot.blank, index, {}⟩ := by
  unfold Pool.create at h
  split at h
  · cases h
  · rename_i hnone
    exact ⟨hnone, (Except.ok.inj h).symm⟩

theorem create_of_granted (hnone : allocator.refusal capacity = none) (index : κ) :
    Pool.create capacity index allocator =
      .ok ⟨Array.replicate capacity Slot.blank, index, {}⟩ := by
  rw [Pool.create, hnone]

theorem create_of_refused {e : Error} (hrefused : allocator.refusal capacity = some e)
    (index : κ) : Pool.create capacity index allocator = .error e := by
  rw [Pool.create, hrefused]

theorem slots_create (h : Pool.create capacity index allocator = .ok pool) :
    0 < capacity ∧ pool.slots = Array.replicate capacity Slot.blank := by
  obtain ⟨hnone, rfl⟩ := create_eq_ok h
  refine ⟨Nat.pos_of_ne_zero fun hzero => ?_, rfl⟩
  rw [Allocator.refusal, if_pos hzero] at hnone
  cases hnone

end Creating

end Pool

end BlockCache
