import BlockCache.Proofs.Handles

/-!
What a cache does for one block that is read or written: the block is found in a slot, or room is
made for it and the slot is filled. A transfer is a row of such accesses. All that is said here
holds whatever the storage does, even if it gives two files one descriptor; what a cache keeps then
is that it is `Housed`.
-/

namespace BlockCache

namespace Cache

variable {σ φ : Type} [Storage σ φ]

/-- A block that a transfer asks for, and whether all of it is about to be written. -/
structure Touch where
  key : BlockId
  covers : Bool
  deriving DecidableEq, Repr

/-- How a block that is asked for gets into a slot, if it does. -/
inductive How where
  /-- A slot holds it. -/
  | found
  /-- It is read in. -/
  | loaded
  /-- It cannot be read in, which ends the transfer. -/
  | refused
  /-- It cannot be read in, and counts as zeros. -/
  | zeroed
  /-- It is about to be written whole. -/
  | taken
  deriving DecidableEq, Repr

/-- Room is made in a slot: it was free, or its block is given up. A dirty block is stored before
that, to an open file with the descriptor that the block is of. -/
inductive MadeRoom (c : Cache σ φ) : Cache σ φ → Prop where
  | free {s : Slot} {journal : Array Event} (hs : c.pool.slots[c.pool.victim]? = some s)
      (hfree : s.key = none) : MadeRoom c { c with journal }
  | clean {block : Block} {tenant : Tenant} {journal : Array Event}
      (hs : c.pool.slots[c.pool.victim]? = some ⟨block, false, some tenant⟩) :
      MadeRoom c
        { c with
          pool := c.pool.evict c.pool.victim ⟨tenant.key, tenant.frequency, none⟩
          journal }
  | dirty {block : Block} {tenant : Tenant} {owner : OpenFile φ} {outcome : Except Error Unit}
      {storage : σ} {journal : Array Event}
      (hs : c.pool.slots[c.pool.victim]? = some ⟨block, true, some tenant⟩)
      (howner : c.table.ownerOf tenant.key.owner = some owner)
      (hstore : storeBlock owner.file tenant.key block c.storage = (outcome, storage)) :
      MadeRoom c
        { c with
          storage
          pool := c.pool.evict c.pool.victim ⟨tenant.key, tenant.frequency, some outcome⟩
          journal }

/-- A free slot is filled with a block, or stays free if the block is refused. A block that is about
to be written whole is not read in. -/
inductive Filled (file : φ) (touch : Touch) (i : Nat) (c : Cache σ φ) : How → Cache σ φ → Prop where
  | loaded {n : Nat} {block : Block} {storage : σ} {journal : Array Event}
      (hpart : touch.covers = false)
      (hread : Storage.readAt file (c.pool.blockAt i) touch.key.offset c.storage =
        ((.ok n, block), storage)) :
      Filled file touch i c .loaded
        { c with
          storage
          pool := ((c.pool.modifySlot i (·.setBlock (block.zeroFrom n))).assign i touch.key).count
            Stats.filled
          journal }
  | refused {fault : Fault} {block : Block} {storage : σ} {journal : Array Event}
      (hpart : touch.covers = false)
      (hread : Storage.readAt file (c.pool.blockAt i) touch.key.offset c.storage =
        ((.error fault, block), storage)) :
      Filled file touch i c .refused
        { c with storage, pool := c.pool.modifySlot i (·.setBlock block), journal }
  | zeroed {fault : Fault} {block : Block} {storage : σ} {journal : Array Event}
      (hpart : touch.covers = false)
      (hread : Storage.readAt file (c.pool.blockAt i) touch.key.offset c.storage =
        ((.error fault, block), storage)) :
      Filled file touch i c .zeroed
        { c with
          storage
          pool := ((c.pool.modifySlot i (·.setBlock (Buffer.zero blockSize))).assign i
            touch.key).count Stats.filled
          journal }
  | taken {journal : Array Event} (hwhole : touch.covers = true) :
      Filled file touch i c .taken { c with pool := c.pool.assign i touch.key, journal }

/-- A block of a file is asked for, and is in slot `i` then unless it is refused. -/
inductive Access (file : φ) (touch : Touch) (c : Cache σ φ) : How → Nat → Cache σ φ → Prop where
  | found {i : Nat} {s : Slot} {journal : Array Event} (hs : c.pool.slots[i]? = some s)
      (hkey : s.key = some touch.key) :
      Access file touch c .found i
        { c with pool := (c.pool.modifySlot i Slot.bump).count Stats.hit, journal }
  | missed {how : How} {c₁ c' : Cache σ φ} (habsent : c.Absent touch.key)
      (hroom : MadeRoom { c with pool := c.pool.count Stats.miss } c₁)
      (hfilled : Filled file touch c.pool.victim c₁ how c') :
      Access file touch c how c.pool.victim c'

/-- The accesses of a transfer, one after the other: bytes are copied out of the slot of a block, or
into it. -/
inductive Transfer (f : OpenFile φ) : Cache σ φ → List (Touch × How) → Cache σ φ → Prop where
  | nil (c : Cache σ φ) : Transfer f c [] c
  | out {c c₁ c' : Cache σ φ} {touch : Touch} {how : How} {i : Nat} {rest : List (Touch × How)}
      (howner : f.descriptor = touch.key.owner) (haccess : Access f.file touch c how i c₁)
      (hrest : Transfer f c₁ rest c') : Transfer f c ((touch, how) :: rest) c'
  | into {c c₁ c' : Cache σ φ} {touch : Touch} {how : How} {i : Nat} {rest : List (Touch × How)}
      (start : Nat) (bytes : ByteArray) (howner : f.descriptor = touch.key.owner)
      (haccess : Access f.file touch c how i c₁)
      (hrest : Transfer f { c₁ with pool := c₁.pool.write i start bytes } rest c') :
      Transfer f c ((touch, how) :: rest) c'

/-! ### What is kept whatever the storage does -/

/-- The order that every cache keeps, whatever the storage does. -/
structure Housed (c : Cache σ φ) : Prop where
  /-- No block is in two slots. -/
  distinct : ∀ {i j : Nat} {s t : Slot} {key : BlockId}, c.pool.slots[i]? = some s →
    c.pool.slots[j]? = some t → s.key = some key → t.key = some key → i = j
  /-- Every block in the pool is of an open file. -/
  owned : ∀ {i : Nat} {s : Slot} {key : BlockId}, c.pool.slots[i]? = some s → s.key = some key →
    ∃ h f, c.table.get? h = some f ∧ f.descriptor = key.owner
  /-- An open file is named by the descriptor that the storage gives it. -/
  named : ∀ {h : Handle} {f : OpenFile φ}, c.table.get? h = some f →
    f.descriptor = Storage.descriptor σ f.file
  capacity_eq : 0 < c.pool.capacity → c.pool.capacity = c.slotCount
  /-- A file is opened only after the pool got its slots. -/
  capacity_pos : ∀ {h : Handle} {f : OpenFile φ}, c.table.get? h = some f → 0 < c.pool.capacity

/-- Whether two tables have the same files open, wherever their cursors are. -/
def SameFiles (t t' : FileTable φ) : Prop :=
  ∀ h, (t'.get? h).map (fun f => (f.file, f.descriptor)) =
    (t.get? h).map fun f => (f.file, f.descriptor)

theorem sameFiles_of_modify (t : FileTable φ) {h : Handle} {g : OpenFile φ → OpenFile φ}
    (hg : ∀ f, t.get? h = some f → (g f).file = f.file ∧ (g f).descriptor = f.descriptor) :
    SameFiles t (t.modify h g) := by
  intro h'
  rw [t.get?_modify]
  split
  · rename_i hh
    subst hh
    cases hf : t.get? h with
    | none => rfl
    | some f => exact congrArg some (Prod.ext (hg f hf).1 (hg f hf).2)
  · rfl

theorem SameFiles.get?_of_some {t t' : FileTable φ} (hsame : SameFiles t t') {h : Handle}
    {f : OpenFile φ} (hf : t.get? h = some f) :
    ∃ f', t'.get? h = some f' ∧ f'.file = f.file ∧ f'.descriptor = f.descriptor := by
  have heq := hsame h
  rw [hf] at heq
  obtain ⟨f', hf', hparts⟩ := Option.map_eq_some_iff.mp heq
  exact ⟨f', hf', Prod.mk.inj hparts⟩

theorem SameFiles.symm {t t' : FileTable φ} (hsame : SameFiles t t') : SameFiles t' t :=
  fun h => (hsame h).symm

variable {file : φ} {key : BlockId} {touch : Touch} {how : How} {i : Nat} {c c' c'' : Cache σ φ}
  {h : Handle} {f : OpenFile φ}

theorem housed_new (storage : σ) (slotCount : Nat) (allocator : Allocator) :
    (Cache.new storage slotCount allocator : Cache σ φ).Housed := by
  have hslot : ∀ (i : Nat) (s : Slot),
      (Cache.new storage slotCount allocator : Cache σ φ).pool.slots[i]? ≠ some s := by
    intro i s hs
    simp [Cache.new, Pool.unallocated] at hs
  exact {
    distinct := fun hs _ _ _ => absurd hs (hslot _ _)
    owned := fun hs _ => absurd hs (hslot _ _)
    named := fun hf => absurd hf (get?_new storage slotCount allocator)
    capacity_eq := fun hpos => absurd hpos (Nat.lt_irrefl 0)
    capacity_pos := fun hf => absurd hf (get?_new storage slotCount allocator) }

namespace Housed

/-- What leaves the same files open and lets no block into a slot keeps the order. -/
theorem of_fewer (hc : c.Housed) (htable : SameFiles c.table c'.table)
    (hcount : c'.slotCount = c.slotCount) (hsize : c'.pool.slots.size = c.pool.slots.size)
    (hslots : ∀ {j : Nat} {t : Slot} {key : BlockId}, c'.pool.slots[j]? = some t →
      t.key = some key → ∃ s, c.pool.slots[j]? = some s ∧ s.key = some key) : c'.Housed where
  distinct hs ht hk hk' := by
    obtain ⟨s₀, hs₀, hk₀⟩ := hslots hs hk
    obtain ⟨t₀, ht₀, hk₁⟩ := hslots ht hk'
    exact hc.distinct hs₀ ht₀ hk₀ hk₁
  owned hs hk := by
    obtain ⟨s₀, hs₀, hk₀⟩ := hslots hs hk
    obtain ⟨h, f, hf, howner⟩ := hc.owned hs₀ hk₀
    obtain ⟨f', hf', -, hdescriptor⟩ := htable.get?_of_some hf
    exact ⟨h, f', hf', hdescriptor.trans howner⟩
  named hf' := by
    obtain ⟨f, hf, hfile, hdescriptor⟩ := htable.symm.get?_of_some hf'
    rw [← hfile, ← hdescriptor]
    exact hc.named hf
  capacity_eq hpos := by
    rw [Pool.capacity, hsize] at hpos ⊢
    rw [hcount]
    exact hc.capacity_eq hpos
  capacity_pos hf' := by
    obtain ⟨f, hf, -⟩ := htable.symm.get?_of_some hf'
    rw [Pool.capacity, hsize]
    exact hc.capacity_pos hf

/-- What leaves the tenant of every slot and the same files open keeps the order. -/
theorem of_tenants (hc : c.Housed) (htable : SameFiles c.table c'.table)
    (hcount : c'.slotCount = c.slotCount) (hsize : c'.pool.slots.size = c.pool.slots.size)
    (htenant : ∀ {j : Nat} {s : Slot}, c.pool.slots[j]? = some s →
      ∃ s', c'.pool.slots[j]? = some s' ∧ s'.tenant = s.tenant) : c'.Housed := by
  refine hc.of_fewer htable hcount hsize fun {j t key} ht hkey => ?_
  have hlt : j < c.pool.slots.size := hsize ▸ (Array.getElem?_eq_some_iff.mp ht).1
  obtain ⟨s', hs', hsame⟩ := htenant (Array.getElem?_eq_getElem hlt)
  obtain rfl := Option.some.inj (ht.symm.trans hs')
  refine ⟨_, Array.getElem?_eq_getElem hlt, ?_⟩
  rw [Slot.key, ← hsame]
  exact hkey

theorem of_table (hc : c.Housed) {table : FileTable φ} (htable : SameFiles c.table table)
    (journal : Array Event) : ({ c with table, journal } : Cache σ φ).Housed :=
  hc.of_tenants htable rfl rfl fun hs => ⟨_, hs, rfl⟩

/-- What lets an absent block of an open file into one slot keeps the order. -/
theorem of_entered (hc : c.Housed) (htable : c'.table = c.table)
    (hcount : c'.slotCount = c.slotCount) (hsize : c'.pool.slots.size = c.pool.slots.size)
    (hf : c.table.get? h = some f) (howner : f.descriptor = key.owner) (habsent : c.Absent key)
    (hslots : ∀ {j : Nat} {t : Slot} {key' : BlockId}, c'.pool.slots[j]? = some t →
      t.key = some key' → (j = i ∧ key' = key) ∨
        ∃ s, c.pool.slots[j]? = some s ∧ s.key = some key') : c'.Housed where
  distinct hs ht hk hk' := by
    rcases hslots hs hk with ⟨hi, heq⟩ | ⟨s₀, hs₀, hk₀⟩ <;>
      rcases hslots ht hk' with ⟨hj, heq'⟩ | ⟨t₀, ht₀, hk₁⟩
    · exact hi.trans hj.symm
    · exact absurd (hk₁.trans (congrArg some heq)) (habsent _ _ ht₀)
    · exact absurd (hk₀.trans (congrArg some heq')) (habsent _ _ hs₀)
    · exact hc.distinct hs₀ ht₀ hk₀ hk₁
  owned hs hk := by
    rw [htable]
    rcases hslots hs hk with ⟨-, rfl⟩ | ⟨s₀, hs₀, hk₀⟩
    · exact ⟨h, f, hf, howner⟩
    · exact hc.owned hs₀ hk₀
  named hf' := hc.named (htable ▸ hf')
  capacity_eq hpos := by
    rw [Pool.capacity, hsize] at hpos ⊢
    rw [hcount]
    exact hc.capacity_eq hpos
  capacity_pos hf' := by
    rw [Pool.capacity, hsize]
    exact hc.capacity_pos (htable ▸ hf')

/-- Every block in the pool is written back to some open file. -/
theorem ownerOf (hc : c.Housed) {s : Slot} (hs : c.pool.slots[i]? = some s)
    (hkey : s.key = some key) : ∃ owner, c.table.ownerOf key.owner = some owner := by
  obtain ⟨h, f, hf, howner⟩ := hc.owned hs hkey
  rw [← howner]
  exact c.table.ownerOf_isSome hf

end Housed

omit [Storage σ φ] in
theorem holds_iff :
    c.pool.holds key = true ↔
      ∃ (i : Nat) (s : Slot), c.pool.slots[i]? = some s ∧ s.key = some key := by
  constructor
  · intro hholds
    obtain ⟨s, hmem, hkey⟩ := Array.any_eq_true'.mp hholds
    obtain ⟨i, hs⟩ := Array.getElem?_of_mem hmem
    exact ⟨i, s, hs, (Slot.holds_iff _ _).mp hkey⟩
  · rintro ⟨i, s, hs, hkey⟩
    exact Array.any_eq_true'.mpr ⟨s, Array.mem_of_getElem? hs, (Slot.holds_iff _ _).mpr hkey⟩

omit [Storage σ φ] in
theorem holds_eq_false_iff : c.pool.holds key = false ↔ c.Absent key := by
  rw [← Bool.not_eq_true, holds_iff]
  exact ⟨fun hnone i s hs hkey => hnone ⟨i, s, hs, hkey⟩, fun habsent ⟨i, s, hs, hkey⟩ =>
    habsent i s hs hkey⟩

/-! ### Making room -/

namespace MadeRoom

theorem table_eq (hroom : MadeRoom c c') : c'.table = c.table := by
  cases hroom <;> rfl

theorem slotCount_eq (hroom : MadeRoom c c') : c'.slotCount = c.slotCount := by
  cases hroom <;> rfl

theorem size_eq (hroom : MadeRoom c c') : c'.pool.slots.size = c.pool.slots.size := by
  cases hroom with
  | free => rfl
  | clean | dirty => exact (congrArg Array.size (Pool.slots_evict _ _ _)).trans Array.size_modify

/-- The slot in which room was made is free. -/
theorem freed (hroom : MadeRoom c c') :
    ∃ s, c'.pool.slots[c.pool.victim]? = some s ∧ s.key = none := by
  cases hroom with
  | free hs hfree => exact ⟨_, hs, hfree⟩
  | @clean block tenant _ hs =>
      refine ⟨Slot.vacated ⟨block, false, some tenant⟩, ?_, rfl⟩
      rw [Pool.slots_evict]
      exact Pool.getElem?_modify_self hs
  | @dirty block tenant _ _ _ _ hs =>
      refine ⟨Slot.vacated ⟨block, true, some tenant⟩, ?_, rfl⟩
      rw [Pool.slots_evict]
      exact Pool.getElem?_modify_self hs

/-- A block that is in a slot then was there before. -/
theorem kept (hroom : MadeRoom c c') {j : Nat} {t : Slot} {key : BlockId}
    (ht : c'.pool.slots[j]? = some t) (hkey : t.key = some key) :
    j ≠ c.pool.victim ∧ c.pool.slots[j]? = some t := by
  have hne : j ≠ c.pool.victim := by
    rintro rfl
    obtain ⟨s, hs, hfree⟩ := hroom.freed
    rw [Option.some.inj (ht.symm.trans hs), hfree] at hkey
    cases hkey
  cases hroom with
  | free => exact ⟨hne, ht⟩
  | clean | dirty =>
      rw [Pool.slots_evict, Pool.getElem?_modify_other hne] at ht
      exact ⟨hne, ht⟩

end MadeRoom

theorem makeRoom_madeRoom (hc : c.Housed) (hpos : 0 < c.pool.capacity) :
    (makeRoom c).1 = c.pool.victim ∧ MadeRoom c (makeRoom c).2 := by
  obtain ⟨⟨block, dirty, tenant⟩, hs⟩ : ∃ s, c.pool.slots[c.pool.victim]? = some s :=
    ⟨_, Array.getElem?_eq_getElem (c.pool.victim_lt hpos)⟩
  rw [makeRoom, bind_apply, get_apply, bind_apply, onPool_apply]
  cases tenant with
  | none =>
      rw [c.pool.makeRoom_of_free _ hs rfl]
      exact ⟨rfl, .free hs rfl⟩
  | some tenant =>
      cases dirty with
      | false =>
          rw [c.pool.makeRoom_of_clean _ hs]
          exact ⟨rfl, .clean hs⟩
      | true =>
          obtain ⟨owner, howner⟩ := hc.ownerOf hs rfl
          have hwrite : writeBack c.table tenant.key block =
              (storeBlock owner.file tenant.key block : StateM σ _) := by
            rw [writeBack, howner]
          rw [c.pool.makeRoom_of_dirty _ hs, hwrite]
          exact ⟨rfl, .dirty hs howner rfl⟩

/-! ### Filling a slot -/

namespace Filled

theorem table_eq (hfilled : Filled file touch i c how c') : c'.table = c.table := by
  cases hfilled <;> rfl

theorem slotCount_eq (hfilled : Filled file touch i c how c') : c'.slotCount = c.slotCount := by
  cases hfilled <;> rfl

/-- Only the slot that is filled changes. -/
theorem slots_eq (hfilled : Filled file touch i c how c') :
    ∃ g : Slot → Slot, c'.pool.slots = c.pool.slots.modify i g ∧
      ∀ s, (g s).key = if how = .refused then s.key else some touch.key := by
  cases hfilled with
  | loaded | zeroed => exact ⟨_, Pool.slots_take _ _ _ _ _, fun s => rfl⟩
  | refused => exact ⟨_, Pool.slots_modifySlot _ _ _, fun s => rfl⟩
  | taken => exact ⟨_, Pool.slots_assign _ _ _, fun s => rfl⟩

theorem size_eq (hfilled : Filled file touch i c how c') :
    c'.pool.slots.size = c.pool.slots.size := by
  obtain ⟨g, hslots, -⟩ := hfilled.slots_eq
  rw [hslots, Array.size_modify]

end Filled

/-! ### Access -/

namespace Access

theorem table_eq (haccess : Access file touch c how i c') : c'.table = c.table := by
  cases haccess with
  | found => rfl
  | missed _ hroom hfilled => exact hfilled.table_eq.trans hroom.table_eq

theorem slotCount_eq (haccess : Access file touch c how i c') : c'.slotCount = c.slotCount := by
  cases haccess with
  | found => rfl
  | missed _ hroom hfilled => exact hfilled.slotCount_eq.trans hroom.slotCount_eq

theorem size_eq (haccess : Access file touch c how i c') :
    c'.pool.slots.size = c.pool.slots.size := by
  cases haccess with
  | found => exact Array.size_modify
  | missed _ hroom hfilled => exact hfilled.size_eq.trans hroom.size_eq

/-- The block is in its slot then, unless it was refused. -/
theorem holds (haccess : Access file touch c how i c') (hhow : how ≠ .refused) :
    ∃ s, c'.pool.slots[i]? = some s ∧ s.key = some touch.key := by
  cases haccess with
  | found hs hkey => exact ⟨_, Pool.getElem?_modify_self hs, by rw [Slot.key_bump, hkey]⟩
  | missed _ hroom hfilled =>
      obtain ⟨s, hs, -⟩ := hroom.freed
      obtain ⟨g, hslots, hkey⟩ := hfilled.slots_eq
      refine ⟨g s, ?_, (hkey s).trans (if_neg hhow)⟩
      rw [hslots]
      exact Pool.getElem?_modify_self hs

/-- No block but the one that was asked for is in its slot then. -/
theorem lodges (haccess : Access file touch c how i c') :
    ∃ s, c'.pool.slots[i]? = some s ∧ ∀ key, s.key = some key → key = touch.key := by
  by_cases hhow : how = .refused
  · subst hhow
    cases haccess with
    | missed _ hroom hfilled =>
        obtain ⟨s, hs, hfree⟩ := hroom.freed
        obtain ⟨g, hslots, hkey⟩ := hfilled.slots_eq
        refine ⟨g s, hslots ▸ Pool.getElem?_modify_self hs, fun key hk => ?_⟩
        rw [hkey, if_pos rfl, hfree] at hk
        cases hk
  · obtain ⟨s, hs, hkey⟩ := haccess.holds hhow
    exact ⟨s, hs, fun key hk => (Option.some.inj (hkey.symm.trans hk)).symm⟩

/-- A block that is in a slot then is the one that was asked for, or was there before. -/
theorem kept (haccess : Access file touch c how i c') {j : Nat} {t : Slot} {key' : BlockId}
    (ht : c'.pool.slots[j]? = some t) (hkey' : t.key = some key') :
    (j = i ∧ key' = touch.key) ∨ ∃ s, c.pool.slots[j]? = some s ∧ s.key = some key' := by
  cases haccess with
  | found hs hkey =>
      rcases Pool.getElem?_modify_cases ht with ⟨s₀, hs₀, rfl, rfl⟩ | ⟨-, ht₀⟩
      · rw [Slot.key_bump] at hkey'
        exact Or.inr ⟨s₀, hs₀, hkey'⟩
      · exact Or.inr ⟨t, ht₀, hkey'⟩
  | missed _ hroom hfilled =>
      obtain ⟨g, hslots, hkey⟩ := hfilled.slots_eq
      rw [hslots] at ht
      rcases Pool.getElem?_modify_cases ht with ⟨s₀, hs₀, rfl, rfl⟩ | ⟨-, ht₀⟩
      · rw [hkey] at hkey'
        split at hkey'
        · exact absurd rfl (hroom.kept hs₀ hkey').1
        · exact Or.inl ⟨rfl, (Option.some.inj hkey').symm⟩
      · exact Or.inr ⟨t, (hroom.kept ht₀ hkey').2, hkey'⟩

/-- A block that is refused is in no slot then. -/
theorem absent (haccess : Access file touch c .refused i c') : c'.Absent touch.key := by
  cases haccess with
  | missed habsent hroom hfilled =>
      obtain ⟨g, hslots, hkey⟩ := hfilled.slots_eq
      intro j t ht hheld
      rw [hslots] at ht
      rcases Pool.getElem?_modify_cases ht with ⟨s, hs, rfl, rfl⟩ | ⟨-, hs⟩
      · rw [hkey, if_pos rfl] at hheld
        exact absurd rfl (hroom.kept hs hheld).1
      · exact habsent _ _ (hroom.kept hs hheld).2 hheld

theorem housed (haccess : Access file touch c how i c') (hc : c.Housed)
    (hf : c.table.get? h = some f) (howner : f.descriptor = touch.key.owner) : c'.Housed := by
  by_cases habsent : c.Absent touch.key
  · exact hc.of_entered haccess.table_eq haccess.slotCount_eq haccess.size_eq hf howner habsent
      haccess.kept
  · cases haccess with
    | missed habsent' => exact absurd habsent' habsent
    | found hs hkey =>
        refine hc.of_fewer (fun _ => rfl) rfl Array.size_modify fun {j t key'} ht hkey' => ?_
        rcases Pool.getElem?_modify_cases ht with ⟨s₀, hs₀, rfl, rfl⟩ | ⟨-, ht₀⟩
        · rw [Slot.key_bump] at hkey'
          exact ⟨s₀, hs₀, hkey'⟩
        · exact ⟨t, ht₀, hkey'⟩

/-- A block is taken just if it is about to be written whole and no slot holds it. -/
theorem taken_iff (haccess : Access file touch c how i c') :
    how = .taken ↔ touch.covers = true ∧ c.pool.holds touch.key = false := by
  cases haccess with
  | found hs hkey =>
      have hholds := holds_iff.mpr ⟨_, _, hs, hkey⟩
      simp [hholds]
  | missed habsent _ hfilled =>
      have hnot := holds_eq_false_iff.mpr habsent
      cases hfilled with
      | loaded hpart | refused hpart | zeroed hpart => simp [hpart]
      | taken hwhole => simp [hwhole, hnot]

end Access

omit [Storage σ φ] in
theorem find_cases (c : Cache σ φ) (key : BlockId) :
    (∃ (i : Nat) (s : Slot) (journal : Array Event), c.pool.slots[i]? = some s ∧ s.key = some key ∧
      find key c = (some i,
        { c with pool := (c.pool.modifySlot i Slot.bump).count Stats.hit, journal })) ∨
    (c.Absent key ∧ find key c = (none, { c with pool := c.pool.count Stats.miss })) := by
  rcases Pool.lookup_cases c.pool key with ⟨i, s, hs, hkey, hlookup⟩ | ⟨habsent, hlookup⟩
  · refine Or.inl ⟨i, s, c.journal ++ Pool.Hit.events key ⟨i, s.bump.frequency⟩, hs, hkey, ?_⟩
    rw [find, bind_apply, onPool_apply, pure_apply, hlookup]
    rfl
  · refine Or.inr ⟨habsent, ?_⟩
    rw [find, bind_apply, onPool_apply, pure_apply, hlookup]
    rfl

/-- A block that is not found has room made for it. -/
theorem room_of_absent (hc : c.Housed) (hpos : 0 < c.pool.capacity) :
    ∃ c₁, makeRoom { c with pool := c.pool.count Stats.miss } = (c.pool.victim, c₁) ∧
      MadeRoom { c with pool := c.pool.count Stats.miss } c₁ := by
  have hmissed : ({ c with pool := c.pool.count Stats.miss } : Cache σ φ).Housed :=
    hc.of_fewer (fun _ => rfl) rfl rfl fun ht hkey => ⟨_, ht, hkey⟩
  obtain ⟨hslot, hroom⟩ := makeRoom_madeRoom hmissed hpos
  exact ⟨_, Prod.ext hslot rfl, hroom⟩

section Reading

variable {block : Nat} {c₁ c₂ : Cache σ φ} {pool : Pool Scan} {storage : σ}

theorem slotToRead_of_found (hfind : find ⟨f.descriptor, block⟩ c = (some i, c₁)) :
    slotToRead f block c = (.ok i, c₁) := by
  rw [slotToRead, bind_apply, hfind]
  rfl

theorem slotToRead_of_ok (hfind : find ⟨f.descriptor, block⟩ c = (none, c₁))
    (hroom : makeRoom c₁ = (i, c₂))
    (hfill : c₂.pool.fill i ⟨f.descriptor, block⟩ (fetchBlock f.file ⟨f.descriptor, block⟩)
      c₂.storage = ((.ok (), pool), storage)) :
    slotToRead f block c = (.ok i, { c₂ with storage, pool }) := by
  rw [slotToRead, bind_apply, hfind]
  dsimp only
  rw [bind_apply, hroom, bind_apply, onPool_apply, hfill]
  rfl

theorem slotToRead_of_error {e : Error} (hfind : find ⟨f.descriptor, block⟩ c = (none, c₁))
    (hroom : makeRoom c₁ = (i, c₂))
    (hfill : c₂.pool.fill i ⟨f.descriptor, block⟩ (fetchBlock f.file ⟨f.descriptor, block⟩)
      c₂.storage = ((.error e, pool), storage)) :
    slotToRead f block c =
      (.error e, { c₂ with
        storage
        pool
        journal := c₂.journal ++ [Event.readFailed ⟨f.descriptor, block⟩ e] }) := by
  rw [slotToRead, bind_apply, hfind]
  dsimp only
  rw [bind_apply, hroom, bind_apply, onPool_apply, hfill]
  rfl

end Reading

/-- A block that is to be read is in a slot then, or is refused. -/
theorem slotToRead_access (hc : c.Housed) (hpos : 0 < c.pool.capacity) (f : OpenFile φ)
    (block : Nat) :
    ∃ how i c', Access f.file ⟨⟨f.descriptor, block⟩, false⟩ c how i c' ∧
      (slotToRead f block c = (.ok i, c') ∧ (how = .found ∨ how = .loaded) ∨
        ∃ fault, slotToRead f block c = (.error (.storage fault), c') ∧ how = .refused) := by
  rcases find_cases c ⟨f.descriptor, block⟩ with
    ⟨i, s, journal, hs, hkey, hfind⟩ | ⟨habsent, hfind⟩
  · have hrun := slotToRead_of_found hfind
    exact ⟨_, i, _, .found hs hkey, Or.inl ⟨hrun, Or.inl rfl⟩⟩
  · obtain ⟨c₁, hmade, hroom⟩ := room_of_absent hc hpos
    rcases hread : Storage.readAt f.file (c₁.pool.blockAt c.pool.victim)
      (BlockId.offset ⟨f.descriptor, block⟩) c₁.storage with ⟨⟨fault | n, bytes⟩, storage⟩
    · have hrun :=
        slotToRead_of_error hfind hmade (Pool.fill_of_error _ (fetchBlock_of_error hread))
      exact ⟨_, _, _, .missed habsent hroom (.refused rfl hread), Or.inr ⟨fault, hrun, rfl⟩⟩
    · have hrun := slotToRead_of_ok hfind hmade (Pool.fill_of_ok _ (fetchBlock_of_ok hread))
      exact ⟨_, _, _, .missed habsent hroom (.loaded rfl hread), Or.inl ⟨hrun, Or.inr rfl⟩⟩

/-- A block that is to be written is in a slot then. -/
theorem slotToWrite_access (hc : c.Housed) (hpos : 0 < c.pool.capacity) (f : OpenFile φ)
    (block : Nat) (whole : Bool) :
    ∃ how i c', Access f.file ⟨⟨f.descriptor, block⟩, whole⟩ c how i c' ∧
      slotToWrite f block whole c = (i, c') ∧ how ≠ .refused := by
  rcases find_cases c ⟨f.descriptor, block⟩ with
    ⟨i, s, journal, hs, hkey, hfind⟩ | ⟨habsent, hfind⟩
  · exact ⟨_, i, _, .found hs hkey, slotToWrite_of_found hfind whole, by decide⟩
  · obtain ⟨c₁, hmade, hroom⟩ := room_of_absent hc hpos
    cases whole with
    | true =>
        exact ⟨_, _, _, .missed habsent hroom (.taken rfl), slotToWrite_of_whole hfind hmade,
          by decide⟩
    | false =>
        rcases hread : Storage.readAt f.file (c₁.pool.blockAt c.pool.victim)
          (BlockId.offset ⟨f.descriptor, block⟩) c₁.storage with ⟨⟨fault | n, bytes⟩, storage⟩
        · exact ⟨_, _, _, .missed habsent hroom (.zeroed rfl hread),
            slotToWrite_of_part hfind hmade
              (Pool.fillOrZero_of_error _ (fetchBlock_of_error hread)),
            by decide⟩
        · exact ⟨_, _, _, .missed habsent hroom (.loaded rfl hread),
            slotToWrite_of_part hfind hmade (Pool.fillOrZero_of_ok _ (fetchBlock_of_ok hread)),
            by decide⟩

/-! ### Transfers -/

omit [Storage σ φ] in
/-- Writing to a slot leaves its block there. -/
theorem tenant_write (pool : Pool Scan) (i start : Nat) (bytes : ByteArray) {j : Nat} {s : Slot}
    (hs : pool.slots[j]? = some s) :
    ∃ s', (pool.write i start bytes).slots[j]? = some s' ∧ s'.tenant = s.tenant := by
  by_cases hj : j = i
  · subst hj
    exact ⟨s.write start bytes, Pool.getElem?_modify_self hs, rfl⟩
  · exact ⟨s, (Pool.getElem?_modify_other hj).trans hs, rfl⟩

theorem Housed.write (hc : c.Housed) (i start : Nat) (bytes : ByteArray) :
    ({ c with pool := c.pool.write i start bytes } : Cache σ φ).Housed :=
  hc.of_tenants (fun _ => rfl) rfl Array.size_modify (tenant_write c.pool i start bytes)

namespace Transfer

variable {parts : List (Touch × How)}

theorem table_eq (htransfer : Transfer f c parts c') : c'.table = c.table := by
  induction htransfer with
  | nil => rfl
  | out _ haccess _ ih | into _ _ _ haccess _ ih => exact ih.trans haccess.table_eq

theorem slotCount_eq (htransfer : Transfer f c parts c') : c'.slotCount = c.slotCount := by
  induction htransfer with
  | nil => rfl
  | out _ haccess _ ih | into _ _ _ haccess _ ih => exact ih.trans haccess.slotCount_eq

theorem size_eq (htransfer : Transfer f c parts c') :
    c'.pool.slots.size = c.pool.slots.size := by
  induction htransfer with
  | nil => rfl
  | out _ haccess _ ih => exact ih.trans haccess.size_eq
  | into _ _ _ haccess _ ih => exact ih.trans (Array.size_modify.trans haccess.size_eq)

/-- All blocks that are asked for are of the file. -/
theorem owner_eq (htransfer : Transfer f c parts c') {p : Touch × How} (hp : p ∈ parts) :
    f.descriptor = p.1.key.owner := by
  induction htransfer with
  | nil => cases hp
  | out howner _ _ ih | into _ _ howner _ _ ih =>
      rcases List.mem_cons.mp hp with rfl | hp
      · exact howner
      · exact ih hp

theorem housed (htransfer : Transfer f c parts c') (hc : c.Housed) {f' : OpenFile φ}
    (hf : c.table.get? h = some f') (howner : f'.descriptor = f.descriptor) : c'.Housed := by
  induction htransfer with
  | nil => exact hc
  | out hkey haccess _ ih =>
      exact ih (haccess.housed hc hf (howner.trans hkey)) (by rw [haccess.table_eq, hf])
  | into start bytes hkey haccess _ ih =>
      exact ih ((haccess.housed hc hf (howner.trans hkey)).write _ start bytes)
        ((congrArg (·.get? h) haccess.table_eq).trans hf)

end Transfer

def touchToRead (f : OpenFile φ) (chunk : Chunk) : Touch := ⟨⟨f.descriptor, chunk.block⟩, false⟩

def touchToWrite (f : OpenFile φ) (chunk : Chunk) : Touch :=
  ⟨⟨f.descriptor, chunk.block⟩, chunk.length = blockSize⟩

theorem copyOut_of_ok {n : Nat} (chunk : Chunk) {rest : List Chunk} {buffer : Buffer n}
    (hslot : slotToRead f chunk.block c = (.ok i, c')) :
    copyOut f (chunk :: rest) buffer c = copyOut f rest (buffer.blit chunk.position
      (Bytes.slice (c'.pool.blockAt i).bytes chunk.start chunk.length)) c' := by
  rw [copyOut, bind_apply, hslot]
  rfl

theorem copyOut_of_error {n : Nat} (chunk : Chunk) {rest : List Chunk} {buffer : Buffer n}
    {e : Error} (hslot : slotToRead f chunk.block c = (.error e, c')) :
    copyOut f (chunk :: rest) buffer c = ((.error e, buffer), c') := by
  rw [copyOut, bind_apply, hslot]
  rfl

/-- Copying out that comes to its end had the block of its first chunk. -/
theorem copyOut_cons_ok {n : Nat} {chunk : Chunk} {rest : List Chunk} {buffer buffer' : Buffer n}
    (hcopy : copyOut f (chunk :: rest) buffer c = ((.ok (), buffer'), c')) :
    ∃ i c₁, slotToRead f chunk.block c = (.ok i, c₁) ∧
      copyOut f rest (buffer.blit chunk.position
        (Bytes.slice (c₁.pool.blockAt i).bytes chunk.start chunk.length)) c₁ =
        ((.ok (), buffer'), c') := by
  rcases hslot : slotToRead f chunk.block c with ⟨e | i, c₁⟩
  · rw [copyOut_of_error chunk hslot] at hcopy
    cases (Prod.mk.inj (Prod.mk.inj hcopy).1).1
  · rw [copyOut_of_ok chunk hslot] at hcopy
    exact ⟨i, c₁, rfl, hcopy⟩

/-- Copying out asks for the blocks of the chunks up to the first one that is refused. -/
theorem copyOut_transfer {n : Nat} (hc : c.Housed) (hf : c.table.get? h = some f)
    (cs : List Chunk) (buffer : Buffer n) :
    ∃ parts, Transfer f c parts (copyOut f cs buffer c).2 ∧
      ((copyOut f cs buffer c).1.1 = .ok () ∧ parts.map (·.1) = cs.map (touchToRead f) ∧
          (∀ p ∈ parts, p.2 = .found ∨ p.2 = .loaded) ∨
        ∃ fault got refused, (copyOut f cs buffer c).1.1 = .error (.storage fault) ∧
          parts = got ++ [(refused, .refused)] ∧ ∀ p ∈ got, p.2 = .found ∨ p.2 = .loaded) := by
  induction cs generalizing c buffer with
  | nil => exact ⟨[], .nil c, Or.inl ⟨rfl, rfl, fun _ hp => nomatch hp⟩⟩
  | cons chunk rest ih =>
      obtain ⟨how, i, c₁, haccess, ⟨hslot, hhow⟩ | ⟨fault, hslot, rfl⟩⟩ :=
        slotToRead_access hc (hc.capacity_pos hf) f chunk.block
      · obtain ⟨parts, htransfer, hend⟩ := ih (haccess.housed hc hf rfl)
          (haccess.table_eq ▸ hf) (buffer.blit chunk.position
            (Bytes.slice (c₁.pool.blockAt i).bytes chunk.start chunk.length))
        have hfirst : ∀ p ∈ [((⟨⟨f.descriptor, chunk.block⟩, false⟩ : Touch), how)],
            p.2 = .found ∨ p.2 = .loaded := fun p hp => List.mem_singleton.mp hp ▸ hhow
        rw [copyOut_of_ok chunk hslot]
        refine ⟨_, .out rfl haccess htransfer, ?_⟩
        rcases hend with ⟨hok, hparts, hhows⟩ | ⟨fault, got, refused, herror, rfl, hhows⟩
        · exact Or.inl ⟨hok, congrArg (List.cons _) hparts,
            fun p hp =>
              (List.mem_append.mp (show p ∈ [_] ++ parts from hp)).elim (hfirst p) (hhows p)⟩
        · exact Or.inr ⟨fault, _ :: got, refused, herror, rfl,
            fun p hp =>
              (List.mem_append.mp (show p ∈ [_] ++ got from hp)).elim (hfirst p) (hhows p)⟩
      · rw [copyOut_of_error chunk hslot]
        exact ⟨_, .out rfl haccess (.nil c₁),
          Or.inr ⟨fault, [], _, rfl, rfl, fun _ hp => nomatch hp⟩⟩

/-- The number of chunks that are written whole to a block that no slot holds when its turn
comes. -/
def takenIn (f : OpenFile φ) (data : ByteArray) : List Chunk → Cache σ φ → Nat
  | [], _ => 0
  | chunk :: rest, c =>
      (if chunk.length = blockSize ∧ c.pool.holds ⟨f.descriptor, chunk.block⟩ = false
        then 1 else 0) + takenIn f data rest (copyIn f data [chunk] c).2

theorem copyIn_single {data : ByteArray} {chunk : Chunk}
    (hslot : slotToWrite f chunk.block (chunk.length = blockSize) c = (i, c')) :
    (copyIn f data [chunk] c).2 = { c' with
      pool := c'.pool.write i chunk.start (Bytes.slice data chunk.position chunk.length) } := by
  rw [copyIn, bind_apply, hslot]
  rfl

/-- Copying in asks for the blocks of all chunks. -/
theorem copyIn_transfer {f' : OpenFile φ} (hc : c.Housed) (hf : c.table.get? h = some f')
    (howner : f'.descriptor = f.descriptor) (data : ByteArray) (cs : List Chunk) :
    ∃ parts, Transfer f c parts (copyIn f data cs c).2 ∧
      parts.map (·.1) = cs.map (touchToWrite f) ∧ (∀ p ∈ parts, p.2 ≠ .refused) ∧
      parts.countP (·.2 = .taken) = takenIn f data cs c := by
  induction cs generalizing c with
  | nil => exact ⟨[], .nil c, rfl, fun _ hp => (nomatch hp), rfl⟩
  | cons chunk rest ih =>
      obtain ⟨how, i, c₁, haccess, hslot, hhow⟩ := slotToWrite_access hc (hc.capacity_pos hf) f
        chunk.block (chunk.length = blockSize)
      obtain ⟨parts, htransfer, hparts, hhows, htaken⟩ := ih
        ((haccess.housed hc hf howner).write i chunk.start
          (Bytes.slice data chunk.position chunk.length))
        ((congrArg (·.get? h) haccess.table_eq).trans hf)
      have hfirst := haccess.taken_iff
      rw [decide_eq_true_iff] at hfirst
      rw [copyIn_cons, takenIn, copyIn_single hslot]
      refine ⟨_, .into chunk.start (Bytes.slice data chunk.position chunk.length) rfl haccess
        htransfer, congrArg (List.cons _) hparts, List.forall_mem_cons.mpr ⟨hhow, hhows⟩, ?_⟩
      rw [List.countP_cons, htaken, Nat.add_comm]
      simp only [hfirst, decide_eq_true_eq]

end Cache

end BlockCache
