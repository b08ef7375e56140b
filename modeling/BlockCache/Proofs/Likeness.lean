import BlockCache.Proofs.Pool
import Mathlib.Data.List.Forall2

/-!
Pools that look alike. In alike pools the same blocks lie in the same slots, equally dirty and
equally often asked for, and the bytes of a block agree if its owner is one whose files are shown.
Every operation of a pool answers two alike pools in the same way and leaves them alike. The bytes
of a free slot never matter, so whatever lies there from an earlier block has to be replaced before
the slot is taken by a block that is shown.
-/

namespace BlockCache

/-! ### Slots -/

namespace Slot

/-- Whether two slots look alike to whom the blocks of some owners are shown. -/
structure Alike (shown : Descriptor → Prop) (s s' : Slot) : Prop where
  dirty_eq : s.dirty = s'.dirty
  tenant_eq : s.tenant = s'.tenant
  block_eq : ∀ key, s.key = some key → shown key.owner → s.block = s'.block

variable {shown : Descriptor → Prop} {s s' : Slot} {key : BlockId} {block block' : Block}
  {bytes bytes' : ByteArray}

theorem alike_refl (s : Slot) : Alike shown s s := ⟨rfl, rfl, fun _ _ _ => rfl⟩

theorem alike_vacated (s s' : Slot) : Alike shown s.vacated s'.vacated :=
  ⟨rfl, rfl, fun _ hkey _ => nomatch hkey⟩

/-- A slot that is filled for a block gets the bytes of the block, if it is shown. -/
theorem alike_assign (s s' : Slot) (h : shown key.owner → block = block') :
    Alike shown ((s.setBlock block).assign key) ((s'.setBlock block').assign key) := by
  refine ⟨rfl, rfl, fun key' hkey hshown => ?_⟩
  obtain rfl := Option.some.inj hkey
  exact h hshown

/-- A slot that is taken as it is gets the bytes of the block when all of them are written. -/
theorem alike_assign_write (s s' : Slot) (hsize : bytes.size = blockSize)
    (h : shown key.owner → bytes = bytes') :
    Alike shown ((s.assign key).write 0 bytes) ((s'.assign key).write 0 bytes') := by
  refine ⟨rfl, rfl, fun key' hkey hshown => Buffer.ext_byteAt fun i hi => ?_⟩
  obtain rfl := Option.some.inj hkey
  obtain rfl := h hshown
  have hin : 0 ≤ i ∧ i < 0 + bytes.size := by omega
  rw [byteAt_write _ _ _ hi, byteAt_write _ _ _ hi, if_pos hin, if_pos hin]

namespace Alike

variable (h : Alike shown s s')
include h

theorem bump : Alike shown s.bump s'.bump where
  dirty_eq := h.dirty_eq
  tenant_eq := congrArg (Option.map _) h.tenant_eq
  block_eq key hkey := by
    rw [key_bump] at hkey
    exact h.block_eq key hkey

theorem cleaned : Alike shown s.cleaned s'.cleaned := ⟨rfl, h.tenant_eq, h.block_eq⟩

/-- A free slot may get any bytes. -/
theorem setBlock (hfree : s.key = none) (block block' : Block) :
    Alike shown (s.setBlock block) (s'.setBlock block') := by
  refine ⟨h.dirty_eq, h.tenant_eq, fun key hkey => ?_⟩
  rw [key_setBlock, hfree] at hkey
  cases hkey

theorem write (start : Nat) (hbytes : ∀ key, s.key = some key → shown key.owner → bytes = bytes') :
    Alike shown (s.write start bytes) (s'.write start bytes') where
  dirty_eq := rfl
  tenant_eq := h.tenant_eq
  block_eq key hkey hshown := by
    show s.block.blit start bytes = s'.block.blit start bytes'
    rw [h.block_eq key hkey hshown, hbytes key hkey hshown]

end Alike

end Slot

/-! ### Pools -/

namespace Pool

/-- Whether two pools look alike to whom the blocks of some owners are shown. -/
structure Alike (shown : Descriptor → Prop) (p p' : Pool Scan) : Prop where
  stats_eq : p.stats = p'.stats
  slots : ∀ i : Nat, Option.Rel (Slot.Alike shown) p.slots[i]? p'.slots[i]?

variable {shown shown' : Descriptor → Prop} {p p' : Pool Scan}

theorem alike_refl (p : Pool Scan) : Alike shown p p where
  stats_eq := rfl
  slots i := by
    cases p.slots[i]? with
    | none => exact .none
    | some s => exact .some (Slot.alike_refl s)

namespace Alike

/-- What there is in a slot of one of two alike pools, there is in that slot of the other one. -/
theorem getElem? (h : Alike shown p p') {i : Nat} {s : Slot} (hs : p.slots[i]? = some s) :
    ∃ s', p'.slots[i]? = some s' ∧ Slot.Alike shown s s' := by
  have hslot := h.slots i
  rw [hs] at hslot
  cases hs' : p'.slots[i]? with
  | none =>
      rw [hs'] at hslot
      cases hslot
  | some s' =>
      rw [hs'] at hslot
      cases hslot with
      | some hlike => exact ⟨s', rfl, hlike⟩

theorem getElem?_none (h : Alike shown p p') {i : Nat} (hs : p.slots[i]? = none) :
    p'.slots[i]? = none := by
  have hslot := h.slots i
  rw [hs] at hslot
  cases hs' : p'.slots[i]? with
  | none => rfl
  | some s' =>
      rw [hs'] at hslot
      cases hslot

/-- What is told of slots from their tenants and whether they are dirty is the same for both. -/
theorem map_eq {α : Type} (h : Alike shown p p') (face : Slot → α)
    (hface : ∀ s s', Slot.Alike shown s s' → face s = face s') :
    p.slots.map face = p'.slots.map face := by
  apply Array.ext_getElem?
  intro i
  rw [Array.getElem?_map, Array.getElem?_map]
  cases hs : p.slots[i]? with
  | none => rw [h.getElem?_none hs]
  | some s =>
      obtain ⟨s', hs', hlike⟩ := h.getElem? hs
      rw [hs', Option.map_some, Option.map_some, hface s s' hlike]

theorem capacity_eq (h : Alike shown p p') : p.capacity = p'.capacity := by
  have hsize := congrArg Array.size (h.map_eq (fun _ => ()) fun _ _ _ => rfl)
  rwa [Array.size_map, Array.size_map] at hsize

theorem findIdx?_eq (h : Alike shown p p') (test : Slot → Bool)
    (htest : ∀ s s', Slot.Alike shown s s' → test s = test s') :
    p.slots.findIdx? test = p'.slots.findIdx? test := by
  have hmap := congrArg (Array.findIdx? id) (h.map_eq test htest)
  rwa [Array.findIdx?_map, Array.findIdx?_map] at hmap

/-- Pools are alike to whom less is shown, or only blocks that neither of them has. -/
theorem imp (h : Alike shown p p') (hshown : ∀ {i : Nat} {s : Slot} {key : BlockId},
    p.slots[i]? = some s → s.key = some key → shown' key.owner → shown key.owner) :
    Alike shown' p p' where
  stats_eq := h.stats_eq
  slots i := by
    cases hs : p.slots[i]? with
    | none =>
        rw [h.getElem?_none hs]
        exact .none
    | some s =>
        obtain ⟨s', hs', hlike⟩ := h.getElem? hs
        rw [hs']
        exact .some ⟨hlike.dirty_eq, hlike.tenant_eq,
          fun key hkey hk => hlike.block_eq key hkey (hshown hs hkey hk)⟩

/-- Changing one slot of each of two alike pools leaves them alike if the two slots are. -/
theorem modifySlot (h : Alike shown p p') {i : Nat} {g g' : Slot → Slot}
    (hslot : ∀ s s', p.slots[i]? = some s → Slot.Alike shown s s' →
      Slot.Alike shown (g s) (g' s')) :
    Alike shown (p.modifySlot i g) (p'.modifySlot i g') where
  stats_eq := h.stats_eq
  slots j := by
    rw [slots_modifySlot, slots_modifySlot, Array.getElem?_modify, Array.getElem?_modify]
    cases hs : p.slots[j]? with
    | none =>
        rw [h.getElem?_none hs]
        split <;> exact .none
    | some s =>
        obtain ⟨s', hs', hlike⟩ := h.getElem? hs
        rw [hs']
        split
        · rename_i hij
          exact .some (hslot s s' (hij ▸ hs) hlike)
        · exact .some hlike

theorem count (h : Alike shown p p') (f : Stats → Stats) :
    Alike shown (p.count f) (p'.count f) := ⟨congrArg f h.stats_eq, h.slots⟩

/-! ### Operations -/

theorem frequencyAt_eq (h : Alike shown p p') (i : Nat) : p.frequencyAt i = p'.frequencyAt i := by
  rw [frequencyAt, frequencyAt]
  cases hs : p.slots[i]? with
  | none => rw [h.getElem?_none hs]
  | some s =>
      obtain ⟨s', hs', hlike⟩ := h.getElem? hs
      rw [hs']
      dsimp only
      rw [Slot.frequency, Slot.frequency, hlike.tenant_eq]

theorem holds_eq (h : Alike shown p p') (key : BlockId) : p.holds key = p'.holds key := by
  have hmap := congrArg (Array.any · id) (h.map_eq (·.holds key) fun s s' hlike => by
    rw [Slot.holds, Slot.holds, hlike.tenant_eq])
  rwa [Array.any_map, Array.any_map] at hmap

theorem lookup (h : Alike shown p p') (key : BlockId) :
    (p.lookup key).1 = (p'.lookup key).1 ∧ Alike shown (p.lookup key).2 (p'.lookup key).2 := by
  have hfind : Lookup.find p.index p.slots key = Lookup.find p'.index p'.slots key :=
    h.findIdx?_eq _ fun s s' hlike => by rw [Slot.holds, Slot.holds, hlike.tenant_eq]
  rw [Pool.lookup, Pool.lookup, ← hfind]
  cases Lookup.find p.index p.slots key with
  | none => exact ⟨rfl, h.count _⟩
  | some i =>
      have hnext := (h.modifySlot fun s s' (_ : p.slots[i]? = some s) hlike => hlike.bump).count
        Stats.hit
      dsimp only
      rw [hnext.frequencyAt_eq i]
      exact ⟨rfl, hnext⟩

theorem victim_eq (h : Alike shown p p') : p.victim = p'.victim := by
  have hfrequency : ∀ s s', Slot.Alike shown s s' → s.frequency = s'.frequency := by
    intro s s' hlike
    rw [Slot.frequency, Slot.frequency, hlike.tenant_eq]
  have hfree := h.findIdx?_eq Slot.isFree fun s s' hlike => by
    rw [Slot.isFree, Slot.isFree, hlike.tenant_eq]
  have hevicted : evictedFrequency p.slots = evictedFrequency p'.slots := by
    have hmap := h.map_eq Slot.frequency hfrequency
    have hfold : ∀ (slots : Array Slot), evictedFrequency slots =
        (slots.map Slot.frequency).foldl (fun best f => if goesBefore f best then f else best)
          ((slots.map Slot.frequency)[0]?.getD 0) := by
      intro slots
      rw [evictedFrequency, Array.foldl_map, Array.getElem?_map]
    rw [hfold, hfold, hmap]
  rw [victim, victim, ← hfree]
  cases p.slots.findIdx? Slot.isFree with
  | some i => rfl
  | none =>
      dsimp only
      rw [hevicted, h.findIdx?_eq _ fun s s' hlike => by rw [hfrequency s s' hlike]]

theorem vacate (h : Alike shown p p') (i : Nat) (key : BlockId) :
    Alike shown (p.vacate i key) (p'.vacate i key) :=
  ⟨h.stats_eq,
    (h.modifySlot fun s s' (_ : p.slots[i]? = some s) _ => Slot.alike_vacated s s').slots⟩

theorem evict (h : Alike shown p p') (i : Nat) (eviction : Eviction) :
    Alike shown (p.evict i eviction) (p'.evict i eviction) := by
  have hnext := (h.vacate i eviction.key).count Stats.evicted
  rw [Pool.evict, Pool.evict]
  cases eviction.writeBack with
  | none => exact hnext
  | some outcome => exact hnext.count _

/-- A slot that is taken by a block gets bytes that agree, if the block is shown. -/
theorem take (h : Alike shown p p') (i : Nat) {key : BlockId} {block block' : Block}
    (f : Stats → Stats) (hblock : shown key.owner → block = block') :
    Alike shown (((p.modifySlot i (·.setBlock block)).assign i key).count f)
      (((p'.modifySlot i (·.setBlock block')).assign i key).count f) where
  stats_eq := congrArg f h.stats_eq
  slots := by
    rw [slots_take, slots_take]
    exact (h.modifySlot fun s s' (_ : p.slots[i]? = some s) _ =>
      Slot.alike_assign s s' hblock).slots

theorem assign_write (h : Alike shown p p') (i : Nat) {key : BlockId} {bytes bytes' : ByteArray}
    (hsize : bytes.size = blockSize) (hbytes : shown key.owner → bytes = bytes') :
    Alike shown ((p.assign i key).write i 0 bytes) ((p'.assign i key).write i 0 bytes') where
  stats_eq := h.stats_eq
  slots := by
    rw [slots_assign_write, slots_assign_write]
    exact (h.modifySlot fun s s' (_ : p.slots[i]? = some s) _ =>
      Slot.alike_assign_write s s' hsize hbytes).slots

theorem write (h : Alike shown p p') (i start : Nat) {bytes bytes' : ByteArray}
    (hbytes : ∀ s key, p.slots[i]? = some s → s.key = some key → shown key.owner →
      bytes = bytes') :
    Alike shown (p.write i start bytes) (p'.write i start bytes') :=
  h.modifySlot fun s _ hs hlike => hlike.write start fun key => hbytes s key hs

theorem settle (h : Alike shown p p') (attempt : WriteAttempt) :
    Alike shown (p.settle attempt) (p'.settle attempt) := by
  have hcount := h.count (·.wroteBack (succeeded attempt.outcome))
  rw [Pool.settle, Pool.settle]
  split
  · exact hcount.modifySlot fun _ _ _ hlike => hlike.cleaned
  · exact hcount

theorem foldl {α : Type} (h : Alike shown p p') {f : Pool Scan → α → Pool Scan}
    (hf : ∀ {p p'} a, Alike shown p p' → Alike shown (f p a) (f p' a)) (as : List α) :
    Alike shown (as.foldl f p) (as.foldl f p') := by
  induction as generalizing p p' with
  | nil => exact h
  | cons a rest ih => exact ih (hf a h)

theorem residents_eq (h : Alike shown p p') (owner : Descriptor) :
    p.residents owner = p'.residents owner := by
  have hmap := h.map_eq (·.tenant) fun s s' hlike => hlike.tenant_eq
  have hpick : ∀ q : Pool Scan, q.residents owner =
      (q.slots.map (·.tenant)).toList.zipIdx.filterMap fun entry =>
        entry.1.bind fun tenant =>
          if tenant.key.owner = owner then some (entry.2, tenant.key) else none := by
    intro q
    rw [residents, Array.toList_map, List.zipIdx_map, List.filterMap_map]
    refine List.filterMap_congr fun x _ => ?_
    obtain ⟨⟨block, dirty, tenant⟩, i⟩ := x
    cases tenant <;> rfl
  rw [hpick, hpick, hmap]

theorem forget (h : Alike shown p p') (owner : Descriptor) :
    (p.forget owner).1 = (p'.forget owner).1 ∧
      Alike shown (p.forget owner).2 (p'.forget owner).2 := by
  rw [Pool.forget, Pool.forget, ← h.residents_eq owner]
  exact ⟨rfl, h.foldl (fun resident h => h.vacate resident.1 resident.2) _⟩

section Transferring

variable {β : Type} {R : β → β → Prop} {b b' : β} {key : BlockId}
  {writeBack : BlockId → Block → StateM β (Except Error Unit)}
  {read : Block → StateM β (Except Error Nat × Block)}

/-- Whether writing a block back does the same to alike states, as far as the block is shown. -/
def WritesAlike (shown : Descriptor → Prop) (R : β → β → Prop)
    (writeBack : BlockId → Block → StateM β (Except Error Unit)) (key : BlockId) : Prop :=
  ∀ {block block' : Block} {b b' : β}, (shown key.owner → block = block') → R b b' →
    (writeBack key block b).1 = (writeBack key block' b').1 ∧
      R (writeBack key block b).2 (writeBack key block' b').2

theorem makeRoom (h : Alike shown p p') (hwrite : ∀ key, WritesAlike shown R writeBack key)
    (hb : R b b') :
    (p.makeRoom writeBack b).1.1 = (p'.makeRoom writeBack b').1.1 ∧
      Alike shown (p.makeRoom writeBack b).1.2 (p'.makeRoom writeBack b').1.2 ∧
      R (p.makeRoom writeBack b).2 (p'.makeRoom writeBack b').2 := by
  have hvictim := h.victim_eq
  cases hs : p.slots[p.victim]? with
  | none =>
      have hs' := h.getElem?_none hs
      rw [hvictim] at hs'
      rw [p.makeRoom_of_none _ hs, p'.makeRoom_of_none _ hs', hvictim]
      exact ⟨rfl, h, hb⟩
  | some s =>
      obtain ⟨s', hs', hlike⟩ := h.getElem? hs
      rw [hvictim] at hs'
      obtain ⟨block, dirty, tenant⟩ := s
      obtain ⟨block', dirty', tenant'⟩ := s'
      obtain rfl : dirty = dirty' := hlike.dirty_eq
      obtain rfl : tenant = tenant' := hlike.tenant_eq
      cases tenant with
      | none =>
          rw [p.makeRoom_of_free _ hs rfl, p'.makeRoom_of_free _ hs' rfl, hvictim]
          exact ⟨rfl, h, hb⟩
      | some tenant =>
          cases dirty with
          | false =>
              rw [p.makeRoom_of_clean _ hs, p'.makeRoom_of_clean _ hs', hvictim]
              exact ⟨rfl, h.evict p'.victim ⟨tenant.key, tenant.frequency, none⟩, hb⟩
          | true =>
              obtain ⟨houtcome, hnext⟩ := hwrite tenant.key (hlike.block_eq tenant.key rfl) hb
              rw [p.makeRoom_of_dirty _ hs, p'.makeRoom_of_dirty _ hs', hvictim, houtcome]
              exact ⟨rfl, h.evict p'.victim ⟨tenant.key, tenant.frequency, some _⟩, hnext⟩

/-- Whether reading a block in does the same to alike states, and delivers the same if the block is
shown, whatever was in the slot before. -/
def ReadsAlike (shown : Descriptor → Prop) (R : β → β → Prop) (key : BlockId)
    (read : Block → StateM β (Except Error Nat × Block)) : Prop :=
  ∀ {b b' : β} (block block' : Block), R b b' →
    (read block b).1.1 = (read block' b').1.1 ∧ R (read block b).2 (read block' b').2 ∧
      ∀ n, (read block b).1.1 = .ok n → shown key.owner →
        (read block b).1.2.zeroFrom n = (read block' b').1.2.zeroFrom n

/-- A free slot is filled alike; if that fails it may be left with any bytes. -/
theorem fill (h : Alike shown p p') (hread : ReadsAlike shown R key read) (hb : R b b') {i : Nat}
    {s : Slot} (hs : p.slots[i]? = some s) (hfree : s.key = none) :
    (p.fill i key read b).1.1 = (p'.fill i key read b').1.1 ∧
      Alike shown (p.fill i key read b).1.2 (p'.fill i key read b').1.2 ∧
      R (p.fill i key read b).2 (p'.fill i key read b').2 := by
  obtain ⟨houtcome, hnext, hblock⟩ := hread (p.blockAt i) (p'.blockAt i) hb
  rcases hrun : read (p.blockAt i) b with ⟨⟨outcome, block⟩, b₁⟩
  rcases hrun' : read (p'.blockAt i) b' with ⟨⟨outcome', block'⟩, b₁'⟩
  rw [hrun, hrun'] at houtcome hnext hblock
  obtain rfl : outcome = outcome' := houtcome
  cases outcome with
  | ok n =>
      rw [fill_of_ok _ hrun, fill_of_ok _ hrun']
      exact ⟨rfl, h.take i _ (hblock n rfl), hnext⟩
  | error e =>
      rw [fill_of_error _ hrun, fill_of_error _ hrun']
      refine ⟨rfl, h.modifySlot fun t _ ht hlike => hlike.setBlock ?_ _ _, hnext⟩
      rw [Option.some.inj (ht.symm.trans hs), hfree]

theorem fillOrZero (h : Alike shown p p') (hread : ReadsAlike shown R key read) (hb : R b b')
    (i : Nat) :
    (p.fillOrZero i key read b).1.1 = (p'.fillOrZero i key read b').1.1 ∧
      Alike shown (p.fillOrZero i key read b).1.2 (p'.fillOrZero i key read b').1.2 ∧
      R (p.fillOrZero i key read b).2 (p'.fillOrZero i key read b').2 := by
  obtain ⟨houtcome, hnext, hblock⟩ := hread (p.blockAt i) (p'.blockAt i) hb
  rcases hrun : read (p.blockAt i) b with ⟨⟨outcome, block⟩, b₁⟩
  rcases hrun' : read (p'.blockAt i) b' with ⟨⟨outcome', block'⟩, b₁'⟩
  rw [hrun, hrun'] at houtcome hnext hblock
  obtain rfl : outcome = outcome' := houtcome
  cases outcome with
  | ok n =>
      rw [fillOrZero_of_ok _ hrun, fillOrZero_of_ok _ hrun']
      exact ⟨rfl, h.take i _ (hblock n rfl), hnext⟩
  | error e =>
      rw [fillOrZero_of_error _ hrun, fillOrZero_of_error _ hrun']
      exact ⟨rfl, h.take i _ fun _ => rfl, hnext⟩

/-- However a block is read in, its slot holds it afterwards. -/
theorem key_fillOrZero {q : Pool Scan} {i : Nat} {t : Slot} {failure : Option Error}
    (hfill : p.fillOrZero i key read b = ((failure, q), b')) (ht : q.slots[i]? = some t) :
    t.key = some key := by
  have htaken : ∃ block, q.slots = p.slots.modify i fun s => (s.setBlock block).assign key := by
    rcases hrun : read (p.blockAt i) b with ⟨⟨outcome, block⟩, b₁⟩
    cases outcome with
    | ok n =>
        rw [fillOrZero_of_ok _ hrun] at hfill
        obtain ⟨hresult, -⟩ := Prod.mk.inj hfill
        obtain ⟨-, rfl⟩ := Prod.mk.inj hresult
        exact ⟨_, slots_take _ _ _ _ _⟩
    | error e =>
        rw [fillOrZero_of_error _ hrun] at hfill
        obtain ⟨hresult, -⟩ := Prod.mk.inj hfill
        obtain ⟨-, rfl⟩ := Prod.mk.inj hresult
        exact ⟨_, slots_take _ _ _ _ _⟩
  obtain ⟨block, hslots⟩ := htaken
  rw [hslots] at ht
  rcases getElem?_modify_cases ht with ⟨s, -, -, rfl⟩ | ⟨hne, -⟩
  · exact Slot.key_assign _ _
  · exact absurd rfl hne

/-- Dirty blocks in the same slots, of which those that are shown agree. -/
def DirtyAlike (shown : Descriptor → Prop) (d d' : DirtyBlock) : Prop :=
  d.slot = d'.slot ∧ d.key = d'.key ∧ (shown d.key.owner → d.block = d'.block)

theorem dirtyBlocks (h : Alike shown p p') (owner : Descriptor) :
    List.Forall₂ (DirtyAlike shown) (p.dirtyBlocks owner) (p'.dirtyBlocks owner) := by
  have hslots : List.Forall₂ (fun x y => Slot.Alike shown x.1 y.1 ∧ x.2 = y.2)
      p.slots.toList.zipIdx p'.slots.toList.zipIdx := by
    have hsize : p.slots.size = p'.slots.size := h.capacity_eq
    refine List.forall₂_iff_get.mpr ⟨by simp [hsize], fun i hi hi' => ?_⟩
    rw [List.length_zipIdx, Array.length_toList] at hi hi'
    have hslot := h.slots i
    rw [Array.getElem?_eq_getElem hi, Array.getElem?_eq_getElem hi'] at hslot
    cases hslot with
    | some hlike =>
        simp only [List.get_eq_getElem, List.getElem_zipIdx, Array.getElem_toList]
        exact ⟨hlike, trivial⟩
  refine List.rel_filterMap ?_ hslots
  rintro ⟨⟨block, dirty, tenant⟩, i⟩ ⟨⟨block', dirty', tenant'⟩, i'⟩ ⟨hlike, hi⟩
  obtain rfl : dirty = dirty' := hlike.dirty_eq
  obtain rfl : tenant = tenant' := hlike.tenant_eq
  obtain rfl : i = i' := hi
  cases tenant with
  | none => cases dirty <;> exact .none
  | some tenant =>
      cases dirty with
      | false => exact .none
      | true =>
          dsimp only
          split
          · exact .some ⟨rfl, rfl, fun hshown => hlike.block_eq tenant.key rfl hshown⟩
          · exact .none

theorem writeAll {dirty dirty' : List DirtyBlock}
    (hwrite : ∀ d ∈ dirty, WritesAlike shown R writeBack d.key)
    (hdirty : List.Forall₂ (DirtyAlike shown) dirty dirty') (hb : R b b') :
    (Pool.writeAll writeBack dirty b).1 = (Pool.writeAll writeBack dirty' b').1 ∧
      R (Pool.writeAll writeBack dirty b).2 (Pool.writeAll writeBack dirty' b').2 := by
  induction hdirty generalizing b b' with
  | nil => exact ⟨rfl, hb⟩
  | cons hfirst _ ih =>
      obtain ⟨hslot, hkey, hblock⟩ := hfirst
      obtain ⟨houtcome, hnext⟩ := hwrite _ List.mem_cons_self hblock hb
      obtain ⟨hattempts, hlast⟩ := ih (fun d hd => hwrite d (List.mem_cons_of_mem _ hd)) hnext
      rw [writeAll_cons, writeAll_cons, ← hslot, ← hkey, houtcome, hattempts]
      exact ⟨rfl, hlast⟩

theorem flush (h : Alike shown p p') (owner : Descriptor)
    (hwrite : ∀ key, key.owner = owner → WritesAlike shown R writeBack key) (hb : R b b') :
    (p.flush owner writeBack b).1.1 = (p'.flush owner writeBack b').1.1 ∧
      Alike shown (p.flush owner writeBack b).1.2 (p'.flush owner writeBack b').1.2 ∧
      R (p.flush owner writeBack b).2 (p'.flush owner writeBack b').2 := by
  have hdirty : ∀ d ∈ p.dirtyBlocks owner, WritesAlike shown R writeBack d.key := by
    intro d hd
    obtain ⟨-, -, -, howner⟩ := p.mem_dirtyBlocks.mp hd
    exact hwrite d.key howner
  obtain ⟨hattempts, hnext⟩ := writeAll hdirty (h.dirtyBlocks owner) hb
  rw [flush_apply, flush_apply, ← hattempts]
  exact ⟨rfl, h.foldl (fun attempt h => h.settle attempt) _, hnext⟩

end Transferring

end Alike

end Pool

end BlockCache
