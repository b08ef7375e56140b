import BlockCache.Proofs.Disk
import Mathlib.Logic.Function.Basic

/-!
What a cache and its storage together hold of the open files. An image gives every open file its
bytes; a cache is coupled to an image if every block of an open file is where it should be: in its
slot, and in the storage unless the slot is dirty. Blocks that were lost are excepted: those that
could not be stored when they were evicted, and those that could not be read in before a part of
them was written.

Every step keeps a cache coupled, to an image that changes only by what is stored into the pool.
-/

namespace BlockCache

/-- The bytes of a file with those from an offset on replaced. -/
def patch (bytes : Nat → UInt8) (offset : Nat) (data : ByteArray) (i : Nat) : UInt8 :=
  if offset ≤ i ∧ i < offset + data.size then Bytes.byteAt data (i - offset) else bytes i

/-- Bytes that replace others within a block leave the other blocks alone. -/
theorem patch_other {bytes : Nat → UInt8} {b b' start p : Nat} {data : ByteArray}
    (hfits : start + data.size ≤ blockSize) (hb : b' ≠ b) (hp : p < blockSize) :
    patch bytes (b * blockSize + start) data (b' * blockSize + p) = bytes (b' * blockSize + p) := by
  rw [patch, if_neg]
  simp only [blockSize] at hfits hp ⊢
  omega

theorem patch_within (bytes : Nat → UInt8) (b start p : Nat) (data : ByteArray) :
    patch bytes (b * blockSize + start) data (b * blockSize + p) =
      if start ≤ p ∧ p < start + data.size then Bytes.byteAt data (p - start)
      else bytes (b * blockSize + p) := by
  have hcond : (b * blockSize + start ≤ b * blockSize + p ∧
      b * blockSize + p < b * blockSize + start + data.size) ↔
      (start ≤ p ∧ p < start + data.size) := by omega
  have hplace : b * blockSize + p - (b * blockSize + start) = p - start := by omega
  rw [patch, hplace]
  simp only [hcond]

/-- The bytes of the files of the handles. -/
abbrev Image := Handle → Nat → UInt8

/-- The image after an action. -/
def Action.apply (image : Image) : Action → Image
  | .store h offset data => Function.update image h (patch (image h) offset data)
  | _ => image

def Action.isStore : Action → Bool
  | .store .. => true
  | _ => false

/-- The lost blocks after an event; a file that is opened begins with none. -/
def Event.loses (lost : List BlockId) : Event → List BlockId
  | .evictionFailed key _ | .preReadFailed key _ => key :: lost
  | .opened _ _ owner _ => lost.filter fun key => key.owner ≠ owner
  | _ => lost

/-- The lost blocks after events. -/
def lostAfter (lost : List BlockId) (events : List Event) : List BlockId :=
  events.foldl Event.loses lost

theorem lostAfter_append (lost : List BlockId) (events events' : List Event) :
    lostAfter lost (events ++ events') = lostAfter (lostAfter lost events) events' :=
  List.foldl_append

theorem lostAfter_of_isNote (lost : List BlockId) {events : List Event}
    (h : ∀ e ∈ events, e.isNote = true) : lostAfter lost events = lost := by
  induction events with
  | nil => rfl
  | cons e rest ih =>
      have he : e.loses lost = lost := by
        have hnote := h e List.mem_cons_self
        cases e with
        | evictionFailed | preReadFailed | opened => cases hnote
        | _ => rfl
      rw [lostAfter, List.foldl_cons, he]
      exact ih fun e' he' => h e' (List.mem_cons_of_mem _ he')

def Event.isDamage : Event → Bool
  | .evictionFailed .. | .preReadFailed .. => true
  | _ => false

/-- Whether an event tells that a block could not be stored or read. -/
def Event.isMishap : Event → Bool
  | .evictionFailed .. | .preReadFailed .. | .readFailed .. => true
  | _ => false

theorem Event.isDamage_of_isMishap {e : Event} (h : e.isMishap = false) : e.isDamage = false := by
  cases e with
  | evictionFailed | preReadFailed => cases h
  | _ => rfl

theorem Event.isMishap_of_isNote {e : Event} (h : e.isNote = true) : e.isMishap = false := by
  cases e with
  | evictionFailed | preReadFailed | readFailed => cases h
  | _ => rfl

theorem lostAfter_nil {events : List Event} (h : ∀ e ∈ events, e.isDamage = false) :
    lostAfter [] events = [] := by
  induction events with
  | nil => rfl
  | cons e rest ih =>
      have he : e.loses [] = [] := by
        have hnone := h e List.mem_cons_self
        cases e with
        | evictionFailed | preReadFailed => cases hnone
        | _ => rfl
      rw [lostAfter, List.foldl_cons, he]
      exact ih fun e' he' => h e' (List.mem_cons_of_mem _ he')

/-- Every block that was lost is one of which an event tells. -/
theorem mem_lostAfter {lost : List BlockId} {events : List Event} {key : BlockId}
    (hkey : key ∈ lostAfter lost events) :
    key ∈ lost ∨ ∃ e, .evictionFailed key e ∈ events ∨ .preReadFailed key e ∈ events := by
  induction events generalizing lost with
  | nil => exact Or.inl hkey
  | cons event rest ih =>
      have hlater : (∃ e, .evictionFailed key e ∈ rest ∨ .preReadFailed key e ∈ rest) →
          ∃ e, .evictionFailed key e ∈ event :: rest ∨ .preReadFailed key e ∈ event :: rest :=
        fun ⟨e, he⟩ => ⟨e, he.imp (List.mem_cons_of_mem _) (List.mem_cons_of_mem _)⟩
      refine (ih hkey).elim (fun hloses => ?_) fun hrest => Or.inr (hlater hrest)
      cases event with
      | evictionFailed key' e =>
          rcases List.mem_cons.mp hloses with rfl | hmem
          · exact Or.inr ⟨e, Or.inl List.mem_cons_self⟩
          · exact Or.inl hmem
      | preReadFailed key' e =>
          rcases List.mem_cons.mp hloses with rfl | hmem
          · exact Or.inr ⟨e, Or.inr List.mem_cons_self⟩
          · exact Or.inl hmem
      | opened => exact Or.inl (List.mem_filter.mp hloses).1
      | _ => exact Or.inl hloses

namespace Cache

variable {σ φ : Type} [Storage σ φ]

/-- Whether every slot that holds a block is clean. -/
def Clean (c : Cache σ φ) (key : BlockId) : Prop :=
  ∀ {i : Nat} {s : Slot}, c.pool.slots[i]? = some s → s.key = some key → s.dirty = false

/-- Whether a cache and its storage hold the bytes of an image, but for lost blocks. -/
structure Coupled (disk : Disk σ φ) (image : Image) (lost : List BlockId) (c : Cache σ φ) :
    Prop where
  sound : disk.Sound c.storage
  /-- No file is open twice. -/
  apart : ∀ {h h' : Handle} {f f' : OpenFile φ}, c.table.get? h = some f →
    c.table.get? h' = some f' → disk.path f.file = disk.path f'.file → h = h'
  resident : ∀ {h : Handle} {f : OpenFile φ} {i : Nat} {s : Slot} {b p : Nat},
    c.table.get? h = some f → c.pool.slots[i]? = some s → s.key = some ⟨f.descriptor, b⟩ →
    ⟨f.descriptor, b⟩ ∉ lost → p < blockSize → s.block.byteAt p = image h (b * blockSize + p)
  stored : ∀ {h : Handle} {f : OpenFile φ} {b p : Nat}, c.table.get? h = some f →
    c.Clean ⟨f.descriptor, b⟩ → ⟨f.descriptor, b⟩ ∉ lost → p < blockSize →
    disk.byteAt c.storage f.file (b * blockSize + p) = image h (b * blockSize + p)

namespace Coupled

variable {disk : Disk σ φ} {image image' : Image} {lost lost' : List BlockId} {c c' : Cache σ φ}

/-- A change that is limited to some blocks keeps a cache coupled if those blocks are. -/
theorem of_others (hc : Coupled disk image lost c) (K : BlockId → Prop)
    (htable : c'.table = c.table) (hsound : disk.Sound c'.storage)
    (hlost : ∀ key, ¬ K key → key ∉ lost' → key ∉ lost)
    (himage : ∀ {h : Handle} {f : OpenFile φ} {b p : Nat}, c.table.get? h = some f →
      ¬ K ⟨f.descriptor, b⟩ → p < blockSize →
      image' h (b * blockSize + p) = image h (b * blockSize + p))
    (hcontent : ∀ {h : Handle} {f : OpenFile φ} {b p : Nat}, c.table.get? h = some f →
      ¬ K ⟨f.descriptor, b⟩ → p < blockSize →
      disk.byteAt c'.storage f.file (b * blockSize + p) =
        disk.byteAt c.storage f.file (b * blockSize + p))
    (hslots : ∀ {j : Nat} {t : Slot} {key : BlockId}, c'.pool.slots[j]? = some t →
      t.key = some key → ¬ K key →
      ∃ s, c.pool.slots[j]? = some s ∧ s.key = some key ∧ s.block = t.block)
    (hdirty : ∀ {j : Nat} {s : Slot} {key : BlockId}, c.pool.slots[j]? = some s →
      s.key = some key → ¬ K key → s.dirty = true →
      ∃ t, c'.pool.slots[j]? = some t ∧ t.key = some key ∧ t.dirty = true)
    (hresident : ∀ {h : Handle} {f : OpenFile φ} {b j : Nat} {t : Slot} {p : Nat},
      c.table.get? h = some f → K ⟨f.descriptor, b⟩ → ⟨f.descriptor, b⟩ ∉ lost' →
      c'.pool.slots[j]? = some t → t.key = some ⟨f.descriptor, b⟩ → p < blockSize →
      t.block.byteAt p = image' h (b * blockSize + p))
    (hstored : ∀ {h : Handle} {f : OpenFile φ} {b p : Nat}, c.table.get? h = some f →
      K ⟨f.descriptor, b⟩ → ⟨f.descriptor, b⟩ ∉ lost' → c'.Clean ⟨f.descriptor, b⟩ → p < blockSize →
      disk.byteAt c'.storage f.file (b * blockSize + p) = image' h (b * blockSize + p)) :
    Coupled disk image' lost' c' where
  sound := hsound
  apart := by
    rw [htable]
    exact hc.apart
  resident := by
    intro h f j t b p hf ht hkey hkept hp
    rw [htable] at hf
    by_cases hK : K ⟨f.descriptor, b⟩
    · exact hresident hf hK hkept ht hkey hp
    · obtain ⟨s, hs, hkey', hblock⟩ := hslots ht hkey hK
      rw [← hblock, himage hf hK hp]
      exact hc.resident hf hs hkey' (hlost _ hK hkept) hp
  stored := by
    intro h f b p hf hclean hkept hp
    rw [htable] at hf
    by_cases hK : K ⟨f.descriptor, b⟩
    · exact hstored hf hK hkept hclean hp
    · rw [hcontent hf hK hp, himage hf hK hp]
      refine hc.stored hf (fun {j s} hs hkey => ?_) (hlost _ hK hkept) hp
      cases hd : s.dirty with
      | false => rfl
      | true =>
          obtain ⟨t, ht, hkey', hd'⟩ := hdirty hs hkey hK hd
          rw [hclean ht hkey'] at hd'
          cases hd'

/-- A step that moves no bytes keeps a cache coupled. -/
theorem of_same (hc : Coupled disk image lost c) (htable : c'.table = c.table)
    (hsound : disk.Sound c'.storage)
    (hcontent : disk.content c'.storage = disk.content c.storage)
    (hlost : ∀ key, key ∉ lost' → key ∉ lost)
    (hslots : ∀ {j : Nat} {t : Slot} {key : BlockId}, c'.pool.slots[j]? = some t →
      t.key = some key → ∃ s, c.pool.slots[j]? = some s ∧ s.key = some key ∧ s.block = t.block)
    (hdirty : ∀ {j : Nat} {s : Slot} {key : BlockId}, c.pool.slots[j]? = some s →
      s.key = some key → s.dirty = true →
      ∃ t, c'.pool.slots[j]? = some t ∧ t.key = some key ∧ t.dirty = true) :
    Coupled disk image lost' c' := by
  refine hc.of_others (fun _ => False) htable hsound (fun key _ => hlost key) (fun _ _ _ => rfl)
    (fun _ _ _ => ?_) (fun ht hkey _ => hslots ht hkey) (fun hs hkey _ => hdirty hs hkey) ?_ ?_
  · rw [Disk.byteAt, hcontent]
    rfl
  · exact fun _ hfalse => hfalse.elim
  · exact fun _ hfalse => hfalse.elim

/-- The same for a step that leaves the slots alone. -/
theorem of_slots (hc : Coupled disk image lost c) (htable : c'.table = c.table)
    (hsound : disk.Sound c'.storage)
    (hcontent : disk.content c'.storage = disk.content c.storage)
    (hlost : ∀ key, key ∉ lost' → key ∉ lost) (hslots : c'.pool.slots = c.pool.slots) :
    Coupled disk image lost' c' := by
  refine hc.of_same htable hsound hcontent hlost (fun {j t key} ht hkey => ?_)
    (fun {j s key} hs hkey hd => ?_)
  · rw [hslots] at ht
    exact ⟨t, ht, hkey, rfl⟩
  · exact ⟨s, by rw [hslots]; exact hs, hkey, hd⟩

/-- The same for a step that changes the state of one slot. -/
theorem of_modify (hc : Coupled disk image lost c) (htable : c'.table = c.table)
    (hsound : disk.Sound c'.storage)
    (hcontent : disk.content c'.storage = disk.content c.storage)
    (hlost : ∀ key, key ∉ lost' → key ∉ lost) {i : Nat} {g : Slot → Slot}
    (hslots : c'.pool.slots = c.pool.slots.modify i g)
    (hslot : ∀ {s : Slot}, c.pool.slots[i]? = some s →
      (∀ key, (g s).key = some key → s.key = some key ∧ s.block = (g s).block) ∧
      (∀ key, s.key = some key → s.dirty = true → (g s).key = some key ∧ (g s).dirty = true)) :
    Coupled disk image lost' c' := by
  refine hc.of_same htable hsound hcontent hlost (fun {j t key} ht hkey => ?_)
    (fun {j s key} hs hkey hd => ?_)
  · rw [hslots] at ht
    rcases Pool.getElem?_modify_cases ht with ⟨s, hs, rfl, rfl⟩ | ⟨-, ht⟩
    · exact ⟨s, hs, (hslot hs).1 key hkey⟩
    · exact ⟨t, ht, hkey, rfl⟩
  · rw [hslots]
    by_cases hj : j = i
    · subst hj
      exact ⟨g s, Pool.getElem?_modify_self hs, (hslot hs).2 key hkey hd⟩
    · exact ⟨s, by rw [Pool.getElem?_modify_other hj]; exact hs, hkey, hd⟩

/-- A step that concerns the one block that enters or leaves a slot, or is in it all the time, keeps
a cache coupled if that block is. -/
theorem of_block (hc : Coupled disk image lost c) (hreg : c.Regular) (htable : c'.table = c.table)
    (hsound : disk.Sound c'.storage) {h : Handle} {f : OpenFile φ} {b : Nat}
    (hf : c.table.get? h = some f)
    (hlost : ∀ key, key ≠ ⟨f.descriptor, b⟩ → key ∉ lost' → key ∉ lost)
    (himage : ∀ h', h' ≠ h → image' h' = image h')
    (himage' : ∀ {b' p}, b' ≠ b → p < blockSize →
      image' h (b' * blockSize + p) = image h (b' * blockSize + p))
    (hother : ∀ p, p ≠ disk.path f.file → disk.content c'.storage p = disk.content c.storage p)
    (hcontent : ∀ {b' p}, b' ≠ b → p < blockSize →
      disk.byteAt c'.storage f.file (b' * blockSize + p) =
        disk.byteAt c.storage f.file (b' * blockSize + p))
    {i : Nat} {g : Slot → Slot} (hslots : c'.pool.slots = c.pool.slots.modify i g)
    (hslot : ∀ {s : Slot} {key : BlockId}, c.pool.slots[i]? = some s →
      s.key = some key ∨ (g s).key = some key → key = ⟨f.descriptor, b⟩)
    (hresident : ⟨f.descriptor, b⟩ ∉ lost' → ∀ {j : Nat} {t : Slot} {p : Nat},
      c'.pool.slots[j]? = some t → t.key = some ⟨f.descriptor, b⟩ → p < blockSize →
      t.block.byteAt p = image' h (b * blockSize + p))
    (hstored : ⟨f.descriptor, b⟩ ∉ lost' → c'.Clean ⟨f.descriptor, b⟩ → ∀ {p}, p < blockSize →
      disk.byteAt c'.storage f.file (b * blockSize + p) = image' h (b * blockSize + p)) :
    Coupled disk image' lost' c' := by
  -- a block with the key of this one is this one, open files having descriptors of their own
  have hsame : ∀ {h' : Handle} {f' : OpenFile φ} {b' : Nat}, c.table.get? h' = some f' →
      (⟨f'.descriptor, b'⟩ : BlockId) = ⟨f.descriptor, b⟩ → h' = h ∧ f' = f ∧ b' = b := by
    intro h' f' b' hf' hkey
    obtain ⟨hd, rfl⟩ := BlockId.mk.inj hkey
    obtain rfl := hreg.apart hf' hf hd
    rw [hf] at hf'
    exact ⟨rfl, (Option.some.inj hf').symm, rfl⟩
  refine hc.of_others (· = ⟨f.descriptor, b⟩) htable hsound hlost (fun {h' f' b' p} hf' hK hp => ?_)
    (fun {h' f' b' p} hf' hK hp => ?_) (fun {j t key} ht hkey hK => ?_)
    (fun {j s key} hs hkey hK hd => ?_) (fun {h' f' b' j t p} hf' hK hkept ht hkey hp => ?_)
    (fun {h' f' b' p} hf' hK hkept hclean hp => ?_)
  · by_cases hh : h' = h
    · subst hh
      rw [hf] at hf'
      obtain rfl := Option.some.inj hf'
      exact himage' (fun hb => hK (by rw [hb])) hp
    · rw [himage h' hh]
  · by_cases hh : h' = h
    · subst hh
      rw [hf] at hf'
      obtain rfl := Option.some.inj hf'
      exact hcontent (fun hb => hK (by rw [hb])) hp
    · rw [Disk.byteAt, hother _ fun hpath => hh (hc.apart hf' hf hpath)]
      rfl
  · rw [hslots] at ht
    rcases Pool.getElem?_modify_cases ht with ⟨s, hs, rfl, rfl⟩ | ⟨-, ht⟩
    · exact absurd (hslot hs (Or.inr hkey)) hK
    · exact ⟨t, ht, hkey, rfl⟩
  · rw [hslots]
    by_cases hj : j = i
    · subst hj
      exact absurd (hslot hs (Or.inl hkey)) hK
    · exact ⟨s, by rw [Pool.getElem?_modify_other hj]; exact hs, hkey, hd⟩
  · obtain ⟨rfl, rfl, rfl⟩ := hsame hf' hK
    exact hresident hkept ht hkey hp
  · obtain ⟨rfl, rfl, rfl⟩ := hsame hf' hK
    exact hstored hkept hclean hp

end Coupled

/-! ### Steps -/

section Steps

variable {disk : Disk σ φ} {image : Image} {lost : List BlockId} {c c' : Cache σ φ}

theorem coupled_evictDirty (hc : Coupled disk image lost c) (hreg : c.Regular) {block : Block}
    {tenant : Tenant} {h : Handle} {f : OpenFile φ} {outcome : Except Error Unit} {storage : σ}
    (hs : c.pool.slots[c.pool.victim]? = some ⟨block, true, some tenant⟩)
    (hf : c.table.get? h = some f) (howner : f.descriptor = tenant.key.owner)
    (hstore : storeBlock f.file tenant.key block c.storage = (outcome, storage))
    (htable : c'.table = c.table) (hstorage : c'.storage = storage)
    (hslots : c'.pool.slots = c.pool.slots.modify c.pool.victim Slot.vacated) :
    Coupled disk image (lostAfter lost (Pool.Room.events
      ⟨c.pool.victim, some ⟨tenant.key, tenant.frequency, some outcome⟩⟩)) c' := by
  obtain ⟨⟨owner, b⟩, frequency⟩ := tenant
  obtain rfl : f.descriptor = owner := howner
  obtain ⟨hsound, hother, houtside, hinside⟩ := Disk.storeBlock_spec hc.sound hstore
  have hlost : (∀ key, key ∉ lostAfter lost (Pool.Room.events ⟨c.pool.victim,
        some ⟨⟨f.descriptor, b⟩, frequency, some outcome⟩⟩) → key ∉ lost) ∧
      (⟨f.descriptor, b⟩ ∉ lostAfter lost (Pool.Room.events ⟨c.pool.victim,
        some ⟨⟨f.descriptor, b⟩, frequency, some outcome⟩⟩) → outcome = .ok ()) := by
    cases outcome with
    | ok _ => exact ⟨fun _ hkept => hkept, fun _ => rfl⟩
    | error e =>
        refine ⟨fun key hkept hmem => hkept (List.mem_cons_of_mem _ hmem), fun hkept => ?_⟩
        exact absurd List.mem_cons_self hkept
  refine hc.of_block hreg htable (hstorage ▸ hsound) hf (fun key _ => hlost.1 key) (fun _ _ => rfl)
    (fun _ _ => rfl) (hstorage ▸ hother) (fun hb hp => hstorage ▸ houtside _ _ hp hb) hslots
    (fun {s key} hs' hkey => ?_) (fun hkept {j t p} ht hkey hp => ?_)
    (fun hkept hclean {p} hp => ?_)
  · rw [hs] at hs'
    obtain rfl := Option.some.inj hs'
    rcases hkey with hkey | hkey
    · exact (Option.some.inj hkey).symm
    · cases hkey
  · -- the block is in no slot any longer
    rw [hslots] at ht
    rcases Pool.getElem?_modify_cases ht with ⟨s, -, -, rfl⟩ | ⟨hj, ht⟩
    · cases hkey
    · exact absurd (hreg.distinct ht hs hkey rfl) hj
  · calc disk.byteAt c'.storage f.file (b * blockSize + p)
        = disk.byteAt storage f.file (b * blockSize + p) := by rw [hstorage]
      _ = block.byteAt p := hinside (hlost.2 hkept) p hp
      _ = image h (b * blockSize + p) := hc.resident hf hs rfl (hlost.1 _ hkept) hp

theorem coupled_flush (hc : Coupled disk image lost c) (hreg : c.Regular) {block : Block}
    {tenant : Tenant} {i : Nat} {h : Handle} {f : OpenFile φ} {outcome : Except Error Unit}
    {storage : σ} (hs : c.pool.slots[i]? = some ⟨block, true, some tenant⟩)
    (hf : c.table.get? h = some f) (howner : f.descriptor = tenant.key.owner)
    (hstore : storeBlock f.file tenant.key block c.storage = (outcome, storage)) :
    Coupled disk image lost
      { c with storage, pool := c.pool.settle ⟨i, tenant.key, outcome⟩ } := by
  obtain ⟨⟨owner, b⟩, frequency⟩ := tenant
  obtain rfl : f.descriptor = owner := howner
  obtain ⟨hsound, hother, houtside, hinside⟩ := Disk.storeBlock_spec hc.sound hstore
  have hreg' := (Step.flush hs hf rfl hstore).regular hreg
  have hkey : ∀ {s : Slot} {key : BlockId}, c.pool.slots[i]? = some s →
      s.key = some key ∨ s.cleaned.key = some key → key = ⟨f.descriptor, b⟩ := by
    intro s key hs' hkey
    rw [hs] at hs'
    obtain rfl := Option.some.inj hs'
    rcases hkey with hkey | hkey <;> exact (Option.some.inj hkey).symm
  cases outcome with
  | ok _ =>
      have hslots := c.pool.slots_settle_of_ok i ⟨f.descriptor, b⟩
      refine hc.of_block hreg rfl hsound hf (fun _ _ hkept => hkept) (fun _ _ => rfl)
        (fun _ _ => rfl) hother (fun hb hp => houtside _ _ hp hb) hslots hkey
        (fun hkept {j t p} ht hkey hp => ?_) (fun hkept _ {p} hp => ?_)
      · obtain rfl := hreg'.eq_of_modify hslots hs rfl ht hkey
        show block.byteAt p = _
        exact hc.resident hf hs rfl hkept hp
      · calc disk.byteAt storage f.file (b * blockSize + p)
            = block.byteAt p := hinside rfl p hp
          _ = image h (b * blockSize + p) := hc.resident hf hs rfl hkept hp
  | error e =>
      have hslots : (c.pool.settle ⟨i, ⟨f.descriptor, b⟩, .error e⟩).slots =
          c.pool.slots.modify i id := by
        rw [Pool.slots_settle_of_error]
        apply Array.ext_getElem?
        intro j
        rw [Array.getElem?_modify, Option.map_id_fun, id, ite_self]
      refine hc.of_block hreg rfl hsound hf (fun _ _ hkept => hkept) (fun _ _ => rfl)
        (fun _ _ => rfl) hother (fun hb hp => houtside _ _ hp hb) hslots hkey
        (fun hkept {j t p} ht hkey hp => ?_) (fun hkept hclean {p} hp => ?_)
      · obtain rfl := hreg'.eq_of_modify hslots hs rfl ht hkey
        show block.byteAt p = _
        exact hc.resident hf hs rfl hkept hp
      · -- the slot is still dirty, so the storage need not have the block
        cases hclean hs rfl

theorem coupled_fill (hc : Coupled disk image lost c) (hreg : c.Regular) {h : Handle}
    {f : OpenFile φ} {index i n : Nat} {s : Slot} {block : Block} {storage : σ}
    (hf : c.table.get? h = some f) (hs : c.pool.slots[i]? = some s) (hfree : s.key = none)
    (habsent : c.Absent ⟨f.descriptor, index⟩)
    (hread : Storage.readAt f.file s.block (BlockId.offset ⟨f.descriptor, index⟩) c.storage =
      ((.ok n, block), storage)) :
    Coupled disk image lost
      { c with
        storage
        pool := ((c.pool.modifySlot i (·.setBlock (block.zeroFrom n))).assign i
          ⟨f.descriptor, index⟩).count Stats.filled } := by
  obtain ⟨hsound, hcontent, hdeliver⟩ := disk.readAt hc.sound hread
  obtain ⟨hn, hbytes⟩ := hdeliver n rfl
  have hreg' := (Step.fill hf hs hfree habsent hread).regular hreg
  have hslots := c.pool.slots_take i ⟨f.descriptor, index⟩ (block.zeroFrom n) Stats.filled
  have hclean : c.Clean ⟨f.descriptor, index⟩ := by
    intro j t ht hkey
    exact absurd hkey (habsent j t ht)
  have hbyte : ∀ b p, disk.byteAt storage f.file (b * blockSize + p) =
      disk.byteAt c.storage f.file (b * blockSize + p) := by
    intro b p
    rw [Disk.byteAt, hcontent]
    rfl
  refine hc.of_block (b := index) hreg rfl hsound hf (fun _ _ hkept => hkept) (fun _ _ => rfl)
    (fun _ _ => rfl) (fun p _ => congrFun hcontent p) (fun _ _ => hbyte _ _) hslots
    (fun {s' key} hs' hkey => ?_)
    (fun hkept {j t p} ht hkey hp => ?_) (fun hkept _ {p} hp => ?_)
  · rw [hs] at hs'
    obtain rfl := Option.some.inj hs'
    rcases hkey with hkey | hkey
    · rw [hfree] at hkey
      cases hkey
    · exact (Option.some.inj hkey).symm
  · obtain rfl := hreg'.eq_of_modify hslots hs (Slot.key_assign _ _) ht hkey
    have hfilled : (block.zeroFrom n).byteAt p =
        disk.byteAt c.storage f.file (index * blockSize + p) := by
      rw [Buffer.byteAt_zeroFrom, Disk.byteAt]
      split
      · rename_i hlt
        exact hbytes p hlt
      · -- past the end of the file all bytes count as zero
        refine (Bytes.byteAt_of_size_le ?_).symm
        simp only [BlockId.offset] at hn
        omega
    calc (block.zeroFrom n).byteAt p
        = disk.byteAt c.storage f.file (index * blockSize + p) := hfilled
      _ = image h (index * blockSize + p) := hc.stored hf hclean hkept hp
  · rw [hbyte]
    exact hc.stored hf hclean hkept hp

/-- Bytes that enter a block in its slot enter the image. -/
theorem coupled_store (hc : Coupled disk image lost c) (hreg : c.Regular) (hreg' : c'.Regular)
    (htable : c'.table = c.table) (hsound : disk.Sound c'.storage)
    (hcontent : disk.content c'.storage = disk.content c.storage) {lost' : List BlockId}
    {h : Handle} {f : OpenFile φ} {b i start : Nat} {s : Slot} {g : Slot → Slot} {data : ByteArray}
    (hf : c.table.get? h = some f) (hfits : start + data.size ≤ blockSize)
    (hlost : ∀ key, key ≠ ⟨f.descriptor, b⟩ → key ∉ lost' → key ∉ lost)
    (hs : c.pool.slots[i]? = some s) (hslots : c'.pool.slots = c.pool.slots.modify i g)
    (hbefore : ∀ key, s.key = some key → key = ⟨f.descriptor, b⟩)
    (hkey : (g s).key = some ⟨f.descriptor, b⟩) (hdirty : (g s).dirty = true)
    (hbytes : ⟨f.descriptor, b⟩ ∉ lost' → ∀ p, p < blockSize → (g s).block.byteAt p =
      if start ≤ p ∧ p < start + data.size then Bytes.byteAt data (p - start)
      else image h (b * blockSize + p)) :
    Coupled disk (Function.update image h (patch (image h) (b * blockSize + start) data)) lost'
      c' := by
  refine hc.of_block hreg htable hsound hf hlost (fun h' hh => Function.update_of_ne hh _ _)
    (fun {b' p} hb hp => ?_) (fun p _ => congrFun hcontent p) (fun {b' p} _ _ => ?_) hslots
    (fun {s' key} hs' hkey' => ?_) (fun hkept {j t p} ht hkey' hp => ?_)
    (fun _ hclean {p} _ => ?_)
  · rw [Function.update_self, patch_other hfits hb hp]
  · rw [Disk.byteAt, hcontent]
    rfl
  · rw [hs] at hs'
    obtain rfl := Option.some.inj hs'
    rcases hkey' with hkey' | hkey'
    · exact hbefore key hkey'
    · rw [hkey] at hkey'
      exact (Option.some.inj hkey').symm
  · obtain rfl := hreg'.eq_of_modify hslots hs hkey ht hkey'
    rw [Function.update_self, patch_within]
    exact hbytes hkept p hp
  · have hi : c'.pool.slots[i]? = some (g s) := by
      rw [hslots]
      exact Pool.getElem?_modify_self hs
    rw [hclean hi hkey] at hdirty
    cases hdirty

theorem coupled_overwrite (hc : Coupled disk image lost c) (hreg : c.Regular) {h : Handle}
    {f : OpenFile φ} {index i start : Nat} {s : Slot} {data : ByteArray}
    (hf : c.table.get? h = some f) (hs : c.pool.slots[i]? = some s)
    (hkey : s.key = some ⟨f.descriptor, index⟩) (hfits : start + data.size ≤ blockSize) :
    Coupled disk (Function.update image h (patch (image h) (index * blockSize + start) data)) lost
      { c with pool := c.pool.write i start data } := by
  have hreg' := (Step.overwrite hf hs hkey hfits).regular hreg
  refine coupled_store hc hreg hreg' rfl hc.sound rfl hf hfits (fun _ _ hkept => hkept) hs
    (c.pool.slots_write i start data) (fun key hkey' => ?_) hkey rfl (fun hkept p hp => ?_)
  · rw [hkey] at hkey'
    exact (Option.some.inj hkey').symm
  · rw [Slot.byteAt_write _ _ _ hp, hc.resident hf hs hkey hkept hp]

theorem coupled_replace (hc : Coupled disk image lost c) (hreg : c.Regular) {h : Handle}
    {f : OpenFile φ} {index i : Nat} {s : Slot} {data : ByteArray}
    (hf : c.table.get? h = some f) (hs : c.pool.slots[i]? = some s) (hfree : s.key = none)
    (habsent : c.Absent ⟨f.descriptor, index⟩) (hsize : data.size = blockSize) :
    Coupled disk (Function.update image h (patch (image h) (index * blockSize) data)) lost
      { c with pool := (c.pool.assign i ⟨f.descriptor, index⟩).write i 0 data } := by
  have hreg' := (Step.replace hf hs hfree habsent hsize).regular hreg
  have hfits : 0 + data.size ≤ blockSize := by omega
  rw [← Nat.add_zero (index * blockSize)]
  refine coupled_store hc hreg hreg' rfl hc.sound rfl hf hfits (fun _ _ hkept => hkept) hs
    (c.pool.slots_assign_write i 0 ⟨f.descriptor, index⟩ data) (fun key hkey' => ?_)
    rfl rfl (fun hkept p hp => ?_)
  · rw [hfree] at hkey'
    cases hkey'
  · have hin : 0 ≤ p ∧ p < 0 + data.size := by omega
    rw [Slot.byteAt_write _ _ _ hp, if_pos hin, if_pos hin]

theorem coupled_overwriteZeros (hc : Coupled disk image lost c) (hreg : c.Regular) {h : Handle}
    {f : OpenFile φ} {index i start : Nat} {s : Slot} {data : ByteArray} {block : Block}
    {fault : Fault} {storage : σ} {new : List Event} (hf : c.table.get? h = some f)
    (hs : c.pool.slots[i]? = some s) (hfree : s.key = none)
    (habsent : c.Absent ⟨f.descriptor, index⟩) (hfits : start + data.size ≤ blockSize)
    (hread : Storage.readAt f.file s.block (BlockId.offset ⟨f.descriptor, index⟩) c.storage =
      ((.error fault, block), storage))
    (hnew : new = [.preReadFailed ⟨f.descriptor, index⟩ (.storage fault)]) :
    Coupled disk (Function.update image h (patch (image h) (index * blockSize + start) data))
      (lostAfter lost new)
      { c with
        storage
        pool := (((c.pool.modifySlot i (·.setBlock (Buffer.zero blockSize))).assign i
          ⟨f.descriptor, index⟩).count Stats.filled).write i start data
        journal := c.journal ++ new } := by
  obtain ⟨hsound, hcontent, -⟩ := disk.readAt hc.sound hread
  have hreg' := (Step.overwriteZeros hf hs hfree habsent hfits hread hnew).regular hreg
  subst hnew
  refine coupled_store hc hreg hreg' rfl hsound hcontent hf hfits (fun key _ hkept hmem => ?_) hs
    (c.pool.slots_take_write i start ⟨f.descriptor, index⟩ _ Stats.filled data)
    (fun key hkey' => ?_) rfl rfl (fun hkept => ?_)
  · exact hkept (List.mem_cons_of_mem _ hmem)
  · rw [hfree] at hkey'
    cases hkey'
  · exact absurd List.mem_cons_self hkept

/-- A step that only stores bytes keeps a cache coupled, to the image with those bytes. -/
theorem Step.coupled {as : List Action} {new : List Event} (h : Step c as new c')
    (hstore : ∀ a ∈ as, a.isStore = true) (hreg : c.Regular) (hc : Coupled disk image lost c) :
    Coupled disk (as.foldl Action.apply image) (lostAfter lost new) c' := by
  cases h with
  | allocate hempty hpool hnew =>
      subst hnew
      obtain ⟨-, hslots⟩ := Pool.slots_create hpool
      refine hc.of_same rfl hc.sound rfl (fun _ hkept => hkept) (fun {j t key} ht hkey => ?_)
        (fun {j s key} hs hkey _ => ?_)
      · rw [show Pool.slots _ = _ from hslots, Array.getElem?_replicate] at ht
        split at ht
        · obtain rfl := Option.some.inj ht
          cases hkey
        · cases ht
      · have hsize : ¬ 0 < c.pool.slots.size := of_decide_eq_false hempty
        rw [Array.getElem?_eq_none (by omega)] at hs
        cases hs
  | report new hnote =>
      rw [lostAfter_of_isNote lost hnote]
      exact hc.of_slots rfl hc.sound rfl (fun _ hkept => hkept) rfl
  | hit hs hkey hnew =>
      subst hnew
      refine hc.of_modify rfl hc.sound rfl (fun _ hkept => hkept) (Pool.slots_modifySlot _ _ _)
        fun {s} _ => ⟨fun key hkey' => ?_, fun key hkey' hd => ?_⟩
      · rw [Slot.key_bump] at hkey'
        exact ⟨hkey', rfl⟩
      · rw [Slot.key_bump]
        exact ⟨hkey', hd⟩
  | miss => exact hc.of_slots rfl hc.sound rfl (fun _ hkept => hkept) rfl
  | evictClean hs hnew =>
      subst hnew
      refine hc.of_modify rfl hc.sound rfl (fun _ hkept => hkept) (Pool.slots_evict _ _ _)
        fun {s'} hs' => ⟨fun key hkey' => ?_, fun key hkey' hd => ?_⟩
      · cases hkey'
      · rw [hs] at hs'
        obtain rfl := Option.some.inj hs'
        cases hd
  | evictDirty hs hf howner hrun hnew =>
      subst hnew
      exact coupled_evictDirty hc hreg hs hf howner hrun rfl rfl (Pool.slots_evict _ _ _)
  | fill hf hs hfree habsent hread => exact coupled_fill hc hreg hf hs hfree habsent hread
  | fillFailed hf hs hfree habsent hread hnew =>
      subst hnew
      obtain ⟨hsound, hcontent, -⟩ := disk.readAt hc.sound hread
      refine hc.of_modify rfl hsound hcontent (fun _ hkept => hkept) (Pool.slots_modifySlot _ _ _)
        fun {s'} hs' => ⟨fun key hkey' => ?_, fun key hkey' _ => ?_⟩
      all_goals
        rw [hs] at hs'
        obtain rfl := Option.some.inj hs'
        first
          | rw [hfree] at hkey'
          | rw [Slot.key_setBlock, hfree] at hkey'
        cases hkey'
  | overwrite hf hs hkey hfits => exact coupled_overwrite hc hreg hf hs hkey hfits
  | replace hf hs hfree habsent hsize => exact coupled_replace hc hreg hf hs hfree habsent hsize
  | overwriteZeros hf hs hfree habsent hfits hread hnew =>
      exact coupled_overwriteZeros hc hreg hf hs hfree habsent hfits hread hnew
  | flush hs hf howner hrun => exact coupled_flush hc hreg hs hf howner hrun
  | sync hf hsync =>
      obtain ⟨hsound, hcontent⟩ := disk.sync hc.sound hsync
      exact hc.of_slots rfl hsound hcontent (fun _ hkept => hkept) rfl
  | trimFailed hf hset hnew =>
      subst hnew
      obtain ⟨hsound, -, -, hcontent⟩ := disk.setLen hc.sound hset
      exact hc.of_slots rfl hsound (hcontent _ rfl) (fun _ hkept => hkept) rfl
  | trim | move | refuse | abandon | bind | drop =>
      exact absurd (hstore _ List.mem_cons_self) Bool.false_ne_true

theorem Steps.coupled {as : List Action} {new : List Event} (h : Steps c as new c')
    (hstore : ∀ a ∈ as, a.isStore = true) (hreg : c.Regular) (hc : Coupled disk image lost c) :
    Coupled disk (as.foldl Action.apply image) (lostAfter lost new) c' := by
  induction h generalizing image lost with
  | nil => exact hc
  | cons hstep _ ih =>
      rw [List.foldl_append, lostAfter_append]
      have hfirst := hstep.coupled (fun a ha => hstore a (List.mem_append_left _ ha)) hreg hc
      exact ih (fun a ha => hstore a (List.mem_append_right _ ha)) (hstep.regular hreg) hfirst

/-- Steps without an action keep a cache coupled to the same image. -/
theorem Steps.coupled_tend {new : List Event} (h : Steps c [] new c') (hreg : c.Regular)
    (hc : Coupled disk image lost c) : Coupled disk image (lostAfter lost new) c' :=
  h.coupled (fun _ ha => nomatch ha) hreg hc

/-! ### Steps that change what is open -/

/-- Moving a cursor changes no file, and makes none smaller. -/
theorem Step.get?_move {h h' : Handle} {f' : OpenFile φ} {new : List Event}
    (hstep : Step c [.move h] new c') (hf' : c'.table.get? h' = some f') :
    ∃ f, c.table.get? h' = some f ∧ f.file = f'.file ∧ f.descriptor = f'.descriptor ∧
      f.size ≤ f'.size := by
  cases hstep with
  | @move _ f g hf hfile hdescriptor _ hsize =>
      rcases c.table.get?_modify_cases hf' with ⟨f₀, hf₀, rfl, rfl⟩ | ⟨-, hf₀⟩
      · rw [hf] at hf₀
        obtain rfl := Option.some.inj hf₀
        exact ⟨f, hf, hfile.symm, hdescriptor.symm, hsize⟩
      · exact ⟨f', hf₀, rfl, rfl, Nat.le_refl _⟩

theorem Step.coupled_move {h : Handle} {new : List Event} (hstep : Step c [.move h] new c')
    (hc : Coupled disk image lost c) : Coupled disk image lost c' := by
  have hsame : c'.storage = c.storage ∧ c'.pool = c.pool := by
    cases hstep
    exact ⟨rfl, rfl⟩
  obtain ⟨hstorage, hpool⟩ := hsame
  exact {
    sound := by
      rw [hstorage]
      exact hc.sound
    apart := by
      intro h₁ h₂ f₁ f₂ hf₁ hf₂ hpath
      obtain ⟨f₁', hf₁', hfile₁, -⟩ := hstep.get?_move hf₁
      obtain ⟨f₂', hf₂', hfile₂, -⟩ := hstep.get?_move hf₂
      exact hc.apart hf₁' hf₂' (by rw [hfile₁, hfile₂, hpath])
    resident := by
      intro h₁ f₁ i s b p hf₁ hs hkey hkept hp
      obtain ⟨f₁', hf₁', -, hd, -⟩ := hstep.get?_move hf₁
      rw [← hd] at hkey hkept
      rw [hpool] at hs
      exact hc.resident hf₁' hs hkey hkept hp
    stored := by
      intro h₁ f₁ b p hf₁ hclean hkept hp
      obtain ⟨f₁', hf₁', hfile₁, hd, -⟩ := hstep.get?_move hf₁
      rw [← hd] at hclean hkept
      rw [← hfile₁, hstorage]
      refine hc.stored hf₁' (fun {i s} hs hkey => hclean (i := i) ?_ hkey) hkept hp
      rw [hpool]
      exact hs }

/-- A file may be cut to its size if it has no bytes past it. -/
theorem Step.coupled_trim {h : Handle} {new : List Event} (hstep : Step c [.trim h] new c')
    (hreg : c.Regular) (hblank : ∀ f, c.table.get? h = some f → ∀ i, f.size ≤ i → image h i = 0)
    (hc : Coupled disk image lost c) : Coupled disk image lost c' := by
  cases hstep with
  | @trim _ f storage hf hset =>
      obtain ⟨hsound, hother, hresize, -⟩ := disk.setLen hc.sound hset
      refine hc.of_others (fun key => key.owner = f.descriptor) rfl hsound (fun _ _ hkept => hkept)
        (fun _ _ _ => rfl) (fun {h' f' b p} hf' hK _ => ?_)
        (fun {j t key} ht hkey _ => ⟨t, ht, hkey, rfl⟩)
        (fun {j s key} hs hkey _ hd => ⟨s, hs, hkey, hd⟩)
        (fun hf' _ hkept ht hkey hp => hc.resident hf' ht hkey hkept hp)
        (fun {h' f' b p} hf' hK hkept hclean hp => ?_)
      · have hpath : disk.path f'.file ≠ disk.path f.file := by
          intro hpath
          obtain rfl := hc.apart hf' hf hpath
          rw [hf] at hf'
          exact hK (congrArg OpenFile.descriptor (Option.some.inj hf')).symm
        rw [Disk.byteAt, hother _ hpath]
        rfl
      · obtain rfl := hreg.apart hf' hf hK
        rw [hf] at hf'
        obtain rfl := Option.some.inj hf'
        rw [Disk.byteAt, hresize rfl, Bytes.byteAt_resize]
        split
        · exact hc.stored hf hclean hkept hp
        · exact (hblank f hf _ (by omega)).symm

/-- Asking for a file changes at most that file. -/
theorem Step.content_visit {path : String} {new : List Event} (hstep : Step c [.visit path] new c')
    (hs : disk.Sound c.storage) : disk.Sound c'.storage ∧
      ∀ p, p ≠ Path.ofString path → disk.content c'.storage p = disk.content c.storage p := by
  cases hstep with
  | refuse hopen =>
      obtain ⟨hsound, hother, -⟩ := disk.openFile hs hopen
      exact ⟨hsound, hother⟩
  | abandon hopen hsize =>
      obtain ⟨hsound, hother, -⟩ := disk.openFile hs hopen
      obtain ⟨hsound', hcontent, -⟩ := disk.size hsound hsize
      obtain ⟨hsound'', hcontent'⟩ := disk.close hsound'
      refine ⟨hsound'', fun p hp => ?_⟩
      show disk.content _ p = _
      rw [hcontent', hcontent, hother p hp]

/-- A file that is not open may change at will. -/
theorem Step.coupled_visit {path : String} {new : List Event} (hstep : Step c [.visit path] new c')
    (hclosed : ∀ h f, c.table.get? h = some f → disk.path f.file ≠ Path.ofString path)
    (hc : Coupled disk image lost c) : Coupled disk image lost c' := by
  obtain ⟨hsound, hother⟩ := hstep.content_visit hc.sound
  have hsame : c'.pool = c.pool ∧ c'.table = c.table := by
    cases hstep <;> exact ⟨rfl, rfl⟩
  obtain ⟨hpool, htable⟩ := hsame
  refine hc.of_others (fun _ => False) htable hsound (fun _ _ hkept => hkept) (fun _ _ _ => rfl)
    (fun {h f b p} hf _ _ => ?_) (fun {j t key} ht hkey _ => ?_) (fun {j s key} hs hkey _ hd => ?_)
    (fun _ hfalse => hfalse.elim) (fun _ hfalse => hfalse.elim)
  · rw [Disk.byteAt, hother _ (hclosed h f hf)]
    rfl
  · rw [hpool] at ht
    exact ⟨t, ht, hkey, rfl⟩
  · exact ⟨s, by rw [hpool]; exact hs, hkey, hd⟩

/-- A file that is bound to a handle enters the image as it is stored. -/
theorem coupled_bound (hc : Coupled disk image lost c) (hreg : c.Regular) {path : String}
    {flags : OpenFlags} {mode : Nat} {file : φ} {i size : Nat} {opened sized : σ}
    (hplace : c.table.lowestFree = some i)
    (hopen : Storage.openFile path flags mode c.storage = (.ok file, opened))
    (hsize : Storage.size file opened = (.ok size, sized))
    (hfresh : ∀ h f, c.table.get? h = some f → f.descriptor ≠ Storage.descriptor σ file)
    (hclosed : ∀ h f, c.table.get? h = some f → disk.path f.file ≠ Path.ofString path) :
    Coupled disk (Function.update image ⟨i⟩ (disk.byteAt sized file))
      (lostAfter lost [.opened path i (Storage.descriptor σ file) size])
      (c.bound path flags i file size sized) := by
  obtain ⟨hsound, hother, hpath⟩ := disk.openFile hc.sound hopen
  obtain ⟨hsound', hcontent, -⟩ := disk.size hsound hsize
  have hfile : disk.path file = Path.ofString path := hpath file rfl
  have hcases : ∀ {h : Handle} {f : OpenFile φ},
      (c.bound path flags i file size sized).table.get? h = some f →
      (h = ⟨i⟩ ∧ f = OpenFile.fresh file (Storage.descriptor σ file) size flags) ∨
        (h ≠ ⟨i⟩ ∧ c.table.get? h = some f) := fun hf => c.table.get?_of_add_cases hplace hf
  have hkept_old : ∀ {h : Handle} {f : OpenFile φ} {b : Nat}, c.table.get? h = some f →
      ⟨f.descriptor, b⟩ ∉ lostAfter lost [.opened path i (Storage.descriptor σ file) size] →
      ⟨f.descriptor, b⟩ ∉ lost := by
    intro h f b hf hkept hmem
    exact hkept (List.mem_filter.mpr ⟨hmem, decide_eq_true (hfresh h f hf)⟩)
  exact {
    sound := hsound'
    apart := by
      intro h h' f f' hf hf' hsame
      obtain ⟨rfl, rfl⟩ | ⟨-, hf⟩ := hcases hf <;> obtain ⟨rfl, rfl⟩ | ⟨-, hf'⟩ := hcases hf'
      · rfl
      · exact absurd (hsame.symm.trans hfile) (hclosed h' f' hf')
      · exact absurd (hsame.trans hfile) (hclosed h f hf)
      · exact hc.apart hf hf' hsame
    resident := by
      intro h f j s b p hf hs hkey hkept hp
      obtain ⟨rfl, rfl⟩ | ⟨hh, hf⟩ := hcases hf
      · -- no slot has a block of the new file
        obtain ⟨h', f', hf', howner⟩ := hreg.owned hs hkey
        exact absurd howner (hfresh h' f' hf')
      · rw [Function.update_of_ne hh]
        exact hc.resident hf hs hkey (hkept_old hf hkept) hp
    stored := by
      intro h f b p hf hclean hkept hp
      obtain ⟨rfl, rfl⟩ | ⟨hh, hf⟩ := hcases hf
      · rw [Function.update_self]
        rfl
      · have hsame : disk.content sized (disk.path f.file) =
            disk.content c.storage (disk.path f.file) := by
          rw [hcontent, hother _ (hclosed h f hf)]
        calc disk.byteAt sized f.file (b * blockSize + p)
            = disk.byteAt c.storage f.file (b * blockSize + p) := by rw [Disk.byteAt, hsame]; rfl
          _ = image h (b * blockSize + p) := hc.stored hf hclean (hkept_old hf hkept) hp
          _ = Function.update image ⟨i⟩ _ h (b * blockSize + p) := by
              rw [Function.update_of_ne hh] }

theorem Step.coupled_drop {h : Handle} {new : List Event} (hstep : Step c [.drop h] new c')
    (hreg : c.Regular) (hc : Coupled disk image lost c) :
    Coupled disk image (lostAfter lost new) c' := by
  cases hstep with
  | @drop _ f _ hf hnew =>
      subst hnew
      obtain ⟨hsound, hcontent⟩ : disk.Sound (Storage.close f.file c.storage).2 ∧
        disk.content (Storage.close f.file c.storage).2 = disk.content c.storage :=
        disk.close hc.sound
      have hfile : ∀ {h' : Handle} {f' : OpenFile φ}, (c.table.remove h).get? h' = some f' →
          h ≠ h' ∧ c.table.get? h' = some f' := fun hf' => c.table.get?_of_remove hf'
      have hslot : ∀ {j : Nat}, (c.pool.forget f.descriptor).2.slots[j]? = (c.pool.slots[j]?).map
          fun s => if s.ownedBy f.descriptor then s.vacated else s := by
        intro j
        rw [Pool.slots_forget, Array.getElem?_map]
      exact {
        sound := hsound
        apart := fun hf₁ hf₂ hpath => hc.apart (hfile hf₁).2 (hfile hf₂).2 hpath
        resident := by
          intro h' f' j t b p hf' ht hkey hkept hp
          rw [hslot] at ht
          obtain ⟨s, hs, rfl⟩ := Option.map_eq_some_iff.mp ht
          split at hkey
          · cases hkey
          · rename_i howned
            rw [if_neg howned]
            exact hc.resident (hfile hf').2 hs hkey hkept hp
        stored := by
          intro h' f' b p hf' hclean hkept hp
          obtain ⟨hh, hf₀⟩ := hfile hf'
          rw [Disk.byteAt, hcontent]
          refine hc.stored hf₀ (fun {j s} hs hkey => ?_) hkept hp
          -- a block of another file stays in its slot
          have howned : s.ownedBy f.descriptor = false := by
            rw [Slot.ownedBy_of_key hkey, decide_eq_false_iff_not]
            exact fun howner => hh (hreg.apart hf hf₀ howner.symm)
          refine hclean (i := j) ?_ hkey
          show (c.pool.forget f.descriptor).2.slots[j]? = _
          rw [hslot, hs, Option.map_some, howned]
          rfl }

end Steps

end Cache

end BlockCache
