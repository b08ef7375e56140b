import BlockCache.Pool.Operation
import BlockCache.Proofs.Pool

/-!
Pools that find their blocks in different ways. A map from blocks to slots that is kept only by what
the pool tells it agrees at all times with a search of the slots, as long as blocks are let into
free slots only and no block is let in twice. Main statement: pools with the one and with the other
cannot be told apart by any operations on them, whatever the functions of the caller do.
-/

namespace BlockCache

namespace Pool

variable {β α : Type}

/-- A pool with a map that finds what a search of the slots of another pool finds, the two pools
being the same otherwise. -/
structure Tracks (p : Pool Scan) (q : Pool KeyMap) : Prop where
  slots_eq : q.slots = p.slots
  stats_eq : q.stats = p.stats
  get?_iff : ∀ key i, q.index.slotOf.get? key = some i ↔
    ∃ s, p.slots[i]? = some s ∧ s.key = some key

namespace Tracks

variable {p : Pool Scan} {q : Pool KeyMap}

/-- No block is in two slots, since the map has one slot for each. -/
theorem distinct (h : Tracks p q) {key : BlockId} {i j : Nat} {s t : Slot}
    (hs : p.slots[i]? = some s) (hkey : s.key = some key) (ht : p.slots[j]? = some t)
    (hkey' : t.key = some key) : i = j := by
  have hi := (h.get?_iff key i).mpr ⟨s, hs, hkey⟩
  have hj := (h.get?_iff key j).mpr ⟨t, ht, hkey'⟩
  exact Option.some.inj (hi.symm.trans hj)

theorem find_eq (h : Tracks p q) (key : BlockId) :
    Lookup.find q.index q.slots key = Lookup.find p.index p.slots key := by
  show q.index.slotOf.get? key = p.slots.findIdx? fun slot => slot.holds key
  cases hfind : p.slots.findIdx? fun slot => slot.holds key with
  | some i =>
      obtain ⟨hi, hholds, -⟩ := Array.findIdx?_eq_some_iff_getElem.mp hfind
      exact (h.get?_iff key i).mpr
        ⟨_, Array.getElem?_eq_getElem hi, (Slot.holds_iff _ _).mp hholds⟩
  | none =>
      rw [Array.findIdx?_eq_none_iff] at hfind
      rw [Option.eq_none_iff_forall_not_mem]
      intro i hget
      obtain ⟨s, hs, hkey⟩ := (h.get?_iff key i).mp hget
      have hholds := hfind s (Array.mem_of_getElem? hs)
      rw [(Slot.holds_iff _ _).mpr hkey] at hholds
      cases hholds

/-! ### Changes of one slot -/

theorem count (h : Tracks p q) (f : Stats → Stats) : Tracks (p.count f) (q.count f) where
  slots_eq := h.slots_eq
  stats_eq := congrArg f h.stats_eq
  get?_iff := h.get?_iff

/-- A slot whose block stays the same need not be told of. -/
theorem modifySlot (h : Tracks p q) (i : Nat) {f : Slot → Slot} (hf : ∀ s, (f s).key = s.key) :
    Tracks (p.modifySlot i f) (q.modifySlot i f) where
  slots_eq := congrArg (·.modify i f) h.slots_eq
  stats_eq := h.stats_eq
  get?_iff key j := by
    refine (h.get?_iff key j).trans ⟨fun ⟨s, hs, hkey⟩ => ?_, fun ⟨t, ht, hkey⟩ => ?_⟩
    · by_cases hj : j = i
      · subst hj
        exact ⟨f s, getElem?_modify_self hs, (hf s).trans hkey⟩
      · exact ⟨s, (getElem?_modify_other hj).trans hs, hkey⟩
    · rcases getElem?_modify_cases ht with ⟨s, hs, rfl, rfl⟩ | ⟨-, ht⟩
      · exact ⟨s, hs, (hf s).symm.trans hkey⟩
      · exact ⟨t, ht, hkey⟩

/-- A block is let into a slot: the map has it there then. -/
theorem assign (h : Tracks p q) {i : Nat} {s : Slot} {key : BlockId} (hs : p.slots[i]? = some s)
    (hfree : s.key = none) (habsent : ∀ (j : Nat) (t : Slot), p.slots[j]? = some t →
      t.key ≠ some key) :
    Tracks (p.assign i key) (q.assign i key) where
  slots_eq := congrArg (·.modify i (·.assign key)) h.slots_eq
  stats_eq := h.stats_eq
  get?_iff key' j := by
    show (q.index.slotOf.insert key i).get? key' = some j ↔
      ∃ t, (p.slots.modify i (·.assign key))[j]? = some t ∧ t.key = some key'
    rw [Catalog.get?_insert]
    by_cases hkey : key = key'
    · subst hkey
      rw [if_pos rfl]
      refine ⟨fun hij => ?_, fun ⟨t, ht, hkey⟩ => ?_⟩
      · obtain rfl := Option.some.inj hij
        exact ⟨s.assign key, getElem?_modify_self hs, s.key_assign key⟩
      · rcases getElem?_modify_cases ht with ⟨-, -, rfl, -⟩ | ⟨-, ht⟩
        · rfl
        · exact absurd hkey (habsent j t ht)
    · rw [if_neg hkey]
      refine (h.get?_iff key' j).trans ⟨fun ⟨t, ht, hkey'⟩ => ?_, fun ⟨t, ht, hkey'⟩ => ?_⟩
      · have hj : j ≠ i := by
          rintro rfl
          obtain rfl := Option.some.inj (hs.symm.trans ht)
          rw [hfree] at hkey'
          cases hkey'
        exact ⟨t, (getElem?_modify_other hj).trans ht, hkey'⟩
      · rcases getElem?_modify_cases ht with ⟨s', -, -, rfl⟩ | ⟨-, ht⟩
        · rw [s'.key_assign] at hkey'
          exact absurd (Option.some.inj hkey') hkey
        · exact ⟨t, ht, hkey'⟩

/-- A block leaves its slot: the map has it no longer then. -/
theorem vacate (h : Tracks p q) {i : Nat} {s : Slot} {key : BlockId} (hs : p.slots[i]? = some s)
    (hkey : s.key = some key) : Tracks (p.vacate i key) (q.vacate i key) where
  slots_eq := congrArg (·.modify i Slot.vacated) h.slots_eq
  stats_eq := h.stats_eq
  get?_iff key' j := by
    show (q.index.slotOf.erase key).get? key' = some j ↔
      ∃ t, (p.slots.modify i Slot.vacated)[j]? = some t ∧ t.key = some key'
    rw [Catalog.get?_erase]
    by_cases hkey' : key = key'
    · subst hkey'
      rw [if_pos rfl]
      refine ⟨fun hnone => (nomatch hnone), fun ⟨t, ht, hkey'⟩ => ?_⟩
      rcases getElem?_modify_cases ht with ⟨s', -, -, rfl⟩ | ⟨hj, ht⟩
      · cases hkey'
      · exact absurd (h.distinct ht hkey' hs hkey) hj
    · rw [if_neg hkey']
      refine (h.get?_iff key' j).trans ⟨fun ⟨t, ht, hkey''⟩ => ?_, fun ⟨t, ht, hkey''⟩ => ?_⟩
      · have hj : j ≠ i := by
          rintro rfl
          obtain rfl := Option.some.inj (hs.symm.trans ht)
          exact hkey' (Option.some.inj (hkey.symm.trans hkey''))
        exact ⟨t, (getElem?_modify_other hj).trans ht, hkey''⟩
      · rcases getElem?_modify_cases ht with ⟨s', -, -, rfl⟩ | ⟨-, ht⟩
        · cases hkey''
        · exact ⟨t, ht, hkey''⟩

/-! ### Operations -/

theorem capacity_eq (h : Tracks p q) : q.capacity = p.capacity := congrArg Array.size h.slots_eq

theorem victim_eq (h : Tracks p q) : q.victim = p.victim := by
  rw [victim, victim, h.slots_eq]

theorem blockAt_eq (h : Tracks p q) (i : Nat) : q.blockAt i = p.blockAt i := by
  rw [blockAt, blockAt, h.slots_eq]

theorem dirtyBlocks_eq (h : Tracks p q) (owner : Descriptor) :
    q.dirtyBlocks owner = p.dirtyBlocks owner := by
  rw [dirtyBlocks, dirtyBlocks, h.slots_eq]

theorem residents_eq (h : Tracks p q) (owner : Descriptor) :
    q.residents owner = p.residents owner := by
  rw [residents, residents, h.slots_eq]

theorem lookup (h : Tracks p q) (key : BlockId) :
    (q.lookup key).1 = (p.lookup key).1 ∧ Tracks (p.lookup key).2 (q.lookup key).2 := by
  rw [Pool.lookup, Pool.lookup, h.find_eq]
  cases Lookup.find p.index p.slots key with
  | some i =>
      have hbump := (h.modifySlot i Slot.key_bump).count Stats.hit
      refine ⟨?_, hbump⟩
      dsimp only
      rw [frequencyAt, frequencyAt, hbump.slots_eq]
  | none => exact ⟨rfl, h.count Stats.miss⟩

theorem evict (h : Tracks p q) {i : Nat} {s : Slot} (hs : p.slots[i]? = some s)
    (eviction : Eviction) (hkey : s.key = some eviction.key) :
    Tracks (p.evict i eviction) (q.evict i eviction) := by
  have hvacated := (h.vacate hs hkey).count Stats.evicted
  unfold Pool.evict
  split
  · exact hvacated.count _
  · exact hvacated

/-- What is left to show of an operation on both pools: the same answer and the same state of the
caller, and pools that still agree. -/
def Agree (x : (α × Pool Scan) × β) (y : (α × Pool KeyMap) × β) : Prop :=
  y.1.1 = x.1.1 ∧ y.2 = x.2 ∧ Tracks x.1.2 y.1.2

theorem makeRoom (h : Tracks p q) (writeBack : BlockId → Block → StateM β (Except Error Unit))
    (b : β) : Agree (p.makeRoom writeBack b) (q.makeRoom writeBack b) := by
  have hvictim := h.victim_eq
  have hslot : q.slots[q.victim]? = p.slots[p.victim]? := by rw [hvictim, h.slots_eq]
  cases hs : p.slots[p.victim]? with
  | none =>
      rw [hs] at hslot
      rw [p.makeRoom_of_none _ hs, q.makeRoom_of_none _ hslot, hvictim]
      exact ⟨rfl, rfl, h⟩
  | some s =>
      rw [hs] at hslot
      obtain ⟨block, dirty, tenant⟩ := s
      cases tenant with
      | none =>
          rw [p.makeRoom_of_free _ hs rfl, q.makeRoom_of_free _ hslot rfl, hvictim]
          exact ⟨rfl, rfl, h⟩
      | some tenant =>
          cases dirty with
          | false =>
              rw [p.makeRoom_of_clean _ hs, q.makeRoom_of_clean _ hslot, hvictim]
              exact ⟨rfl, rfl, h.evict hs ⟨tenant.key, tenant.frequency, none⟩ rfl⟩
          | true =>
              rw [p.makeRoom_of_dirty _ hs, q.makeRoom_of_dirty _ hslot, hvictim]
              exact ⟨rfl, rfl, h.evict hs ⟨tenant.key, tenant.frequency, some _⟩ rfl⟩

section Filling

variable {slot : Nat} {key : BlockId} {s : Slot}

/-- A slot is filled and taken by a block. -/
theorem take (h : Tracks p q) (hs : p.slots[slot]? = some s) (hfree : s.key = none)
    (habsent : ∀ (j : Nat) (t : Slot), p.slots[j]? = some t → t.key ≠ some key) (block : Block) :
    Tracks (((p.modifySlot slot (·.setBlock block)).assign slot key).count Stats.filled)
      (((q.modifySlot slot (·.setBlock block)).assign slot key).count Stats.filled) := by
  have hset := h.modifySlot slot fun s => s.key_setBlock block
  refine (hset.assign (getElem?_modify_self hs) hfree fun j t ht => ?_).count _
  rcases getElem?_modify_cases ht with ⟨s', hs', -, rfl⟩ | ⟨-, ht⟩
  · exact habsent slot s' hs'
  · exact habsent j t ht

theorem fill (h : Tracks p q) (hs : p.slots[slot]? = some s) (hfree : s.key = none)
    (habsent : ∀ (j : Nat) (t : Slot), p.slots[j]? = some t → t.key ≠ some key)
    (read : Block → StateM β (Except Error Nat × Block)) (b : β) :
    Agree (p.fill slot key read b) (q.fill slot key read b) := by
  rcases hread : read (p.blockAt slot) b with ⟨⟨outcome, block⟩, b'⟩
  have hread' : read (q.blockAt slot) b = ((outcome, block), b') := by rw [h.blockAt_eq, hread]
  cases outcome with
  | ok n =>
      rw [p.fill_of_ok hread, q.fill_of_ok hread']
      exact ⟨rfl, rfl, h.take hs hfree habsent _⟩
  | error e =>
      rw [p.fill_of_error hread, q.fill_of_error hread']
      exact ⟨rfl, rfl, h.modifySlot slot fun s => s.key_setBlock block⟩

theorem fillOrZero (h : Tracks p q) (hs : p.slots[slot]? = some s) (hfree : s.key = none)
    (habsent : ∀ (j : Nat) (t : Slot), p.slots[j]? = some t → t.key ≠ some key)
    (read : Block → StateM β (Except Error Nat × Block)) (b : β) :
    Agree (p.fillOrZero slot key read b) (q.fillOrZero slot key read b) := by
  rcases hread : read (p.blockAt slot) b with ⟨⟨outcome, block⟩, b'⟩
  have hread' : read (q.blockAt slot) b = ((outcome, block), b') := by rw [h.blockAt_eq, hread]
  cases outcome with
  | ok n =>
      rw [p.fillOrZero_of_ok hread, q.fillOrZero_of_ok hread']
      exact ⟨rfl, rfl, h.take hs hfree habsent _⟩
  | error e =>
      rw [p.fillOrZero_of_error hread, q.fillOrZero_of_error hread']
      exact ⟨rfl, rfl, h.take hs hfree habsent _⟩

end Filling

theorem settle (h : Tracks p q) (attempt : WriteAttempt) :
    Tracks (p.settle attempt) (q.settle attempt) := by
  unfold Pool.settle
  dsimp only
  split
  · exact (h.count _).modifySlot _ fun _ => rfl
  · exact h.count _

theorem foldl_settle (h : Tracks p q) (attempts : List WriteAttempt) :
    Tracks (attempts.foldl Pool.settle p) (attempts.foldl Pool.settle q) := by
  induction attempts generalizing p q with
  | nil => exact h
  | cons attempt rest ih => exact ih (h.settle attempt)

theorem flush (h : Tracks p q) (owner : Descriptor)
    (writeBack : BlockId → Block → StateM β (Except Error Unit)) (b : β) :
    Agree (p.flush owner writeBack b) (q.flush owner writeBack b) := by
  rw [flush_apply, flush_apply, h.dirtyBlocks_eq]
  exact ⟨rfl, rfl, h.foldl_settle _⟩

/-- Blocks leave their slots one after the other. -/
theorem foldl_vacate (h : Tracks p q) {gone : List (Nat × BlockId)}
    (hdistinct : gone.Pairwise fun r r' => r.1 ≠ r'.1)
    (hgone : ∀ r ∈ gone, ∃ s, p.slots[r.1]? = some s ∧ s.key = some r.2) :
    Tracks (gone.foldl (fun pool r => pool.vacate r.1 r.2) p)
      (gone.foldl (fun pool r => pool.vacate r.1 r.2) q) := by
  induction gone generalizing p q with
  | nil => exact h
  | cons first rest ih =>
      obtain ⟨hfirst, hdistinct⟩ := List.pairwise_cons.mp hdistinct
      obtain ⟨s, hs, hkey⟩ := hgone first List.mem_cons_self
      refine ih (h.vacate hs hkey) hdistinct fun r hr => ?_
      obtain ⟨t, ht, hkey'⟩ := hgone r (List.mem_cons_of_mem _ hr)
      exact ⟨t, (getElem?_modify_other (hfirst r hr).symm).trans ht, hkey'⟩

theorem forget (h : Tracks p q) (owner : Descriptor) :
    (q.forget owner).1 = (p.forget owner).1 ∧ Tracks (p.forget owner).2 (q.forget owner).2 := by
  rw [Pool.forget, Pool.forget, h.residents_eq]
  refine ⟨rfl, h.foldl_vacate (p.pairwise_residents owner) fun r hr => ?_⟩
  obtain ⟨s, hs, hkey, -⟩ := p.mem_residents.mp hr
  exact ⟨s, hs, hkey⟩

/-- A change that may be out of range is so for both pools. -/
theorem changed (h : Tracks p q) {P : Prop} [Decidable P] {p' : Pool Scan} {q' : Pool KeyMap}
    (h' : Tracks p' q') :
    (q.changed? (if P then some q' else none)).1 = (p.changed? (if P then some p' else none)).1 ∧
      Tracks (p.changed? (if P then some p' else none)).2
        (q.changed? (if P then some q' else none)).2 := by
  by_cases hP : P
  · rw [if_pos hP, if_pos hP]
    exact ⟨rfl, h'⟩
  · rw [if_neg hP, if_neg hP]
    exact ⟨rfl, h⟩

/-- What an admitted operation lets a block into: a free slot, the block being in none. -/
theorem isAdmitted_iff {pool : Pool Scan} {slot : Nat} {key : BlockId} :
    (pool.slots[slot]?.any Slot.isFree && !pool.holds key) = true ↔
      (∃ s, pool.slots[slot]? = some s ∧ s.key = none) ∧
        ∀ (j : Nat) (t : Slot), pool.slots[j]? = some t → t.key ≠ some key := by
  rw [Bool.and_eq_true, Option.any_eq_true, Bool.not_eq_true', holds, Array.any_eq_false']
  refine and_congr (exists_congr fun s => and_congr Iff.rfl ?_) ⟨fun hnone j t ht hkey => ?_, ?_⟩
  · rw [Slot.isFree, Option.isNone_iff_eq_none, Slot.key_eq_none_iff]
  · exact hnone t (Array.mem_of_getElem? ht) ((t.holds_iff key).mpr hkey)
  · intro habsent t ht hholds
    obtain ⟨j, hj⟩ := Array.mem_iff_getElem?.mp ht
    exact habsent j t hj ((t.holds_iff key).mp hholds)

/-- An admitted operation does the same to both pools, and they agree afterwards. -/
theorem run (h : Tracks p q) {operation : Operation β} (hadmitted : operation.isAdmitted p = true)
    (b : β × List Consultation) : Agree (operation.run p b) (operation.run q b) := by
  cases operation with
  | lookup key =>
      obtain ⟨hanswer, htracks⟩ := h.lookup key
      exact ⟨congrArg Answer.hit hanswer, rfl, htracks⟩
  | victim => exact ⟨congrArg Answer.slot h.victim_eq, rfl, h⟩
  | makeRoom writeBack =>
      obtain ⟨hroom, hb, htracks⟩ := h.makeRoom (notedWriteBack writeBack) b
      exact ⟨congrArg Answer.room hroom, hb, htracks⟩
  | fill slot key read =>
      obtain ⟨⟨s, hs, hfree⟩, habsent⟩ := isAdmitted_iff.mp hadmitted
      obtain ⟨houtcome, hb, htracks⟩ := h.fill hs hfree habsent (notedRead read) b
      exact ⟨congrArg Answer.filled houtcome, hb, htracks⟩
  | fillOrZero slot key read =>
      obtain ⟨⟨s, hs, hfree⟩, habsent⟩ := isAdmitted_iff.mp hadmitted
      obtain ⟨hfailure, hb, htracks⟩ := h.fillOrZero hs hfree habsent (notedRead read) b
      exact ⟨congrArg Answer.zeroed hfailure, hb, htracks⟩
  | assign slot key =>
      obtain ⟨⟨s, hs, hfree⟩, habsent⟩ := isAdmitted_iff.mp hadmitted
      exact ⟨rfl, rfl, h.assign hs hfree habsent⟩
  | setBlock slot block =>
      obtain ⟨hanswer, htracks⟩ :=
        h.changed (P := slot < p.capacity) (h.modifySlot slot fun s => s.key_setBlock block)
      rw [Operation.run, Operation.run, h.capacity_eq]
      exact ⟨hanswer, rfl, htracks⟩
  | setDirty slot =>
      obtain ⟨hanswer, htracks⟩ :=
        h.changed (P := slot < p.capacity) (h.modifySlot slot Slot.key_dirtied)
      rw [Operation.run, Operation.run, setDirty?, setDirty?, h.capacity_eq]
      exact ⟨hanswer, rfl, htracks⟩
  | write slot start bytes =>
      obtain ⟨hanswer, htracks⟩ :=
        h.changed (P := slot < p.capacity ∧ start + bytes.size ≤ blockSize)
          (h.modifySlot slot fun s => s.key_write start bytes)
      rw [Operation.run, Operation.run, write?, write?, h.capacity_eq]
      exact ⟨hanswer, rfl, htracks⟩
  | flush owner writeBack =>
      obtain ⟨hflush, hb, htracks⟩ := h.flush owner (notedWriteBack writeBack) b
      exact ⟨congrArg Answer.flushed hflush, hb, htracks⟩
  | forget owner =>
      obtain ⟨hcount, htracks⟩ := h.forget owner
      exact ⟨congrArg Answer.forgotten hcount, rfl, htracks⟩

/-- Admitted operations are observed alike on both pools. -/
theorem observe (h : Tracks p q) {operations : List (Operation β)} {b : β}
    (hadmitted : allAdmitted operations p b = true) :
    Pool.observe operations q b = Pool.observe operations p b := by
  induction operations generalizing p q b with
  | nil => rfl
  | cons operation rest ih =>
      rw [allAdmitted, Bool.and_eq_true] at hadmitted
      obtain ⟨hfirst, hrest⟩ := hadmitted
      have hagree := h.run hfirst (b, [])
      rcases hp : operation.run p (b, []) with ⟨⟨answer, p'⟩, b', log⟩
      rcases hq : operation.run q (b, []) with ⟨⟨answer', q'⟩, b'', log'⟩
      rw [hp, hq] at hagree
      obtain ⟨rfl, hcaller, htracks⟩ := hagree
      obtain ⟨rfl, rfl⟩ := Prod.mk.inj hcaller
      rw [hp] at hrest
      rw [Pool.observe, Pool.observe, hp, hq]
      dsimp only
      rw [ih htracks hrest, htracks.slots_eq, htracks.stats_eq]

end Tracks

/-- Pools of blank slots agree: there is no block in either. -/
theorem tracks_blank (capacity : Nat) :
    Tracks ⟨Array.replicate capacity Slot.blank, Scan.mk, {}⟩
      ⟨Array.replicate capacity Slot.blank, KeyMap.empty, {}⟩ := by
  refine ⟨rfl, rfl, fun key i => ⟨fun hget => (nomatch hget), fun ⟨s, hs, hkey⟩ => ?_⟩⟩
  rw [Array.getElem?_replicate] at hs
  split at hs
  · obtain rfl := Option.some.inj hs
    cases hkey
  · cases hs

/-- A pool that finds its blocks by a map and one that searches its slots cannot be told apart:
whatever the functions of the caller do, admitted operations have the same answers, use these
functions on the same blocks, and leave the same slots, counters and state of the caller after every
one of them. -/
theorem observe_keyMap {capacity : Nat} {allocator : Allocator} {operations : List (Operation β)}
    {b : β}
    (hadmitted : ∀ pool, Pool.create capacity Scan.mk allocator = .ok pool →
      allAdmitted operations pool b = true) :
    (Pool.create capacity KeyMap.empty allocator).map (fun pool => observe operations pool b) =
      (Pool.create capacity Scan.mk allocator).map (fun pool => observe operations pool b) := by
  cases hgranted : allocator.refusal capacity with
  | none =>
      have hscan := create_of_granted hgranted Scan.mk
      rw [create_of_granted hgranted KeyMap.empty, hscan]
      exact congrArg Except.ok ((tracks_blank capacity).observe (hadmitted _ hscan))
  | some e =>
      rw [create_of_refused hgranted KeyMap.empty, create_of_refused hgranted Scan.mk]
      rfl

/-- Two slots through which three blocks pass. The caller counts its calls: the first reading fails,
and so do the writing back of the block that is put out and the reading of the one that enters its
slot; then all blocks of the owner are forgotten. -/
def passingOperations : List (Operation Nat) :=
  let failing {α : Type} (a : α) : StateM Nat α := fun n => (a, n + 1)
  [.lookup ⟨3, 0⟩, .makeRoom fun _ _ => failing (.error .noOwner),
    .fill 0 ⟨3, 0⟩ fun block => failing (.error .noOwner, block.blit 0 ⟨#[1]⟩),
    .fill 0 ⟨3, 0⟩ fun block => failing (.ok 1, block.blit 0 ⟨#[2]⟩), .setDirty 0,
    .assign 1 ⟨3, 1⟩, .write 1 0 ⟨#[3]⟩, .lookup ⟨3, 0⟩,
    .makeRoom fun _ _ => failing (.error .shortWrite),
    .fillOrZero 0 ⟨3, 2⟩ fun block => failing (.error .noOwner, block),
    .flush 3 fun key _ => failing (if key.index = 1 then .ok () else .error .shortWrite),
    .forget 3, .lookup ⟨3, 2⟩]

theorem observe_keyMap_passing :
    (∀ pool, Pool.create 2 Scan.mk = .ok pool → allAdmitted passingOperations pool 0 = true) ∧
      (Pool.create 2 KeyMap.empty).map (fun pool => observe passingOperations pool 0) =
        (Pool.create 2 Scan.mk).map (fun pool => observe passingOperations pool 0) := by
  have hadmitted : ∀ pool, Pool.create 2 Scan.mk = .ok pool →
      allAdmitted passingOperations pool 0 = true := by
    intro pool hpool
    obtain rfl := Except.ok.inj hpool
    decide +kernel
  exact ⟨hadmitted, observe_keyMap hadmitted⟩

end Pool

end BlockCache
