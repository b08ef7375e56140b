import BlockCache.Pool.Operation
import BlockCache.Proofs.Pool

/-!
Which block makes room for another one. The frequency of a block counts how often it was found since
it entered its slot, whatever else was done to the pool; and the slot that makes room is the first
free one, or else the first of those whose blocks were found most often. The block in it is written
back if it is dirty, and is gone then even if that failed.
-/

namespace BlockCache

namespace Pool

variable {ι β : Type}

/-! ### What was done to a pool -/

/-- An operation that was carried out, and its answer. -/
structure Deed (β : Type) where
  operation : Operation β
  answer : Answer

namespace Deed

def occupies (slot : Nat) : Deed β → Bool
  | ⟨.fill i .., .filled (.ok ())⟩ | ⟨.fillOrZero i .., _⟩ | ⟨.assign i _, _⟩ => i == slot
  | _ => false

def finds (slot : Nat) : Deed β → Bool
  | ⟨_, .hit (some hit)⟩ => hit.slot == slot
  | _ => false

end Deed

/-- How often a block was found in a slot since one entered it last. -/
def findsSince (slot : Nat) (past : List (Deed β)) : Nat :=
  (past.reverse.takeWhile fun d => !d.occupies slot).countP (·.finds slot)

theorem findsSince_append (slot : Nat) (past : List (Deed β)) (d : Deed β) :
    findsSince slot (past ++ [d]) =
      if d.occupies slot then 0 else findsSince slot past + if d.finds slot then 1 else 0 := by
  rw [findsSince, findsSince, List.reverse_append, List.reverse_singleton, List.singleton_append,
    List.takeWhile_cons]
  cases d.occupies slot with
  | true => rfl
  | false => exact List.countP_cons

variable [Lookup ι]

/-- Carries operations out one after the other, and tells them with their answers. -/
def perform : List (Operation β) → Pool ι → β → List (Deed β) × Pool ι × β
  | [], pool, b => ([], pool, b)
  | operation :: rest, pool, b =>
      match operation.run pool (b, []) with
      | ((answer, pool), (b, _)) =>
          match perform rest pool b with
          | (deeds, pool, b) => (⟨operation, answer⟩ :: deeds, pool, b)

/-! ### One operation -/

/-- The frequencies after an operation: that of a block that entered a slot is one, and any other
one is what it was, or one more if the block was found. -/
structure Recounts (d : Deed β) (pool pool' : Pool ι) : Prop where
  size_eq : pool'.slots.size = pool.slots.size
  frequency_eq : ∀ {i : Nat} {tenant : Tenant}, pool'.tenantAt i = some tenant →
    (d.occupies i = true ∧ tenant.frequency = 1) ∨
      (d.occupies i = false ∧ ∃ old, pool.tenantAt i = some old ∧
        tenant.frequency = old.frequency + if d.finds i then 1 else 0)

variable {pool pool' : Pool ι} {operation : Operation β} {answer : Answer}

omit [Lookup ι] in
theorem tenantAt_of_modify {i j : Nat} {g : Slot → Slot}
    (hslots : pool'.slots = pool.slots.modify i g) :
    pool'.tenantAt j =
      if i = j then pool.slots[j]?.bind fun s => (g s).tenant else pool.tenantAt j := by
  rw [tenantAt, tenantAt, hslots, Array.getElem?_modify]
  split
  · rw [Option.bind_map]
    rfl
  · rfl

omit [Lookup ι] in
/-- An operation after which no slot has another block than before. -/
theorem recounts_kept {d : Deed β} (hsize : pool'.slots.size = pool.slots.size)
    (hkept : ∀ {i : Nat} {tenant : Tenant}, pool'.tenantAt i = some tenant →
      pool.tenantAt i = some tenant)
    (hoccupies : ∀ i, d.occupies i = false) (hfinds : ∀ i, d.finds i = false) :
    Recounts d pool pool' where
  size_eq := hsize
  frequency_eq := by
    intro i tenant ht
    exact Or.inr ⟨hoccupies i, tenant, hkept ht, by rw [hfinds]; rfl⟩

omit [Lookup ι] in
/-- The same for an operation that changes one slot, but not which block is in it. -/
theorem recounts_modified {d : Deed β} {slot : Nat} {g : Slot → Slot}
    (hslots : pool'.slots = pool.slots.modify slot g) (hg : ∀ s, (g s).tenant = s.tenant)
    (hoccupies : ∀ i, d.occupies i = false) (hfinds : ∀ i, d.finds i = false) :
    Recounts d pool pool' := by
  refine recounts_kept (by rw [hslots, Array.size_modify]) (fun {i tenant} ht => ?_) hoccupies
    hfinds
  rw [tenantAt_of_modify hslots] at ht
  split at ht
  · simp only [hg] at ht
    exact ht
  · exact ht

omit [Lookup ι] in
/-- An operation by which a block enters a slot. -/
theorem recounts_taken {d : Deed β} {slot : Nat} {key : BlockId} {g : Slot → Slot}
    (hslots : pool'.slots = pool.slots.modify slot g) (hg : ∀ s, (g s).tenant = some ⟨key, 1⟩)
    (hoccupies : ∀ i, d.occupies i = (slot == i)) (hfinds : ∀ i, d.finds i = false) :
    Recounts d pool pool' where
  size_eq := by rw [hslots, Array.size_modify]
  frequency_eq := by
    intro i tenant ht
    rw [tenantAt_of_modify hslots] at ht
    rw [hoccupies, hfinds]
    split at ht
    · rename_i hi
      obtain ⟨s, -, hs⟩ := Option.bind_eq_some_iff.mp ht
      rw [hg] at hs
      obtain rfl := Option.some.inj hs
      exact Or.inl ⟨beq_iff_eq.mpr hi, rfl⟩
    · rename_i hi
      exact Or.inr ⟨beq_eq_false_iff_ne.mpr hi, tenant, ht, rfl⟩

/-- The frequencies after a look-up. -/
theorem recounts_lookup (key : BlockId) (pool : Pool ι) :
    Recounts (β := β) ⟨.lookup key, .hit (pool.lookup key).1⟩ pool (pool.lookup key).2 := by
  rw [lookup]
  cases Lookup.find pool.index pool.slots key with
  | none => exact recounts_kept rfl id (fun _ => rfl) fun _ => rfl
  | some slot =>
      have hslots : ((pool.modifySlot slot Slot.bump).count Stats.hit).slots =
          pool.slots.modify slot Slot.bump := rfl
      refine ⟨by rw [hslots, Array.size_modify], fun {i tenant} ht => Or.inr ⟨rfl, ?_⟩⟩
      change ((pool.modifySlot slot Slot.bump).count Stats.hit).tenantAt i = some tenant at ht
      rw [tenantAt_of_modify hslots] at ht
      show ∃ old, pool.tenantAt i = some old ∧
        tenant.frequency = old.frequency + if (slot == i) = true then 1 else 0
      split at ht
      · rename_i hi
        obtain ⟨s, hs, hbump⟩ := Option.bind_eq_some_iff.mp ht
        obtain ⟨old, hold, rfl⟩ := Option.map_eq_some_iff.mp hbump
        refine ⟨old, Option.bind_eq_some_iff.mpr ⟨s, hs, hold⟩, ?_⟩
        rw [if_pos (beq_iff_eq.mpr hi)]
      · rename_i hi
        refine ⟨tenant, ht, ?_⟩
        rw [if_neg fun heq => hi (beq_iff_eq.mp heq), Nat.add_zero]

/-- The frequencies after room was made. -/
theorem recounts_makeRoom (writeBack : BlockId → Block → StateM β (Except Error Unit))
    (pool : Pool ι) (x : β × List Consultation) :
    Recounts ⟨.makeRoom writeBack, .room (pool.makeRoom (notedWriteBack writeBack) x).1.1⟩ pool
      (pool.makeRoom (notedWriteBack writeBack) x).1.2 := by
  have hvacated : ∀ (eviction : Eviction) (room : Room),
      Recounts (β := β) ⟨.makeRoom writeBack, .room room⟩ pool
        (pool.evict pool.victim eviction) := by
    intro eviction room
    have hslots := pool.slots_evict pool.victim eviction
    refine recounts_kept (by rw [hslots, Array.size_modify]) (fun {i tenant} ht => ?_)
      (fun _ => rfl) fun _ => rfl
    rw [tenantAt_of_modify hslots] at ht
    split at ht
    · obtain ⟨s, -, hs⟩ := Option.bind_eq_some_iff.mp ht
      cases hs
    · exact ht
  cases hs : pool.slots[pool.victim]? with
  | none =>
      rw [pool.makeRoom_of_none _ hs]
      exact recounts_kept rfl id (fun _ => rfl) fun _ => rfl
  | some s =>
      obtain ⟨block, dirty, _ | tenant⟩ := s
      · rw [pool.makeRoom_of_free _ hs rfl]
        exact recounts_kept rfl id (fun _ => rfl) fun _ => rfl
      · cases dirty with
        | false =>
            rw [pool.makeRoom_of_clean _ hs]
            dsimp only
            exact hvacated _ _
        | true =>
            rw [pool.makeRoom_of_dirty _ hs]
            dsimp only
            exact hvacated _ _

/-- The frequencies after any operation. -/
theorem Operation.recounts (operation : Operation β) (pool : Pool ι) (x : β × List Consultation) :
    Recounts ⟨operation, (operation.run pool x).1.1⟩ pool (operation.run pool x).1.2 := by
  cases operation with
  | lookup key => exact recounts_lookup key pool
  | victim => exact recounts_kept rfl id (fun _ => rfl) fun _ => rfl
  | makeRoom writeBack => exact recounts_makeRoom writeBack pool x
  | fill slot key read =>
      rw [Operation.run, bind_apply]
      rcases hread : notedRead read (pool.blockAt slot) x with ⟨⟨_ | n, block⟩, x'⟩
      · rw [pool.fill_of_error hread]
        exact recounts_modified (pool.slots_modifySlot slot _) (fun _ => rfl) (fun _ => rfl)
          fun _ => rfl
      · rw [pool.fill_of_ok hread]
        exact recounts_taken (pool.slots_take slot key _ _) (fun _ => rfl) (fun _ => rfl)
          fun _ => rfl
  | fillOrZero slot key read =>
      rw [Operation.run, bind_apply]
      rcases hread : notedRead read (pool.blockAt slot) x with ⟨⟨_ | n, block⟩, x'⟩
      · rw [pool.fillOrZero_of_error hread]
        exact recounts_taken (pool.slots_take slot key _ _) (fun _ => rfl) (fun _ => rfl)
          fun _ => rfl
      · rw [pool.fillOrZero_of_ok hread]
        exact recounts_taken (pool.slots_take slot key _ _) (fun _ => rfl) (fun _ => rfl)
          fun _ => rfl
  | assign slot key =>
      exact recounts_taken (pool.slots_assign slot key) (fun _ => rfl) (fun _ => rfl) fun _ => rfl
  | setBlock slot block =>
      rw [Operation.run, pure_apply, changed?]
      split
      · exact recounts_modified (pool.slots_modifySlot slot _) (fun _ => rfl) (fun _ => rfl)
          fun _ => rfl
      · exact recounts_kept rfl id (fun _ => rfl) fun _ => rfl
  | setDirty slot =>
      rw [Operation.run, pure_apply, changed?, setDirty?]
      split
      · exact recounts_modified (pool.slots_modifySlot slot _) (fun _ => rfl) (fun _ => rfl)
          fun _ => rfl
      · exact recounts_kept rfl id (fun _ => rfl) fun _ => rfl
  | write slot start bytes =>
      rw [Operation.run, pure_apply, changed?, write?]
      split
      · exact recounts_modified (pool.slots_write slot start bytes) (fun _ => rfl) (fun _ => rfl)
          fun _ => rfl
      · exact recounts_kept rfl id (fun _ => rfl) fun _ => rfl
  | flush owner writeBack =>
      refine recounts_kept (pool.size_flush owner _ x) (fun {i tenant} ht => ?_) (fun _ => rfl)
        fun _ => rfl
      obtain ⟨s', hs', htenant'⟩ := Option.bind_eq_some_iff.mp ht
      have hlt : i < pool.slots.size := by
        rw [← pool.size_flush owner (notedWriteBack writeBack) x]
        exact (Array.getElem?_eq_some_iff.mp hs').1
      obtain ⟨s, hs, htenant, -⟩ := pool.tenant_flush owner (notedWriteBack writeBack) x
        (Array.getElem?_eq_getElem hlt)
      obtain rfl := Option.some.inj (hs.symm.trans hs')
      exact Option.bind_eq_some_iff.mpr ⟨_, Array.getElem?_eq_getElem hlt, htenant ▸ htenant'⟩
  | forget owner =>
      have hslots := pool.slots_forget owner
      refine recounts_kept ((congrArg Array.size hslots).trans Array.size_map)
        (fun {i tenant} ht => ?_) (fun _ => rfl) fun _ => rfl
      change (pool.forget owner).2.tenantAt i = some tenant at ht
      rw [tenantAt, hslots, Array.getElem?_map, Option.bind_map] at ht
      obtain ⟨s, hs, htenant⟩ := Option.bind_eq_some_iff.mp ht
      refine Option.bind_eq_some_iff.mpr ⟨s, hs, ?_⟩
      dsimp only [Function.comp] at htenant
      split at htenant
      · cases htenant
      · exact htenant

/-! ### Any number of operations -/

/-- Whether the frequency of every block is one more than the number of times it was found since it
entered its slot. -/
def Counted (past : List (Deed β)) (pool : Pool ι) : Prop :=
  ∀ {i : Nat} {tenant : Tenant}, pool.tenantAt i = some tenant →
    tenant.frequency = 1 + findsSince i past

omit [Lookup ι] in
theorem Recounts.counted {d : Deed β} {past : List (Deed β)} (h : Recounts d pool pool')
    (hcounted : Counted past pool) : Counted (past ++ [d]) pool' := by
  intro i tenant ht
  rw [findsSince_append]
  obtain ⟨hoccupies, hone⟩ | ⟨hoccupies, old, hold, hfrequency⟩ := h.frequency_eq ht
  · rw [hoccupies, hone]
    rfl
  · rw [hoccupies, hfrequency, hcounted hold, Nat.add_assoc]
    rfl

/-- What is kept by one operation is kept by any number of them. -/
theorem counted_perform {past : List (Deed β)} (hcounted : Counted past pool)
    (operations : List (Operation β)) (b : β) :
    Counted (past ++ (perform operations pool b).1) (perform operations pool b).2.1 ∧
      (perform operations pool b).2.1.slots.size = pool.slots.size := by
  induction operations generalizing past pool b with
  | nil =>
      rw [perform, List.append_nil]
      exact ⟨hcounted, rfl⟩
  | cons operation rest ih =>
      have hrecounts := operation.recounts pool (b, [])
      rcases hrun : operation.run pool (b, []) with ⟨⟨answer, pool'⟩, b', log⟩
      rw [hrun] at hrecounts
      obtain ⟨hrest, hsize⟩ := ih (hrecounts.counted hcounted) b'
      rw [perform, hrun]
      refine ⟨?_, hsize.trans hrecounts.size_eq⟩
      rw [List.append_assoc] at hrest
      exact hrest

omit [Lookup ι] in
theorem counted_create {capacity : Nat} {index : ι} {allocator : Allocator}
    (h : Pool.create capacity index allocator = .ok pool) :
    Counted ([] : List (Deed β)) pool ∧ 0 < pool.slots.size := by
  obtain ⟨hpos, hslots⟩ := slots_create h
  refine ⟨fun {i tenant} ht => ?_, by rw [hslots, Array.size_replicate]; exact hpos⟩
  obtain ⟨s, hs, htenant⟩ := Option.bind_eq_some_iff.mp ht
  rw [hslots, Array.getElem?_replicate] at hs
  split at hs
  · obtain rfl := Option.some.inj hs
    cases htenant
  · cases hs

/-! ### Making room -/

/-- The frequency at which slots make room is the greatest one. -/
theorem max?_evictedFrequency {slots : Array Slot} (hpos : 0 < slots.size) :
    (slots.toList.map Slot.frequency).max? = some (evictedFrequency slots) := by
  have hstep : ∀ (best : Nat) (s : Slot),
      (if goesBefore s.frequency best then s.frequency else best) = max best s.frequency := by
    intro best s
    have hbefore : goesBefore s.frequency best = decide (best < s.frequency) := rfl
    rw [hbefore]
    simp only [decide_eq_true_eq]
    split <;> omega
  obtain ⟨_ | ⟨s, rest⟩⟩ := slots
  · exact absurd hpos (Nat.lt_irrefl 0)
  · simp only [evictedFrequency, hstep, List.map_cons, List.max?_cons', Option.some.injEq]
    simp only [List.size_toArray, List.length_cons, List.getElem?_toArray, List.getElem?_cons_zero,
      Option.map_some, Option.getD_some, List.foldl_toArray', List.foldl_cons, Nat.max_self,
      List.foldl_map]

omit [Lookup ι] in
/-- While there are free slots the first of them makes room. -/
theorem victim_of_free (hfree : ∃ t ∈ pool.slots, t.isFree = true) :
    ∃ s, pool.slots[pool.victim]? = some s ∧ s.isFree = true ∧
      ∀ (j : Nat) (t : Slot), j < pool.victim → pool.slots[j]? = some t → t.isFree = false := by
  obtain ⟨i, hi⟩ : ∃ i, pool.slots.findIdx? Slot.isFree = some i := by
    rw [← Option.isSome_iff_exists, Array.findIdx?_isSome, Array.any_eq_true']
    exact hfree
  obtain ⟨hlt, hslot, hbefore⟩ := Array.findIdx?_eq_some_iff_getElem.mp hi
  rw [victim, hi]
  refine ⟨_, Array.getElem?_eq_getElem hlt, hslot, fun j t hj ht => ?_⟩
  obtain ⟨hlt', rfl⟩ := Array.getElem?_eq_some_iff.mp ht
  exact Bool.eq_false_iff.mpr (hbefore j hj)

omit [Lookup ι] in
/-- If there is none, it is the first of the slots whose frequency is greatest. -/
theorem victim_of_full (hpos : 0 < pool.slots.size) (hfull : ∀ t ∈ pool.slots, t.isFree = false) :
    ∃ s, pool.slots[pool.victim]? = some s ∧ ∀ (j : Nat) (t : Slot), pool.slots[j]? = some t →
      t.frequency ≤ s.frequency ∧ (j < pool.victim → t.frequency < s.frequency) := by
  obtain ⟨hattained, hgreatest⟩ := List.max?_eq_some_iff.mp (max?_evictedFrequency hpos)
  obtain ⟨s₀, hs₀, hfrequency₀⟩ := List.mem_map.mp hattained
  have hnone : pool.slots.findIdx? Slot.isFree = none := Array.findIdx?_eq_none_iff.mpr hfull
  obtain ⟨i, hi⟩ : ∃ i, (pool.slots.findIdx? fun s =>
      s.frequency == evictedFrequency pool.slots) = some i := by
    rw [← Option.isSome_iff_exists, Array.findIdx?_isSome, Array.any_eq_true']
    exact ⟨s₀, Array.mem_toList_iff.mp hs₀, beq_iff_eq.mpr hfrequency₀⟩
  obtain ⟨hlt, hslot, hbefore⟩ := Array.findIdx?_eq_some_iff_getElem.mp hi
  have hvictim : pool.victim = i := by
    rw [victim, hnone]
    show (pool.slots.findIdx? fun s => s.frequency == evictedFrequency pool.slots).getD 0 = i
    rw [hi, Option.getD_some]
  rw [hvictim]
  refine ⟨_, Array.getElem?_eq_getElem hlt, fun j t ht => ?_⟩
  obtain ⟨hlt', rfl⟩ := Array.getElem?_eq_some_iff.mp ht
  have hle : pool.slots[j].frequency ≤ evictedFrequency pool.slots :=
    hgreatest _ (List.mem_map.mpr ⟨_, Array.mem_toList_iff.mpr (Array.getElem_mem hlt'), rfl⟩)
  rw [beq_iff_eq.mp hslot]
  refine ⟨hle, fun hj => Nat.lt_of_le_of_ne hle fun heq => hbefore j hj (beq_iff_eq.mpr heq)⟩

theorem Operation.run_makeRoom (writeBack : BlockId → Block → StateM β (Except Error Unit))
    (pool : Pool ι) (x : β × List Consultation) :
    (Operation.makeRoom writeBack).run pool x =
      ((.room (pool.makeRoom (notedWriteBack writeBack) x).1.1,
        (pool.makeRoom (notedWriteBack writeBack) x).1.2),
        (pool.makeRoom (notedWriteBack writeBack) x).2) := rfl

/-- What making room in a full pool does to its slots, and whether it writes a block back. -/
theorem makeRoom_of_full {s : Slot} (hs : pool.slots[pool.victim]? = some s)
    (hoccupied : s.isFree = false) (writeBack : BlockId → Block → StateM β (Except Error Unit))
    (b : β) :
    let run := pool.makeRoom (notedWriteBack writeBack) (b, [])
    run.1.1.slot = pool.victim ∧
      (∃ key, s.key = some key ∧
        run.2.2 = if s.dirty then [.writeBack key s.block] else []) ∧
      run.1.2.slots = pool.slots.modify pool.victim Slot.vacated := by
  obtain ⟨block, dirty, _ | tenant⟩ := s
  · cases hoccupied
  · cases dirty with
    | false =>
        rw [pool.makeRoom_of_clean _ hs]
        exact ⟨rfl, ⟨tenant.key, rfl, rfl⟩, pool.slots_evict _ _⟩
    | true =>
        rw [pool.makeRoom_of_dirty _ hs]
        exact ⟨rfl, ⟨tenant.key, rfl, rfl⟩, pool.slots_evict _ _⟩

/-- After any operations, whatever the functions of the caller answer, the frequency of a block is
one more than the number of times it was found since it entered its slot. Making room then chooses
the first free slot and does nothing, and if there is none, it chooses the first of the slots whose
frequency is greatest: its block is written back just if it is dirty, the slot is free and clean
however that ends, and the other slots stay as they are. -/
theorem makeRoom_policy {capacity : Nat} {index : ι} {allocator : Allocator} {first : Pool ι}
    (hcreate : Pool.create capacity index allocator = .ok first) (operations : List (Operation β))
    (b : β) :
    let past := (perform operations first b).1
    let pool := (perform operations first b).2.1
    (∀ (i : Nat) (tenant : Tenant), pool.tenantAt i = some tenant →
        tenant.frequency = 1 + findsSince i past) ∧
      ∀ (writeBack : BlockId → Block → StateM β (Except Error Unit)) (b : β),
        let run := (Operation.makeRoom writeBack).run pool (b, [])
        ∃ room s, run.1.1 = .room room ∧ pool.slots[room.slot]? = some s ∧
          ((∃ t ∈ pool.slots, t.isFree = true) →
            s.isFree = true ∧
              (∀ (j : Nat) (t : Slot), j < room.slot → pool.slots[j]? = some t →
                t.isFree = false) ∧
              run.1.2 = pool ∧ run.2 = (b, [])) ∧
          ((∀ t ∈ pool.slots, t.isFree = false) →
            (∀ (j : Nat) (t : Slot), pool.slots[j]? = some t →
                t.frequency ≤ s.frequency ∧ (j < room.slot → t.frequency < s.frequency)) ∧
              (∃ key, s.key = some key ∧
                run.2.2 = if s.dirty then [.writeBack key s.block] else []) ∧
              (∃ s', run.1.2.slots[room.slot]? = some s' ∧ s'.isFree = true ∧ s'.dirty = false ∧
                s'.frequency = 0) ∧
              ∀ j, j ≠ room.slot → run.1.2.slots[j]? = pool.slots[j]?) := by
  intro past pool
  obtain ⟨hnew, hpos⟩ := counted_create (β := β) hcreate
  obtain ⟨hcounted, hsize⟩ := counted_perform hnew operations b
  refine ⟨fun i tenant ht => hcounted ht, fun writeBack b => ?_⟩
  have hpool : 0 < pool.slots.size := by
    rw [hsize]
    exact hpos
  by_cases hfree : ∃ t ∈ pool.slots, t.isFree = true
  · obtain ⟨s, hs, hslot, hbefore⟩ := victim_of_free hfree
    have hroom := pool.makeRoom_of_free (notedWriteBack writeBack) hs
      (s.key_eq_none_iff.mpr (Option.isNone_iff_eq_none.mp hslot)) (b, [])
    have hrun : (Operation.makeRoom writeBack).run pool (b, []) =
        ((.room ⟨pool.victim, none⟩, pool), (b, [])) := by
      rw [Operation.run_makeRoom, hroom]
    rw [hrun]
    refine ⟨⟨pool.victim, none⟩, s, rfl, hs, fun _ => ⟨hslot, hbefore, rfl, rfl⟩, fun hfull => ?_⟩
    obtain ⟨t, ht, hisFree⟩ := hfree
    rw [hfull t ht] at hisFree
    cases hisFree
  · have hfull : ∀ t ∈ pool.slots, t.isFree = false := fun t ht =>
      Bool.eq_false_iff.mpr fun hisFree => hfree ⟨t, ht, hisFree⟩
    obtain ⟨s, hs, hgreatest⟩ := victim_of_full hpool hfull
    obtain ⟨hslot, hlog, hslots⟩ :=
      makeRoom_of_full hs (hfull s (Array.mem_of_getElem? hs)) writeBack b
    rw [Operation.run_makeRoom]
    refine ⟨(pool.makeRoom (notedWriteBack writeBack) (b, [])).1.1, s, rfl, ?_,
      fun hany => absurd hany hfree, fun _ => ?_⟩
    · rw [hslot]
      exact hs
    · rw [hslot, hslots]
      exact ⟨hgreatest, hlog, ⟨s.vacated, getElem?_modify_self hs, rfl, rfl, rfl⟩,
        fun j hj => getElem?_modify_other hj⟩

/-- Two blocks are in a pool of two slots, of which the first one is dirty and was found twice. -/
def foundTwice : List (Operation Unit) :=
  [.assign 0 ⟨3, 0⟩, .write 0 0 ⟨#[1]⟩, .lookup ⟨3, 0⟩, .assign 1 ⟨3, 1⟩, .lookup ⟨3, 1⟩,
    .lookup ⟨3, 0⟩]

theorem makeRoom_policy_foundTwice :
    let first : Pool Scan := ⟨Array.replicate 2 Slot.blank, Scan.mk, {}⟩
    let past := (perform foundTwice first ()).1
    let pool := (perform foundTwice first ()).2.1
    let run := (Operation.makeRoom fun _ _ => pure (.error .shortWrite)).run pool ((), [])
    Pool.create 2 Scan.mk = .ok first ∧ pool.tenantAt 0 = some ⟨⟨3, 0⟩, 3⟩ ∧
      3 = 1 + findsSince 0 past ∧ run.2.2.length = 1 ∧
      ∃ room s s', run.1.1 = .room room ∧ pool.slots[room.slot]? = some s ∧
        (∀ (j : Nat) (t : Slot), pool.slots[j]? = some t → t.frequency ≤ s.frequency) ∧
        run.1.2.slots[room.slot]? = some s' ∧ s'.isFree = true ∧
        ∀ j, j ≠ room.slot → run.1.2.slots[j]? = pool.slots[j]? := by
  intro first past pool run
  have hcreate : Pool.create 2 Scan.mk = .ok first := rfl
  have hfull : ∀ t ∈ pool.slots, t.isFree = false := by decide +kernel
  have htenant : pool.tenantAt 0 = some ⟨⟨3, 0⟩, 3⟩ := by decide +kernel
  obtain ⟨hcounted, hroom⟩ := makeRoom_policy hcreate foundTwice ()
  obtain ⟨room, s, hrun, hs, -, hhottest⟩ := hroom (fun _ _ => pure (.error .shortWrite)) ()
  obtain ⟨hgreatest, -, ⟨s', hs', hfree, -, -⟩, hother⟩ := hhottest hfull
  exact ⟨hcreate, htenant, hcounted 0 _ htenant, by decide +kernel, room, s, s', hrun, hs,
    fun j t ht => (hgreatest j t ht).1, hs', hfree, hother⟩

end Pool

end BlockCache
