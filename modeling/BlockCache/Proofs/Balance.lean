import BlockCache.Proofs.Allocation
import BlockCache.Proofs.Traffic

/-!
The counters of a cache balance. They are kept by the pool, each by an operation of its own; what
binds them together are the calls of the storage, the occupied slots, and three numbers that no
counter has: how many blocks were taken because they were written whole, how many reads were cut
short by the storage, and how many slots were freed by a close. While a look-up that found nothing
is not yet answered one miss is pending.
-/

namespace BlockCache

namespace Pool

variable {ι β : Type} (pool : Pool ι)

/-- Changing a slot changes a count by what the slot was and is. -/
theorem countP_modify (p : Slot → Bool) {slots : Array Slot} {i : Nat} {s : Slot}
    (hs : slots[i]? = some s) (g : Slot → Slot) :
    (slots.modify i g).countP p + (if p s then 1 else 0) =
      slots.countP p + if p (g s) then 1 else 0 := by
  obtain ⟨hlt, rfl⟩ := Array.getElem?_eq_some_iff.mp hs
  have hlt' : i < slots.toList.length := by rw [Array.length_toList]; exact hlt
  have hsplit : slots.toList = slots.toList.take i ++ slots[i] :: slots.toList.drop (i + 1) := by
    rw [← Array.getElem_toList, List.getElem_cons_drop, List.take_append_drop]
  rw [← Array.countP_toList, ← Array.countP_toList, Array.toList_modify,
    List.modify_eq_take_cons_drop hlt', Array.getElem_toList]
  nth_rewrite 3 [hsplit]
  simp only [List.countP_append, List.countP_cons]
  omega

/-- The same for the number of occupied slots. -/
theorem occupiedCount_modify {pool pool' : Pool ι} {i : Nat} {s : Slot} {g : Slot → Slot}
    (hslots : pool'.slots = pool.slots.modify i g) (hs : pool.slots[i]? = some s) :
    pool'.occupiedCount + (if s.isOccupied then 1 else 0) =
      pool.occupiedCount + if (g s).isOccupied then 1 else 0 := by
  rw [occupiedCount, hslots]
  exact countP_modify Slot.isOccupied hs g

/-- What is told by the tenant of a slot has the same count if every slot keeps its tenant. -/
theorem countP_of_tenants {pool pool' : Pool ι} {p : Slot → Bool}
    (hp : ∀ {s s' : Slot}, s'.tenant = s.tenant → p s' = p s)
    (hsize : pool'.slots.size = pool.slots.size)
    (htenant : ∀ {i : Nat} {s : Slot}, pool.slots[i]? = some s →
      ∃ s', pool'.slots[i]? = some s' ∧ s'.tenant = s.tenant) :
    pool'.slots.countP p = pool.slots.countP p := by
  have hsame : pool'.slots.map p = pool.slots.map p := by
    apply Array.ext_getElem?
    intro i
    rw [Array.getElem?_map, Array.getElem?_map]
    cases hs : pool.slots[i]? with
    | none =>
        have hnone : pool'.slots[i]? = none := by
          rw [Array.getElem?_eq_none_iff] at hs ⊢
          omega
        rw [hnone]
    | some s =>
        obtain ⟨s', hs', heq⟩ := htenant hs
        rw [hs']
        exact congrArg some (hp heq)
  have hcount : ∀ slots : Array Slot, slots.countP p = (slots.map p).countP id :=
    fun slots => (Array.countP_map (p := id) (f := p)).symm
  rw [hcount, hcount, hsame]

theorem occupiedCount_of_tenants {pool pool' : Pool ι} (hsize : pool'.slots.size = pool.slots.size)
    (htenant : ∀ {i : Nat} {s : Slot}, pool.slots[i]? = some s →
      ∃ s', pool'.slots[i]? = some s' ∧ s'.tenant = s.tenant) :
    pool'.occupiedCount = pool.occupiedCount :=
  countP_of_tenants (fun heq => congrArg Option.isSome heq) hsize htenant

/-- Forgetting an owner is not counted. -/
theorem stats_forget [Lookup ι] (owner : Descriptor) :
    (pool.forget owner).2.stats = pool.stats := by
  rw [forget]
  dsimp only
  generalize pool.residents owner = gone
  induction gone generalizing pool with
  | nil => rfl
  | cons resident rest ih => exact ih (pool.vacate resident.1 resident.2)

/-- Forgetting an owner frees as many slots as are its. -/
theorem occupiedCount_forget [Lookup ι] (owner : Descriptor) :
    (pool.forget owner).2.occupiedCount + pool.slots.countP (·.ownedBy owner) =
      pool.occupiedCount := by
  have hslot : ∀ s : Slot,
      (if (if s.ownedBy owner then s.vacated else s).isOccupied then 1 else 0) +
        (if s.ownedBy owner then 1 else 0) = if s.isOccupied then 1 else 0 := by
    intro s
    cases howned : s.ownedBy owner with
    | false => simp
    | true =>
        obtain ⟨key, hkey, -⟩ := (s.ownedBy_iff owner).mp howned
        obtain ⟨tenant, htenant, -⟩ := Option.map_eq_some_iff.mp hkey
        simp [Slot.isOccupied, Slot.vacated, htenant]
  rw [occupiedCount, occupiedCount, slots_forget, Array.countP_map]
  simp only [← Array.countP_toList]
  induction pool.slots.toList with
  | nil => rfl
  | cons s rest ih =>
      have hfirst := hslot s
      simp only [List.countP_cons, Function.comp_apply]
      omega

end Pool

theorem Stats.wroteBack_counts (s : Stats) (succeeded : Bool) :
    (s.wroteBack succeeded).accesses = s.accesses ∧ (s.wroteBack succeeded).hits = s.hits ∧
      (s.wroteBack succeeded).misses = s.misses ∧ (s.wroteBack succeeded).fills = s.fills ∧
      (s.wroteBack succeeded).evictions = s.evictions ∧
      (s.wroteBack succeeded).writeBacks + (s.wroteBack succeeded).writeBackFailures =
        s.writeBacks + s.writeBackFailures + 1 := by
  cases succeeded
  · exact ⟨rfl, rfl, rfl, rfl, rfl, rfl⟩
  · exact ⟨rfl, rfl, rfl, rfl, rfl, Nat.add_right_comm _ _ _⟩

theorem Slot.isOccupied_iff (s : Slot) : s.isOccupied = true ↔ s.key ≠ none := by
  rw [Slot.isOccupied, Option.isSome_iff_ne_none, Ne, Ne, s.key_eq_none_iff]

namespace Cache

variable {σ φ : Type} {taken aborted forgotten pending : Nat} {c c' : Cache (Traced σ φ) φ}

/-! ### Balance -/

/-- The counters balance with the calls of the storage, the occupied slots and the numbers that no
counter has. -/
structure Balanced (taken aborted forgotten pending : Nat) (c : Cache (Traced σ φ) φ) : Prop where
  accesses : c.stats.accesses = c.stats.hits + c.stats.misses
  misses : c.stats.misses = c.stats.fills + taken + aborted + pending
  reads : c.storage.calls.toList.countP Call.isRead = c.stats.fills + aborted
  writes : c.storage.calls.toList.countP Call.isWrite =
    c.stats.writeBacks + c.stats.writeBackFailures
  occupied : c.pool.occupiedCount + c.stats.evictions + forgotten = c.stats.fills + taken

theorem balanced_new (storage : σ) (slotCount : Nat) (allocator : Allocator) :
    (Cache.new (Traced.new storage) slotCount allocator : Cache (Traced σ φ) φ).Balanced 0 0 0 0 :=
  ⟨rfl, rfl, rfl, rfl, rfl⟩

namespace Balanced

/-- What changes no counter and moves no block keeps the balance, if the slots that it frees count
as forgotten. -/
theorem of_freed (hbalanced : c.Balanced taken aborted forgotten pending) (freed : Nat)
    (hstats : c'.stats = c.stats) (hcount : c'.pool.occupiedCount + freed = c.pool.occupiedCount)
    (hcalls : Traced.MovesNone c.storage c'.storage) :
    c'.Balanced taken aborted (forgotten + freed) pending := by
  have hreads := hcalls.countP_eq Call.isRead fun _ hcall => hcall.1
  have hwrites := hcalls.countP_eq Call.isWrite fun _ hcall => hcall.2
  exact {
    accesses := by rw [hstats]; exact hbalanced.accesses
    misses := by rw [hstats]; exact hbalanced.misses
    reads := by
      rw [hstats, hreads]
      exact hbalanced.reads
    writes := by
      rw [hstats, hwrites]
      exact hbalanced.writes
    occupied := by
      have hoccupied := hbalanced.occupied
      rw [hstats]
      omega }

theorem of_same (hbalanced : c.Balanced taken aborted forgotten pending)
    (hstats : c'.stats = c.stats) (hcount : c'.pool.occupiedCount = c.pool.occupiedCount)
    (hcalls : Traced.MovesNone c.storage c'.storage) :
    c'.Balanced taken aborted forgotten pending :=
  hbalanced.of_freed 0 hstats hcount hcalls

theorem miss (hbalanced : c.Balanced taken aborted forgotten pending) :
    ({ c with pool := c.pool.count Stats.miss } : Cache (Traced σ φ) φ).Balanced
      taken aborted forgotten (pending + 1) where
  accesses := congrArg (· + 1) hbalanced.accesses
  misses := congrArg (· + 1) hbalanced.misses
  reads := hbalanced.reads
  writes := hbalanced.writes
  occupied := hbalanced.occupied

/-- An attempt to write a block back is counted as one write. -/
theorem wroteBack (hbalanced : c.Balanced taken aborted forgotten pending) (succeeded : Bool)
    (hstats : c'.stats = c.stats.wroteBack succeeded)
    (hcount : c'.pool.occupiedCount = c.pool.occupiedCount)
    (hreads : c'.storage.calls.toList.countP Call.isRead =
      c.storage.calls.toList.countP Call.isRead)
    (hwrites : c'.storage.calls.toList.countP Call.isWrite =
      c.storage.calls.toList.countP Call.isWrite + 1) :
    c'.Balanced taken aborted forgotten pending := by
  obtain ⟨haccesses, hhits, hmisses, hfills, hevictions, hattempts⟩ :=
    c.stats.wroteBack_counts succeeded
  exact {
    accesses := by rw [hstats, haccesses, hhits, hmisses]; exact hbalanced.accesses
    misses := by rw [hstats, hmisses, hfills]; exact hbalanced.misses
    reads := by rw [hstats, hreads, hfills]; exact hbalanced.reads
    writes := by rw [hstats, hwrites, hattempts, hbalanced.writes]
    occupied := by rw [hstats, hcount, hfills, hevictions]; exact hbalanced.occupied }

end Balanced

variable [Storage σ φ] {f : OpenFile φ} {h : Handle} {touch : Touch} {how : How} {file : φ}
  {i : Nat}

/-! ### The numbers that no counter has -/

/-- Whether a request is a read that failed and the storage failed to read for it. -/
def isAborted (request : Request) (reply : Reply) (calls : List (Call φ)) : Bool :=
  match request with
  | .read .. => reply.failure?.isSome && calls.any Call.isFailedRead
  | _ => false

/-- The number of reads that are cut short by the storage when a request is served: one or none. -/
def abortedBy (c : Cache (Traced σ φ) φ) (request : Request) : Nat :=
  if isAborted request (serve request c).1 ((serve request c).2.callsSince c) then 1 else 0

/-- The number of slots that a request frees because it closes their file. -/
def forgottenBy (c : Cache (Traced σ φ) φ) : Request → Nat
  | .close h =>
      match c.table.get? h with
      | some f => c.pool.slots.countP (·.ownedBy f.descriptor)
      | none => 0
  | _ => 0

def total (count : Cache (Traced σ φ) φ → Request → Nat) : List Request → Cache (Traced σ φ) φ → Nat
  | [], _ => 0
  | request :: rest, c => count c request + total count rest (serve request c).2

/-! ### Blocks that are asked for -/

/-- What filling a slot adds to the counters and to the calls of the storage. -/
theorem Filled.counts (hfilled : Filled file touch i c how c') :
    ∃ fills, c'.stats = { c.stats with fills := c.stats.fills + fills } ∧
      fills + (if how = .taken then 1 else 0) + (if how = .refused then 1 else 0) = 1 ∧
      c'.storage.calls.toList.countP Call.isRead =
        c.storage.calls.toList.countP Call.isRead + fills + (if how = .refused then 1 else 0) ∧
      c'.storage.calls.toList.countP Call.isWrite =
        c.storage.calls.toList.countP Call.isWrite := by
  cases hfilled with
  | loaded _ hread | zeroed _ hread =>
      obtain ⟨hreads, hwrites⟩ := Traced.countP_readAt hread
      exact ⟨1, rfl, rfl, hreads, hwrites⟩
  | refused _ hread =>
      obtain ⟨hreads, hwrites⟩ := Traced.countP_readAt hread
      exact ⟨0, rfl, rfl, hreads, hwrites⟩
  | taken => exact ⟨0, rfl, rfl, rfl, rfl⟩

theorem Filled.occupiedCount_eq (hfilled : Filled file touch i c how c') {s : Slot}
    (hs : c.pool.slots[i]? = some s) (hfree : s.key = none) :
    c'.pool.occupiedCount + (if how = .refused then 1 else 0) = c.pool.occupiedCount + 1 := by
  obtain ⟨g, hslots, hkey⟩ := hfilled.slots_eq
  have hcount := Pool.occupiedCount_modify hslots hs
  simp only [Slot.isOccupied_iff, hkey, hfree] at hcount
  by_cases hrefused : how = .refused
  · simp only [hrefused, if_true] at hcount ⊢
    omega
  · simp only [hrefused, if_false] at hcount ⊢
    simpa using hcount

namespace Balanced

omit [Storage σ φ] in
/-- A block that makes room and need not be stored is one eviction. -/
theorem evicted (hbalanced : c.Balanced taken aborted forgotten pending) {s : Slot}
    {tenant : Tenant} (hs : c.pool.slots[c.pool.victim]? = some s)
    (htenant : s.tenant = some tenant) (journal : Array Event) :
    ({ c with
      pool := c.pool.evict c.pool.victim ⟨tenant.key, tenant.frequency, none⟩, journal } :
      Cache (Traced σ φ) φ).Balanced taken aborted forgotten pending := by
  have hcount := Pool.occupiedCount_modify
    (c.pool.slots_evict c.pool.victim ⟨tenant.key, tenant.frequency, none⟩) hs
  rw [Slot.isOccupied, htenant, Option.isSome_some, if_pos rfl,
    if_neg (by simp [Slot.isOccupied, Slot.vacated]), Nat.add_zero c.pool.occupiedCount] at hcount
  have hoccupied := hbalanced.occupied
  rw [← hcount] at hoccupied
  exact {
    accesses := hbalanced.accesses
    misses := hbalanced.misses
    reads := hbalanced.reads
    writes := hbalanced.writes
    occupied := by
      show (c.pool.evict c.pool.victim ⟨tenant.key, tenant.frequency, none⟩).occupiedCount +
        (c.stats.evictions + 1) + forgotten = c.stats.fills + taken
      omega }

/-- A block that makes room is one eviction, and one write if it is dirty. -/
theorem madeRoom (hbalanced : c.Balanced taken aborted forgotten pending)
    (hroom : MadeRoom c c') : c'.Balanced taken aborted forgotten pending := by
  cases hroom with
  | free => exact hbalanced.of_same rfl rfl (.refl _ _)
  | clean hs => exact hbalanced.evicted hs rfl _
  | @dirty _ _ _ outcome _ journal hs howner hstore =>
      obtain ⟨hreads, hwrites⟩ := countP_storeBlock hstore
      have hevicted := hbalanced.evicted hs rfl journal
      exact hevicted.wroteBack (Pool.succeeded outcome) rfl rfl hreads hwrites

/-- A miss is answered when a slot is filled: the block is read in, taken, or refused. -/
theorem filled (hbalanced : c.Balanced taken aborted forgotten (pending + 1))
    (hfilled : Filled file touch i c how c') {s : Slot} (hs : c.pool.slots[i]? = some s)
    (hfree : s.key = none) :
    c'.Balanced (taken + if how = .taken then 1 else 0) (aborted + if how = .refused then 1 else 0)
      forgotten pending := by
  obtain ⟨fills, hstats, hfills, hreads, hwrites⟩ := hfilled.counts
  have hcount := hfilled.occupiedCount_eq hs hfree
  have hoccupied := hbalanced.occupied
  have hmisses := hbalanced.misses
  exact {
    accesses := by rw [hstats]; exact hbalanced.accesses
    misses := by rw [hstats]; show c.stats.misses = c.stats.fills + fills + _ + _ + _; omega
    reads := by rw [hstats, hreads, hbalanced.reads]; show _ = c.stats.fills + fills + _; omega
    writes := by rw [hstats, hwrites]; exact hbalanced.writes
    occupied := by rw [hstats]; show _ + c.stats.evictions + _ = c.stats.fills + fills + _; omega }

theorem access (hbalanced : c.Balanced taken aborted forgotten pending)
    (haccess : Access file touch c how i c') :
    c'.Balanced (taken + if how = .taken then 1 else 0) (aborted + if how = .refused then 1 else 0)
      forgotten pending := by
  cases haccess with
  | @found _ s _ hs hkey =>
      have hcount : ((c.pool.modifySlot i Slot.bump).count Stats.hit).occupiedCount + _ = _ :=
        Pool.occupiedCount_modify rfl hs
      simp only [Slot.isOccupied_iff, Slot.key_bump, Nat.add_right_cancel_iff] at hcount
      exact {
        accesses := by
          show c.stats.accesses + 1 = c.stats.hits + 1 + c.stats.misses
          rw [hbalanced.accesses]
          omega
        misses := hbalanced.misses
        reads := hbalanced.reads
        writes := hbalanced.writes
        occupied := by
          rw [show Cache.pool _ = _ from rfl, hcount]
          exact hbalanced.occupied }
  | missed _ hroom hfilled =>
      obtain ⟨s, hs, hfree⟩ := hroom.freed
      exact (hbalanced.miss.madeRoom hroom).filled hfilled hs hfree

omit [Storage σ φ] in
/-- The first part of a transfer counts before the others. -/
theorem add_countP_parts (count : Nat) (part : Touch × How) (rest : List (Touch × How))
    (how : How) :
    count + (part :: rest).countP (·.2 = how) =
      count + (if part.2 = how then 1 else 0) + rest.countP (·.2 = how) := by
  simp only [List.countP_cons, decide_eq_true_eq]
  omega

theorem transfer {parts : List (Touch × How)}
    (hbalanced : c.Balanced taken aborted forgotten pending) (htransfer : Transfer f c parts c') :
    c'.Balanced (taken + parts.countP (·.2 = .taken)) (aborted + parts.countP (·.2 = .refused))
      forgotten pending := by
  induction htransfer generalizing taken aborted with
  | nil => exact hbalanced
  | @out c c₁ c' touch how i rest _ haccess _ ih =>
      rw [add_countP_parts, add_countP_parts]
      exact ih (hbalanced.access haccess)
  | @into c c₁ c' touch how i rest start bytes _ haccess _ ih =>
      have hcount : (c₁.pool.write i start bytes).occupiedCount = c₁.pool.occupiedCount :=
        Pool.occupiedCount_of_tenants Array.size_modify (tenant_write c₁.pool i start bytes)
      have hwritten : ({ c₁ with pool := c₁.pool.write i start bytes } :
          Cache (Traced σ φ) φ).Balanced _ _ forgotten pending :=
        (hbalanced.access haccess).of_same rfl hcount (.refl _ _)
      rw [add_countP_parts, add_countP_parts]
      exact ih hwritten

/-! ### Other requests -/

theorem settle (hbalanced : c.Balanced taken aborted forgotten pending) {key : BlockId}
    {block : Block} {storage : Traced σ φ} {outcome : Except Error Unit}
    (hstore : storeBlock file key block c.storage = (outcome, storage)) (slot : Nat) :
    ({ c with storage, pool := c.pool.settle ⟨slot, key, outcome⟩ } :
      Cache (Traced σ φ) φ).Balanced taken aborted forgotten pending := by
  obtain ⟨hreads, hwrites⟩ := countP_storeBlock hstore
  have hcount : (c.pool.settle ⟨slot, key, outcome⟩).occupiedCount = c.pool.occupiedCount :=
    Pool.occupiedCount_of_tenants (Pool.size_settle _ _) (Pool.tenant_settle _ _)
  refine hbalanced.wroteBack (Pool.succeeded outcome) ?_ hcount hreads hwrites
  cases outcome <;> rfl

theorem writeAll (hbalanced : c.Balanced taken aborted forgotten pending) (file : φ)
    (dirty : List Pool.DirtyBlock) :
    ({ c with
      storage := (Pool.writeAll (storeBlock file) dirty c.storage).2
      pool := (Pool.writeAll (storeBlock file) dirty c.storage).1.foldl Pool.settle c.pool } :
      Cache (Traced σ φ) φ).Balanced taken aborted forgotten pending := by
  induction dirty generalizing c with
  | nil => exact hbalanced
  | cons d rest ih =>
      rcases hstore : storeBlock file d.key d.block c.storage with ⟨outcome, storage⟩
      rw [Pool.writeAll_cons, hstore]
      exact ih (hbalanced.settle hstore d.slot)

theorem flushed (hbalanced : c.Balanced taken aborted forgotten pending) (f : OpenFile φ) :
    (c.flushed f).Balanced taken aborted forgotten pending :=
  (hbalanced.writeAll f.file (c.pool.dirtyBlocks f.descriptor)).of_same rfl rfl (.refl _ _)

end Balanced

namespace Balanced

theorem sync (hbalanced : c.Balanced taken aborted forgotten pending)
    (hf : c.table.get? h = some f) :
    (sync h c).2.Balanced taken aborted forgotten pending :=
  (hbalanced.flushed f).of_same (congrArg Pool.stats (pool_sync hf))
    (congrArg Pool.occupiedCount (pool_sync hf)) (movesNone_sync hf)

/-- A close frees the slots of its file. -/
theorem close (hbalanced : c.Balanced taken aborted forgotten pending)
    (hf : c.table.get? h = some f) :
    (close h c).2.Balanced taken aborted
      (forgotten + c.pool.slots.countP (·.ownedBy f.descriptor)) pending := by
  obtain ⟨-, hstorage, hpool, -⟩ := close_of_some hf
  have hsynced := hbalanced.sync hf
  have howned : (Cache.sync h c).2.pool.slots.countP (·.ownedBy f.descriptor) =
      c.pool.slots.countP (·.ownedBy f.descriptor) := by
    obtain ⟨hsize, hslots⟩ := slots_sync hf
    refine Pool.countP_of_tenants (fun heq => Slot.ownedBy_of_tenant _ heq _) hsize
      fun {i s} hs => ?_
    obtain ⟨dirty, hs'⟩ := hslots hs
    exact ⟨_, hs', rfl⟩
  have hcount := (Cache.sync h c).2.pool.occupiedCount_forget f.descriptor
  rw [← hpool, howned] at hcount
  refine hsynced.of_freed _ ?_ hcount ?_
  · rw [stats, hpool, Pool.stats_forget]
    rfl
  · rw [hstorage]
    exact Traced.movesNone_close _ _

/-- Opening a file changes no counter: the slots of a new pool are free. -/
theorem opening (hbalanced : c.Balanced taken aborted forgotten pending) (hc : c.Tabled)
    {path : String} {flags : OpenFlags} {mode : Nat} {outcome : Except Error Handle}
    (hopening : Opening path flags mode c outcome c') :
    c'.Balanced taken aborted forgotten pending := by
  obtain ⟨hstats, hpool⟩ := hopening.pool_cases hc
  refine hbalanced.of_same hstats ?_ hopening.movesNone
  rcases hpool with hpool | ⟨hnone, -, hpool⟩ <;> rw [hpool]
  have hfree : (Pool.mk (Array.replicate c.slotCount Slot.blank) Scan.mk {}).occupiedCount = 0 :=
    Array.countP_eq_zero.mpr fun s hs => by
      rw [(Array.mem_replicate.mp hs).2]
      exact Bool.false_ne_true
  rw [hfree, hnone]
  rfl

end Balanced

/-! ### Requests -/

omit [Storage σ φ] in
/-- A transfer that ends at a block that is refused has taken none. -/
theorem countP_of_refused {got : List (Touch × How)}
    (hgot : ∀ p ∈ got, p.2 = .found ∨ p.2 = .loaded) (touch : Touch) :
    (got ++ [(touch, How.refused)]).countP (·.2 = .taken) = 0 ∧
      (got ++ [(touch, How.refused)]).countP (·.2 = .refused) = 1 := by
  have hnone : ∀ how : How, how ≠ .found → how ≠ .loaded → got.countP (·.2 = how) = 0 := by
    intro how hfound hloaded
    refine List.countP_eq_zero.mpr fun p hp => ?_
    rcases hgot p hp with hhow | hhow <;> simp [hhow, hfound.symm, hloaded.symm]
  rw [List.countP_append, List.countP_append, hnone _ (by decide) (by decide),
    hnone _ (by decide) (by decide)]
  exact ⟨rfl, rfl⟩

omit [Storage σ φ] in
theorem isAborted_of_ok {request : Request} {reply : Reply} (hok : reply.failure? = none)
    (calls : List (Call φ)) : isAborted request reply calls = false := by
  unfold isAborted
  split
  · rw [hok]
    rfl
  · rfl

omit [Storage σ φ] in
theorem forgottenBy_other {request : Request} (hclose : ∀ h, request ≠ .close h) :
    forgottenBy c request = 0 := by
  unfold forgottenBy
  split
  · exact absurd rfl (hclose _)
  · rfl

namespace Balanced

/-- Every request keeps the balance, with the numbers that it adds to. -/
theorem serve (hbalanced : c.Balanced taken aborted forgotten 0) (hc : c.Tabled)
    (request : Request) :
    (serve request c).2.Balanced (taken + takenBy c request) (aborted + abortedBy c request)
      (forgotten + forgottenBy c request) 0 := by
  have hserving := serve_serving hc.housed request
  unfold abortedBy
  generalize (Cache.serve request c).1 = reply at hserving ⊢
  generalize (Cache.serve request c).2 = c' at hserving ⊢
  cases hserving with
  | opening hopening => exact hbalanced.opening hc hopening
  | @closing h f hf =>
      have hforgotten :
          forgottenBy c (.close h) = c.pool.slots.countP (·.ownedBy f.descriptor) := by
        rw [forgottenBy, hf]
      rw [hforgotten]
      exact hbalanced.close hf
  | syncing hf => exact hbalanced.sync hf
  | @moving _ _ h f parts c₁ table table' journal hf htable htransfer _ _ hhad htaken hok hclose =>
      have hrefused : parts.countP (·.2 = .refused) = 0 :=
        List.countP_eq_zero.mpr fun p hp => by simpa using hhad p hp
      have hmoved : ({ c with table } : Cache (Traced σ φ) φ).Balanced taken aborted forgotten 0 :=
        hbalanced.of_same rfl rfl (.refl _ _)
      have hc₁ := hmoved.transfer htransfer
      rw [htaken, hrefused] at hc₁
      rw [isAborted_of_ok hok, forgottenBy_other hclose]
      exact hc₁.of_same rfl rfl (.refl _ _)
  | @refused h f buffer buffer' fault got refused _ hf htransfer hgot =>
      obtain ⟨calls, hcalls, hfailed⟩ := htransfer.calls
      have hfailed := hfailed ⟨(refused, .refused), by simp, rfl⟩
      have hc' := hbalanced.transfer htransfer
      obtain ⟨htaken, hrefused⟩ := countP_of_refused hgot refused
      have haborted : isAborted (.read h buffer) (.bytes (.error (.storage fault)) buffer')
          (c'.callsSince c) = true := by
        rw [callsSince_of_append hcalls]
        exact hfailed
      rw [htaken, hrefused] at hc'
      rw [haborted]
      exact hc'
  | @idle _ _ table htable htouches htaken hclose =>
      have haborted : isAborted request reply
          (({ c with table } : Cache (Traced σ φ) φ).callsSince c) = false := by
        have hnone : ({ c with table } : Cache (Traced σ φ) φ).callsSince c = [] :=
          callsSince_of_storage_eq rfl
        rw [hnone]
        unfold isAborted
        split
        · exact Bool.and_false _
        · rfl
      have hforgotten : forgottenBy c request = 0 := by
        unfold forgottenBy
        split
        · rw [hclose _ rfl]
        · rfl
      rw [haborted, htaken, hforgotten]
      exact hbalanced.of_same rfl rfl (.refl _ _)

theorem session (hbalanced : c.Balanced taken aborted forgotten 0) (hc : c.Tabled)
    (requests : List Request) :
    (session requests c).2.Balanced (taken + total takenBy requests c)
      (aborted + total abortedBy requests c) (forgotten + total forgottenBy requests c) 0 := by
  induction requests generalizing c taken aborted forgotten with
  | nil => exact hbalanced
  | cons request rest ih =>
      have hrest := ih (hbalanced.serve hc request) (hc.serve request)
      rwa [Nat.add_assoc, Nat.add_assoc, Nat.add_assoc] at hrest

end Balanced

/-- In every session, whatever the storage does: every look-up is a hit or a miss; every miss is
answered by a block that was read in, that was about to be written whole, or that could not be read
and ended the read that asked for it; every call of the storage to read is one of a block that was
read in or of a read that was ended so; every call to write is one that is counted as succeeded or
failed; and the occupied slots are those that were filled, less those whose block made room and
those that a close freed. -/
theorem counters_balance (storage : σ) (slotCount : Nat) (allocator : Allocator)
    (requests : List Request) :
    let first : Cache (Traced σ φ) φ := Cache.new (Traced.new storage) slotCount allocator
    let last := (session requests first).2
    let taken := total takenBy requests first
    let aborted := total abortedBy requests first
    let forgotten := total forgottenBy requests first
    last.stats.accesses = last.stats.hits + last.stats.misses ∧
      last.stats.misses = last.stats.fills + taken + aborted ∧
      last.storage.calls.toList.countP Call.isRead = last.stats.fills + aborted ∧
      last.storage.calls.toList.countP Call.isWrite =
        last.stats.writeBacks + last.stats.writeBackFailures ∧
      (last.pool.occupiedCount : Int) =
        last.stats.fills + taken - last.stats.evictions - forgotten := by
  intro first last taken aborted forgotten
  have hlast : last.Balanced taken aborted forgotten 0 := by
    have hbalanced := (balanced_new storage slotCount allocator : first.Balanced 0 0 0 0).session
      (tabled_new _ _ _) requests
    rwa [Nat.zero_add, Nat.zero_add, Nat.zero_add] at hbalanced
  refine ⟨hlast.accesses, hlast.misses, hlast.reads, hlast.writes, ?_⟩
  have hoccupied := hlast.occupied
  omega

/-- A storage that once cannot read the first block of a file. -/
def forgetful : Scripted Memory :=
  ⟨Memory.ofFiles Catalog.empty,
    [{ operation := .read, offsets := some [0], uses := some 1, fault := some Memory.failure }]⟩

/-- One slot for two blocks: the first is written whole and makes room for the second, and then
cannot be read when it is asked for again. -/
def crowded : List Request :=
  [.openFile "a" OpenFlags.create 0, .write ⟨0⟩ ⟨Array.replicate blockSize 1⟩, .write ⟨0⟩ ⟨#[2]⟩,
    .seek ⟨0⟩ (.start 0), .read ⟨0⟩ ⟨#[0]⟩, .write ⟨0⟩ ⟨#[3]⟩, .close ⟨0⟩]

/-- Each of the numbers that no counter has can be other than zero. -/
example :
    let first : Cache (Traced (Scripted Memory) Memory.File) Memory.File :=
      Cache.new (Traced.new forgetful) 1
    (total takenBy crowded first, total abortedBy crowded first, total forgottenBy crowded first,
      (session crowded first).2.stats.toList) = (1, 1, 1, [4, 0, 4, 2, 2, 3, 0]) := by
  decide +kernel

end Cache

end BlockCache
