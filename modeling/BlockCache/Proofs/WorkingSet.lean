import BlockCache.Proofs.Balance
import BlockCache.Proofs.Eviction
import BlockCache.Proofs.Idle
import BlockCache.Proofs.Representation
import Mathlib.Data.Finset.Card
import Mathlib.Data.Fintype.Card

/-!
A working set that fits. As long as no more blocks are asked for than there are slots, a block that
is not found finds a free slot: the occupied ones hold different blocks of the working set, and this
one is not among them. So no block has to make room, none is written back but by a sync or a close,
and while a file is open each of its blocks is read in once at most.
-/

namespace BlockCache

def Call.readsBlock (σ : Type) {φ : Type} [Storage σ φ] (key : BlockId) : Call φ → Bool
  | readAt file offset _ _ => Storage.descriptor σ file = key.owner ∧ offset = key.offset
  | _ => false

theorem Call.readsBlock_of_other {σ φ : Type} [Storage σ φ] (key : BlockId) {call : Call φ}
    (hother : call.isRead = false) : call.readsBlock σ key = false := by
  cases call with
  | readAt => cases hother
  | _ => rfl

namespace Cache

variable {σ φ : Type} [Storage σ φ]

/-- The blocks that the requests of a session ask for, one after the other. -/
def touches : List Request → Cache σ φ → List Touch
  | [], _ => []
  | request :: rest, c => touchesOf c request ++ touches rest (serve request c).2

/-- How often a block has to be read that is in no slot: once if it is asked for, unless it is about
to be written whole when it is asked for first. -/
def readsNeeded (key : BlockId) (ts : List Touch) : Nat :=
  match ts.find? (·.key = key) with
  | some t => if t.covers then 0 else 1
  | none => 0

omit [Storage σ φ] in
theorem readsNeeded_append (key : BlockId) (ts ts' : List Touch) :
    readsNeeded key (ts ++ ts') =
      readsNeeded key ts + if ts.any (·.key = key) then 0 else readsNeeded key ts' := by
  rw [readsNeeded, readsNeeded, List.find?_append]
  cases hfind : ts.find? (·.key = key) with
  | some t =>
      rw [if_pos (List.any_eq_true.mpr ⟨t, List.mem_of_find?_eq_some hfind, List.find?_some hfind⟩)]
      rfl
  | none =>
      rw [if_neg, Nat.zero_add]
      · rfl
      · rw [List.any_eq_true]
        rintro ⟨t, hmem, hkey⟩
        exact List.find?_eq_none.mp hfind t hmem hkey

omit [Storage σ φ] in
theorem readsNeeded_single (key : BlockId) (t : Touch) :
    readsNeeded key [t] = if t.key = key ∧ t.covers = false then 1 else 0 := by
  rw [readsNeeded, List.find?_singleton]
  by_cases hkey : t.key = key
  · cases hcovers : t.covers <;> simp [hkey, hcovers]
  · simp [hkey]

theorem readsBlock_readAt {file : φ} {key key' : BlockId}
    (hfile : Storage.descriptor σ file = key.owner) (n : Nat) (outcome : Except Fault Nat) :
    Call.readsBlock σ key' (.readAt file key.offset n outcome) = decide (key = key') := by
  rw [Call.readsBlock, hfile, decide_eq_decide]
  constructor
  · rintro ⟨howner, hoffset⟩
    cases key
    cases key'
    exact congr (congrArg BlockId.mk howner) (Nat.eq_of_mul_eq_mul_right blockSize_pos hoffset)
  · rintro rfl
    exact ⟨rfl, rfl⟩

theorem touches_append (requests requests' : List Request) (c : Cache σ φ) :
    touches (requests ++ requests') c =
      touches requests c ++ touches requests' (session requests c).2 := by
  induction requests generalizing c with
  | nil => rfl
  | cons request rest ih =>
      rw [List.cons_append, touches, ih, touches, List.append_assoc]
      rfl

omit [Storage σ φ] in
/-- A slot that is changed and keeps its block holds no more than the block that it has then. -/
theorem holds_of_modify {c c' : Cache σ φ} {key : BlockId} {i : Nat} {g : Slot → Slot} {s : Slot}
    (hslots : c'.pool.slots = c.pool.slots.modify i g) (hs : c.pool.slots[i]? = some s)
    (hkept : ∀ k, s.key = some k → (g s).key = some k) :
    c'.pool.holds key = (c.pool.holds key || decide ((g s).key = some key)) := by
  have hself : c'.pool.slots[i]? = some (g s) := hslots ▸ Pool.getElem?_modify_self hs
  rw [Bool.eq_iff_iff, Bool.or_eq_true, decide_eq_true_eq, holds_iff, holds_iff]
  constructor
  · rintro ⟨j, t, ht, hkey⟩
    rw [hslots] at ht
    rcases Pool.getElem?_modify_cases ht with ⟨s', hs', rfl, rfl⟩ | ⟨-, ht⟩
    · obtain rfl := Option.some.inj (hs.symm.trans hs')
      exact Or.inr hkey
    · exact Or.inl ⟨j, t, ht, hkey⟩
  · rintro (⟨j, t, ht, hkey⟩ | hkey)
    · by_cases hj : j = i
      · subst hj
        obtain rfl := Option.some.inj (hs.symm.trans ht)
        exact ⟨j, _, hself, hkept key hkey⟩
      · exact ⟨j, t, by rw [hslots, Pool.getElem?_modify_other hj, ht], hkey⟩
    · exact ⟨i, _, hself, hkey⟩

/-! ### Room for the working set -/

/-- Whether the slots of a cache are enough for a set of blocks, and hold no other block. -/
structure Roomy (working : Finset BlockId) (c : Cache σ φ) : Prop where
  housed : c.Housed
  within : ∀ {key : BlockId}, c.pool.holds key = true → key ∈ working
  card_le : working.card ≤ c.slotCount

variable {working : Finset BlockId} {key : BlockId} {touch : Touch} {how : How} {file : φ} {i : Nat}
  {h : Handle} {f : OpenFile φ}

/-- A block of the working set that is in no slot finds a free one. -/
theorem Roomy.exists_free {c : Cache σ φ} (hc : c.Roomy working) (hpos : 0 < c.pool.capacity)
    (hkey : key ∈ working) (habsent : c.Absent key) : ∃ t ∈ c.pool.slots, t.isFree = true := by
  by_contra hnone
  have hheld : ∀ i : Fin c.pool.slots.size, ∃ k, c.pool.slots[i].key = some k := by
    intro i
    refine Option.ne_none_iff_exists'.mp fun hfree => hnone ⟨_, Array.getElem_mem i.isLt, ?_⟩
    exact Option.isNone_iff_eq_none.mpr ((Slot.key_eq_none_iff _).mp hfree)
  choose keyAt hkeyAt using hheld
  have hslot : ∀ i : Fin c.pool.slots.size, c.pool.slots[i.val]? = some c.pool.slots[i] :=
    fun i => Array.getElem?_eq_getElem i.isLt
  have hinjective : Function.Injective keyAt := fun i j heq =>
    Fin.ext (hc.housed.distinct (hslot i) (hslot j) (hkeyAt i) (heq ▸ hkeyAt j))
  have hothers : ∀ i, keyAt i ∈ working.erase key := by
    intro i
    refine Finset.mem_erase.mpr ⟨fun heq => habsent _ _ (hslot i) (heq ▸ hkeyAt i), ?_⟩
    exact hc.within (holds_iff.mpr ⟨_, _, hslot i, hkeyAt i⟩)
  have hle : c.pool.slots.size ≤ (working.erase key).card := by
    have hcard := Finset.card_le_card_of_injOn (s := Finset.univ) keyAt (fun i _ => hothers i)
      hinjective.injOn
    rwa [Finset.card_univ, Fintype.card_fin] at hcard
  have hlt := Finset.card_erase_lt_of_mem hkey
  have hcapacity : c.pool.slots.size = c.slotCount := hc.housed.capacity_eq hpos
  have hfits := hc.card_le
  omega

/-- While there is a free slot no block has to make room. -/
theorem MadeRoom.eq_of_free {c c' : Cache σ φ} (hroom : MadeRoom c c')
    (hfree : ∃ t ∈ c.pool.slots, t.isFree = true) :
    ∃ (s : Slot) (journal : Array Event), c.pool.slots[c.pool.victim]? = some s ∧ s.key = none ∧
      c' = { c with journal } := by
  obtain ⟨s, hs, hslot, -⟩ := Pool.victim_of_free hfree
  have hkey : s.key = none := (Slot.key_eq_none_iff _).mpr (Option.isNone_iff_eq_none.mp hslot)
  cases hroom with
  | free => exact ⟨s, _, hs, hkey, rfl⟩
  | clean hs' | dirty hs' =>
      obtain rfl := Option.some.inj (hs.symm.trans hs')
      cases hkey

/-! ### Blocks that are asked for -/

variable {c c₁ c' c'' : Cache (Traced σ φ) φ} {ts ts' : List Touch}

/-- What happens to a block when blocks are asked for and none has to make room: it is in a slot
then if it was, or is one of them, and it was read as often as needed. -/
structure Brings (key : BlockId) (ts : List Touch) (c c' : Cache (Traced σ φ) φ) : Prop where
  holds_eq : c'.pool.holds key = (c.pool.holds key || ts.any (·.key = key))
  reads_eq : c'.storage.calls.toList.countP (Call.readsBlock σ key) =
    c.storage.calls.toList.countP (Call.readsBlock σ key) +
      if c.pool.holds key then 0 else readsNeeded key ts

namespace Brings

/-- What leaves a block where it is and reads nothing. -/
theorem of_same (hholds : c'.pool.holds key = c.pool.holds key)
    (hcalls : Traced.Adds (·.isRead = false) c.storage c'.storage) : Brings key [] c c' where
  holds_eq := by rw [hholds, List.any_nil, Bool.or_false]
  reads_eq := by
    rw [hcalls.countP_eq (Call.readsBlock σ key) fun _ => Call.readsBlock_of_other key]
    split <;> rfl

theorem trans (hfirst : Brings key ts c c') (hsecond : Brings key ts' c' c'') :
    Brings key (ts ++ ts') c c'' where
  holds_eq := by
    rw [hsecond.holds_eq, hfirst.holds_eq, List.any_append, Bool.or_assoc]
  reads_eq := by
    rw [hsecond.reads_eq, hfirst.reads_eq, hfirst.holds_eq, readsNeeded_append, Nat.add_assoc]
    cases c.pool.holds key with
    | true => rfl
    | false => rfl

end Brings

/-- No block has to make room when blocks are asked for: nothing is evicted and nothing written. -/
structure Fitting (ts : List Touch) (c c' : Cache (Traced σ φ) φ) : Prop where
  evictions_eq : c'.stats.evictions = c.stats.evictions
  writes_eq : c'.storage.calls.toList.countP Call.isWrite =
    c.storage.calls.toList.countP Call.isWrite
  brings : ∀ key, Brings key ts c c'

theorem Fitting.trans (hfirst : Fitting ts c c') (hsecond : Fitting ts' c' c'') :
    Fitting (ts ++ ts') c c'' where
  evictions_eq := hsecond.evictions_eq.trans hfirst.evictions_eq
  writes_eq := hsecond.writes_eq.trans hfirst.writes_eq
  brings key := (hfirst.brings key).trans (hsecond.brings key)

/-- A free slot is filled for a block that is in none, without a read that fails. -/
theorem Filled.fitting (hfilled : Filled file touch i c how c') {s : Slot}
    (hs : c.pool.slots[i]? = some s) (hfree : s.key = none) (habsent : c.Absent touch.key)
    (hfile : Storage.descriptor σ file = touch.key.owner)
    (hreads : ∀ call ∈ c'.storage.calls.toList, call.isFailedRead = false) :
    Fitting [touch] c c' := by
  have hhow : ¬(how = .refused ∨ how = .zeroed) := by
    intro hhow
    obtain ⟨calls, heq, hfailed⟩ := hfilled.calls
    obtain ⟨call, hmem, hcall⟩ := List.any_eq_true.mp (hfailed hhow)
    rw [hreads call (by rw [heq]; exact List.mem_append_right _ hmem)] at hcall
    cases hcall
  have hholds : ∀ key, c'.pool.holds key = (c.pool.holds key || [touch].any (·.key = key)) := by
    intro key
    obtain ⟨g, hslots, hkey⟩ := hfilled.slots_eq
    have hg : (g s).key = some touch.key :=
      (hkey s).trans (if_neg fun hrefused => hhow (Or.inl hrefused))
    have hkept : ∀ k, s.key = some k → (g s).key = some k := fun k hk => by
      rw [hfree] at hk
      cases hk
    rw [holds_of_modify hslots hs hkept, hg]
    simp
  cases hfilled with
  | loaded hpart hread =>
      refine ⟨rfl, (Traced.countP_readAt hread).2, fun key => ⟨hholds key, ?_⟩⟩
      rw [Traced.calls_readAt hread, List.countP_append, List.countP_singleton,
        readsBlock_readAt hfile, readsNeeded_single, hpart]
      by_cases hkey : touch.key = key
      · rw [← hkey, holds_eq_false_iff.mpr habsent]
        simp
      · simp [hkey]
  | taken hwhole =>
      refine ⟨rfl, rfl, fun key => ⟨hholds key, ?_⟩⟩
      rw [readsNeeded_single, hwhole]
      simp
  | refused => exact absurd (Or.inl rfl) hhow
  | zeroed => exact absurd (Or.inr rfl) hhow

theorem Access.fitting (haccess : Access file touch c how i c') (hc : c.Roomy working)
    (hpos : 0 < c.pool.capacity) (hkey : touch.key ∈ working)
    (hfile : Storage.descriptor σ file = touch.key.owner)
    (hreads : ∀ call ∈ c'.storage.calls.toList, call.isFailedRead = false) :
    Fitting [touch] c c' := by
  cases haccess with
  | @found _ s journal hs hkey =>
      have hholds : ∀ key', ({ c with
            pool := (c.pool.modifySlot i Slot.bump).count Stats.hit, journal } :
          Cache (Traced σ φ) φ).pool.holds key' =
            (c.pool.holds key' || [touch].any (·.key = key')) := by
        intro key'
        rw [holds_of_modify (c := c) (g := Slot.bump) rfl hs fun k hk => by rw [Slot.key_bump, hk],
          Slot.key_bump, hkey]
        simp
      refine ⟨rfl, rfl, fun key' => ⟨hholds key', ?_⟩⟩
      by_cases hkey' : touch.key = key'
      · rw [← hkey', holds_iff.mpr ⟨_, _, hs, hkey⟩]
        rfl
      · have hnone : readsNeeded key' [touch] = 0 := by
          rw [readsNeeded_single, if_neg fun hsame => hkey' hsame.1]
        rw [hnone, ite_self]
        rfl
  | missed habsent hroom hfilled =>
      obtain ⟨s, journal, hs, hfree, rfl⟩ := hroom.eq_of_free (hc.exists_free hpos hkey habsent)
      have hfits := hfilled.fitting hs hfree habsent hfile hreads
      exact ⟨hfits.evictions_eq, hfits.writes_eq, fun key =>
        ⟨(hfits.brings key).holds_eq, (hfits.brings key).reads_eq⟩⟩

/-- The working set still fits after one of its blocks was asked for. -/
theorem Access.roomy (haccess : Access file touch c how i c') (hc : c.Roomy working)
    (hf : c.table.get? h = some f) (howner : f.descriptor = touch.key.owner)
    (hkey : touch.key ∈ working) : c'.Roomy working where
  housed := haccess.housed hc.housed hf howner
  within := by
    intro key hholds
    obtain ⟨j, t, ht, htkey⟩ := holds_iff.mp hholds
    rcases haccess.kept ht htkey with ⟨-, rfl⟩ | ⟨s, hs, hskey⟩
    · exact hkey
    · exact hc.within (holds_iff.mpr ⟨j, s, hs, hskey⟩)
  card_le := haccess.slotCount_eq ▸ hc.card_le

omit [Storage σ φ] in
theorem holds_of_tenants {c c' : Cache σ φ} (hsize : c'.pool.slots.size = c.pool.slots.size)
    (htenant : ∀ {j : Nat} {s : Slot}, c.pool.slots[j]? = some s →
      ∃ s', c'.pool.slots[j]? = some s' ∧ s'.tenant = s.tenant) (key : BlockId) :
    c'.pool.holds key = c.pool.holds key := by
  rw [Bool.eq_iff_iff, holds_iff, holds_iff]
  constructor
  · rintro ⟨j, t, ht, hkey⟩
    have hlt : j < c.pool.slots.size := hsize ▸ (Array.getElem?_eq_some_iff.mp ht).1
    obtain ⟨s', hs', hsame⟩ := htenant (Array.getElem?_eq_getElem hlt)
    obtain rfl := Option.some.inj (ht.symm.trans hs')
    exact ⟨j, _, Array.getElem?_eq_getElem hlt, by rw [Slot.key, ← hsame, ← Slot.key, hkey]⟩
  · rintro ⟨j, s, hs, hkey⟩
    obtain ⟨s', hs', hsame⟩ := htenant hs
    exact ⟨j, s', hs', by rw [Slot.key, hsame, ← Slot.key, hkey]⟩

/-- Writing to a slot leaves the blocks where they are. -/
theorem Roomy.write (hc : c.Roomy working) (i start : Nat) (bytes : ByteArray) :
    Fitting [] c { c with pool := c.pool.write i start bytes } ∧
      Roomy working { c with pool := c.pool.write i start bytes } := by
  have hholds : ∀ key, (c.pool.write i start bytes).holds key = c.pool.holds key :=
    @holds_of_tenants _ _ c { c with pool := c.pool.write i start bytes } Array.size_modify
      (tenant_write c.pool i start bytes)
  refine ⟨⟨rfl, rfl, fun key => .of_same (hholds key) (.refl _ _)⟩, hc.housed.write i start bytes,
    fun {key} hheld => hc.within ((hholds key).symm.trans hheld), hc.card_le⟩

/-- A transfer of blocks of the working set, none of which is refused by the storage. -/
theorem Transfer.fitting {parts : List (Touch × How)} (htransfer : Transfer f c parts c')
    (hc : c.Roomy working) {f' : OpenFile φ} (hf : c.table.get? h = some f')
    (howner : f'.descriptor = f.descriptor) (hnamed : f.descriptor = Storage.descriptor σ f.file)
    (hkeys : ∀ p ∈ parts, p.1.key ∈ working)
    (hreads : ∀ call ∈ c'.storage.calls.toList, call.isFailedRead = false) :
    Fitting (parts.map (·.1)) c c' ∧ c'.Roomy working := by
  induction htransfer with
  | nil => exact ⟨⟨rfl, rfl, fun key => .of_same rfl (.refl _ _)⟩, hc⟩
  | @out c c₁ c' touch how i rest hkey haccess hrest ih =>
      obtain ⟨hfirst, hlater⟩ := List.forall_mem_cons.mp hkeys
      have hfits := haccess.fitting hc (hc.housed.capacity_pos hf) hfirst (hnamed.symm.trans hkey)
        fun call hmem => hreads call (hrest.adds.mem hmem)
      have hc₁ := haccess.roomy hc hf (howner.trans hkey) hfirst
      obtain ⟨hrestFits, hc'⟩ := ih hc₁ (by rw [haccess.table_eq, hf]) hlater hreads
      exact ⟨hfits.trans hrestFits, hc'⟩
  | @into c c₁ c' touch how i rest start bytes hkey haccess hrest ih =>
      obtain ⟨hfirst, hlater⟩ := List.forall_mem_cons.mp hkeys
      have hfits := haccess.fitting hc (hc.housed.capacity_pos hf) hfirst (hnamed.symm.trans hkey)
        fun call hmem => hreads call (hrest.adds.mem hmem)
      obtain ⟨hwritten, hc₁⟩ := (haccess.roomy hc hf (howner.trans hkey) hfirst).write i start bytes
      have hf₁ := (congrArg (·.get? h) haccess.table_eq).trans hf
      obtain ⟨hrestFits, hc'⟩ := ih hc₁ hf₁ hlater hreads
      exact ⟨(hfits.trans hwritten).trans hrestFits, hc'⟩

/-! ### Requests -/

/-- Opening a file leaves the blocks where they are. -/
theorem Opening.fitting {path : String} {flags : OpenFlags} {mode : Nat}
    {outcome : Except Error Handle} (hopening : Opening path flags mode c outcome c')
    (hc : c.Tabled) : Fitting [] c c' := by
  obtain ⟨hstats, hpool⟩ := hopening.pool_cases hc
  have hholds : ∀ key, c'.pool.holds key = c.pool.holds key := by
    intro key
    rcases hpool with hpool | ⟨hnone, -, hpool⟩ <;> rw [hpool]
    have hblank :
        (Pool.mk (Array.replicate c.slotCount Slot.blank) Scan.mk {}).holds key = false := by
      refine Bool.eq_false_iff.mpr fun hheld => ?_
      obtain ⟨s, hs, hkey⟩ := Array.any_eq_true'.mp hheld
      rw [(Array.mem_replicate.mp hs).2] at hkey
      cases hkey
    rw [hblank, hnone]
    simp [Pool.holds, Pool.unallocated]
  exact ⟨congrArg Stats.evictions hstats,
    hopening.movesNone.countP_eq Call.isWrite fun _ hcall => hcall.2,
    fun key => .of_same (hholds key) (hopening.movesNone.mono fun _ hcall => hcall.1)⟩

omit [Storage σ φ] in
theorem evictions_settle (attempts : List Pool.WriteAttempt) (pool : Pool Scan) :
    (attempts.foldl Pool.settle pool).stats.evictions = pool.stats.evictions := by
  induction attempts generalizing pool with
  | nil => rfl
  | cons attempt rest ih =>
      obtain ⟨i, key, _ | _⟩ := attempt <;> exact ih _

theorem evictions_sync (hf : c.table.get? h = some f) :
    (sync h c).2.stats.evictions = c.stats.evictions :=
  (congrArg (·.stats.evictions) (pool_sync hf)).trans (evictions_settle _ c.pool)

theorem evictions_close (hf : c.table.get? h = some f) :
    (close h c).2.stats.evictions = c.stats.evictions := by
  obtain ⟨-, -, hpool, -⟩ := close_of_some hf
  rw [stats, hpool, Pool.stats_forget]
  exact evictions_sync hf

theorem holds_sync (hf : c.table.get? h = some f) (key : BlockId) :
    (sync h c).2.pool.holds key = c.pool.holds key := by
  obtain ⟨hsize, hslots⟩ := slots_sync hf
  refine holds_of_tenants hsize (fun {j s} hs => ?_) key
  obtain ⟨dirty, hs'⟩ := hslots hs
  exact ⟨_, hs', rfl⟩

/-- Closing a file leaves the blocks of other files where they are, and has none of its own. -/
theorem holds_close (hf : c.table.get? h = some f) (key : BlockId) :
    (close h c).2.pool.holds key = (c.pool.holds key && key.owner ≠ f.descriptor) := by
  rw [Bool.eq_iff_iff, Bool.and_eq_true, decide_eq_true_eq, holds_iff, holds_iff]
  constructor
  · rintro ⟨j, t, ht, hkey⟩
    obtain ⟨hs, hother⟩ := slot_of_close hf ht hkey
    exact ⟨⟨j, t, hs, hkey⟩, hother⟩
  · rintro ⟨⟨j, s, hs, hkey⟩, hother⟩
    exact ⟨j, s, slot_kept_of_close hf hs hkey hother, hkey⟩

/-- What a request does if the blocks that it asks for fit: nothing is evicted, nothing is written
unless it syncs or closes a file, and no block is lost unless its file is closed. -/
structure Fits (request : Request) (c c' : Cache (Traced σ φ) φ) : Prop where
  evictions_eq : c'.stats.evictions = c.stats.evictions
  writes_eq : (∀ h, request ≠ .sync h) → (∀ h, request ≠ .close h) →
    c'.storage.calls.toList.countP Call.isWrite = c.storage.calls.toList.countP Call.isWrite
  brings : ∀ key, (∀ h f, request = .close h → c.table.get? h = some f → f.descriptor ≠ key.owner) →
    Brings key (touchesOf c request) c c'

theorem Fitting.fits {request : Request} (hfits : Fitting (touchesOf c request) c c') :
    Fits request c c' :=
  ⟨hfits.evictions_eq, fun _ _ => hfits.writes_eq, fun key _ => hfits.brings key⟩

theorem Roomy.of_fitting (hc : c.Roomy working) (hfits : Fitting ts c c')
    (hkeys : ∀ t ∈ ts, t.key ∈ working) (hhoused : c'.Housed)
    (hcount : c'.slotCount = c.slotCount) : c'.Roomy working where
  housed := hhoused
  within := by
    intro key hholds
    rw [(hfits.brings key).holds_eq, Bool.or_eq_true, List.any_eq_true] at hholds
    rcases hholds with hheld | ⟨t, ht, hkey⟩
    · exact hc.within hheld
    · exact of_decide_eq_true hkey ▸ hkeys t ht
  card_le := hcount ▸ hc.card_le

/-- A request for blocks of the working set fits, if no read of the storage fails. -/
theorem Roomy.serve (hc : c.Roomy working) (htabled : c.Tabled) (request : Request)
    (hkeys : ∀ t ∈ touchesOf c request, t.key ∈ working)
    (hreads : ∀ call ∈ (serve request c).2.storage.calls.toList, call.isFailedRead = false) :
    Fits request c (serve request c).2 ∧ (serve request c).2.Roomy working := by
  have hserving := serve_serving hc.housed request
  have hhoused := hc.housed.serve request
  generalize (Cache.serve request c).1 = reply at hserving
  generalize (Cache.serve request c).2 = c' at hserving hhoused hreads ⊢
  have hcount := hserving.slotCount_eq
  cases hserving with
  | opening hopening =>
      have hfits := hopening.fitting htabled
      exact ⟨Fitting.fits hfits, hc.of_fitting hfits hkeys hhoused hcount⟩
  | @closing h f hf =>
      refine ⟨⟨evictions_close hf, fun _ hclose => absurd rfl (hclose h), fun key hother => ?_⟩,
        hhoused, fun {key} hholds => ?_, hcount ▸ hc.card_le⟩
      · refine .of_same ?_ (adds_close hf)
        rw [holds_close hf, decide_eq_true (hother h f rfl hf).symm, Bool.and_true]
      · rw [holds_close hf, Bool.and_eq_true] at hholds
        exact hc.within hholds.1
  | @syncing h f hf =>
      refine ⟨⟨evictions_sync hf, fun hsync => absurd rfl (hsync h), fun key _ => ?_⟩, hhoused,
        fun {key} hholds => hc.within (holds_sync hf key ▸ hholds), hcount ▸ hc.card_le⟩
      exact .of_same (holds_sync hf key) (adds_sync hf)
  | @moving _ _ h f parts c₁ table table' journal hf htable htransfer _ htouches =>
      obtain ⟨f', hf', -, howner⟩ := htable.get?_of_some hf
      have hmoved : ({ c with table } : Cache (Traced σ φ) φ).Roomy working :=
        ⟨hc.housed.of_table htable _, hc.within, hc.card_le⟩
      obtain ⟨hfits, -⟩ := htransfer.fitting hmoved hf' howner (hc.housed.named hf)
        (fun p hp => hkeys p.1 (htouches ▸ List.mem_map_of_mem hp)) hreads
      have hsame : Fitting (touchesOf c request) c { c₁ with table := table', journal } :=
        ⟨hfits.evictions_eq, hfits.writes_eq, fun key =>
          htouches ▸ ⟨(hfits.brings key).holds_eq, (hfits.brings key).reads_eq⟩⟩
      exact ⟨hsame.fits, hc.of_fitting hsame hkeys hhoused hcount⟩
  | @refused h f buffer buffer' fault got refused _ hf htransfer =>
      obtain ⟨calls, heq, hfailed⟩ := htransfer.calls
      obtain ⟨call, hmem, hcall⟩ :=
        List.any_eq_true.mp (hfailed ⟨(refused, .refused), by simp, rfl⟩)
      rw [hreads call (by rw [heq]; exact List.mem_append_right _ hmem)] at hcall
      cases hcall
  | @idle _ _ table htable htouches =>
      have hsame : Fitting (touchesOf c request) c { c with table } := by
        rw [htouches]
        exact ⟨rfl, rfl, fun key => .of_same rfl (.refl _ _)⟩
      exact ⟨hsame.fits, hc.of_fitting hsame hkeys hhoused hcount⟩

/-! ### Sessions -/

theorem roomy_session (hc : c.Roomy working) (htabled : c.Tabled) (requests : List Request)
    (hkeys : ∀ t ∈ touches requests c, t.key ∈ working)
    (hreads : ∀ call ∈ (session requests c).2.storage.calls.toList, call.isFailedRead = false) :
    (session requests c).2.Roomy working ∧
      (session requests c).2.stats.evictions = c.stats.evictions := by
  induction requests generalizing c with
  | nil => exact ⟨hc, rfl⟩
  | cons request rest ih =>
      obtain ⟨hfirst, hlater⟩ := List.forall_mem_append.mp hkeys
      have hlast := adds_session (hc.housed.serve request) rest
      obtain ⟨hfits, hc₁⟩ := hc.serve htabled request hfirst
        fun call hmem => hreads call (hlast.mem hmem)
      obtain ⟨hc', hevictions⟩ := ih hc₁ (htabled.serve request) hlater hreads
      exact ⟨hc', hevictions.trans hfits.evictions_eq⟩

/-- While a file is open none of its blocks is lost, and each is read as often as needed. -/
theorem brings_session (hc : c.Roomy working) (htabled : c.Tabled) (hreg : c.Regular)
    (requests : List Request) (hfresh : AllFresh requests c) (hf : c.table.get? h = some f)
    (howner : f.descriptor = key.owner) (hclose : .close h ∉ requests)
    (hkeys : ∀ t ∈ touches requests c, t.key ∈ working)
    (hreads : ∀ call ∈ (session requests c).2.storage.calls.toList, call.isFailedRead = false) :
    Brings key (touches requests c) c (session requests c).2 := by
  induction requests generalizing c f with
  | nil => exact .of_same rfl (.refl _ _)
  | cons request rest ih =>
      rw [List.mem_cons, not_or] at hclose
      obtain ⟨hfirst, hlater⟩ := List.forall_mem_append.mp hkeys
      have hlast := adds_session (hc.housed.serve request) rest
      obtain ⟨hfits, hc₁⟩ := hc.serve htabled request hfirst
        fun call hmem => hreads call (hlast.mem hmem)
      obtain ⟨_, _, hsteps, -⟩ := serve_steps hreg request hfresh.1
      obtain ⟨f₁, hf₁, -, howner₁⟩ :=
        (serve_serving hc.housed request).file_eq hf (Ne.symm hclose.1)
      refine (hfits.brings key fun h' f' hrequest hf' hsame => ?_).trans
        (ih hc₁ (htabled.serve request) (hsteps.regular hreg) hfresh.2 hf₁ (howner₁.trans howner)
          hclose.2 hlater hreads)
      obtain rfl := hreg.apart hf hf' (howner.trans hsame.symm)
      exact hclose.1 hrequest.symm

omit [Storage σ φ] in
theorem countP_callsSince {p : Call φ → Prop} (hadds : Traced.Adds p c.storage c'.storage)
    (count : Call φ → Bool) :
    c'.storage.calls.toList.countP count =
      c.storage.calls.toList.countP count + (c'.callsSince c).countP count := by
  obtain ⟨calls, heq, -⟩ := hadds
  rw [callsSince_of_append heq, heq, List.countP_append]

/-- A session whose blocks fit can be cut in two. -/
theorem roomy_append (hc : c.Roomy working) (htabled : c.Tabled) (earlier later : List Request)
    (hkeys : ∀ t ∈ touches (earlier ++ later) c, t.key ∈ working)
    (hreads : ∀ call ∈ (session (earlier ++ later) c).2.storage.calls.toList,
      call.isFailedRead = false) :
    (session earlier c).2.Roomy working ∧
      (∀ t ∈ touches later (session earlier c).2, t.key ∈ working) ∧
      ∀ call ∈ (session later (session earlier c).2).2.storage.calls.toList,
        call.isFailedRead = false := by
  rw [touches_append] at hkeys
  obtain ⟨hfirst, hlater⟩ := List.forall_mem_append.mp hkeys
  rw [session_append] at hreads
  have hlast := adds_session (hc.housed.session earlier) later
  exact ⟨(roomy_session hc htabled earlier hfirst fun call hmem => hreads call (hlast.mem hmem)).1,
    hlater, hreads⟩

/-- From when a file is opened until it is closed each of its blocks is read as often as needed. -/
theorem reads_opened (hc : c.Roomy working) (htabled : c.Tabled) (hreg : c.Regular) {path : String}
    {flags : OpenFlags} {mode : Nat} {during later requests : List Request}
    (hrequests : requests = .openFile path flags mode :: (during ++ later))
    (hfresh : AllFresh requests c) (hclose : .close h ∉ during)
    (hopen : (openFile path flags mode c).1 = .ok h)
    (hf : (openFile path flags mode c).2.table.get? h = some f)
    (hkeys : ∀ t ∈ touches requests c, t.key ∈ working)
    (hreads : ∀ call ∈ (session requests c).2.storage.calls.toList, call.isFailedRead = false)
    (block : Nat) :
    let opened := (openFile path flags mode c).2
    ((session during opened).2.callsSince opened).countP (Call.readsBlock σ ⟨f.descriptor, block⟩) =
      readsNeeded ⟨f.descriptor, block⟩ (touches during opened) := by
  intro opened
  subst hrequests
  obtain ⟨hopened, hkeys₁, hreads₁⟩ :
      opened.Roomy working ∧ (∀ t ∈ touches (during ++ later) opened, t.key ∈ working) ∧
        ∀ call ∈ (session (during ++ later) opened).2.storage.calls.toList,
          call.isFailedRead = false :=
    roomy_append hc htabled [.openFile path flags mode] (during ++ later) hkeys hreads
  rw [touches_append] at hkeys₁
  rw [session_append] at hreads₁
  have hlast := adds_session (hopened.housed.session during) later
  obtain ⟨_, _, hsteps, -⟩ := openFile_steps hfresh.1
  have hbrings : Brings ⟨f.descriptor, block⟩ (touches during opened) opened
      (session during opened).2 :=
    brings_session hopened (htabled.serve (.openFile path flags mode)) (hsteps.regular hreg) during
      (allFresh_append.mp hfresh.2).1 hf rfl hclose (List.forall_mem_append.mp hkeys₁).1
      fun call hmem => hreads₁ call (hlast.mem hmem)
  obtain ⟨f', hf', hvacant⟩ := openFile_vacant hreg hfresh.1 (Prod.ext hopen rfl)
  obtain rfl := Option.some.inj (hf.symm.trans hf')
  -- a file that was just opened has no block in a slot
  have hnone : opened.pool.holds ⟨f.descriptor, block⟩ = false :=
    holds_eq_false_iff.mpr fun i s hs hkey => hvacant hs hkey rfl
  have hcount := hbrings.reads_eq
  rw [countP_callsSince (adds_session hopened.housed during), hnone] at hcount
  exact Nat.add_left_cancel hcount

/-- If no read of the storage fails in a session, and no more blocks are asked for than there are
slots, then nothing is evicted; the storage is written to only by a sync or a close; and if every
file that is opened has a descriptor of its own, then from when a file is opened until it is closed
each of its blocks is read once if it is asked for, and not at all if it is asked for first to be
written whole. -/
theorem workingSet_kept (storage : σ) (slotCount : Nat) (allocator : Allocator)
    (requests : List Request)
    (hreads : ∀ call ∈ (session requests (Cache.new (Traced.new storage) slotCount allocator :
      Cache (Traced σ φ) φ)).2.storage.calls.toList, call.isFailedRead = false)
    (hfits : ((touches requests (Cache.new (Traced.new storage) slotCount allocator :
      Cache (Traced σ φ) φ)).map (·.key)).toFinset.card ≤ slotCount) :
    let first : Cache (Traced σ φ) φ := Cache.new (Traced.new storage) slotCount allocator
    (session requests first).2.stats.evictions = 0 ∧
      (∀ earlier request later, requests = earlier ++ request :: later →
        let c := (session earlier first).2
        ∀ call ∈ (serve request c).2.callsSince c, call.isWrite = true →
          ∃ h, request = .sync h ∨ request = .close h) ∧
      (AllFresh requests first → ∀ earlier path flags mode during later h f,
        requests = earlier ++ .openFile path flags mode :: (during ++ later) →
        .close h ∉ during →
        let c := (session earlier first).2
        let opened := (openFile path flags mode c).2
        (openFile path flags mode c).1 = .ok h → opened.table.get? h = some f →
        ∀ block, ((session during opened).2.callsSince opened).countP
            (Call.readsBlock σ ⟨f.descriptor, block⟩) =
          readsNeeded ⟨f.descriptor, block⟩ (touches during opened)) := by
  intro first
  have hkeys : ∀ t ∈ touches requests first,
      t.key ∈ ((touches requests first).map (·.key)).toFinset :=
    fun t ht => List.mem_toFinset.mpr (List.mem_map_of_mem ht)
  generalize hworking : ((touches requests first).map (·.key)).toFinset = working at hkeys
  have hroomy : first.Roomy working :=
    ⟨housed_new _ _ _,
      fun {key} hholds => by simp [first, Cache.new, Pool.unallocated, Pool.holds] at hholds,
      hworking ▸ hfits⟩
  have htabled : first.Tabled := tabled_new _ _ _
  refine ⟨(roomy_session hroomy htabled requests hkeys hreads).2, ?_, ?_⟩
  · rintro earlier request later rfl c call hmem hwrite
    obtain ⟨hc, hkeys', hreads'⟩ := roomy_append hroomy htabled earlier _ hkeys hreads
    have hlast := adds_session (hc.housed.serve request) later
    obtain ⟨hserved, -⟩ := hc.serve (htabled.session earlier) request
      (List.forall_mem_append.mp hkeys').1 fun call hmem => hreads' call (hlast.mem hmem)
    by_contra hother
    have hsame := hserved.writes_eq (fun h hh => hother ⟨h, Or.inl hh⟩)
      fun h hh => hother ⟨h, Or.inr hh⟩
    rw [countP_callsSince (serve_serving hc.housed request).adds, Nat.add_eq_left,
      List.countP_eq_zero] at hsame
    exact hsame call hmem hwrite
  · rintro hfresh earlier path flags mode during later h f rfl hclose c opened hopen hf block
    obtain ⟨hc, hkeys', hreads'⟩ := roomy_append hroomy htabled earlier _ hkeys hreads
    obtain ⟨hfresh₀, hfresh₁⟩ := allFresh_append.mp hfresh
    obtain ⟨_, _, hsteps⟩ := session_steps (regular_new _ _ _) hfresh₀
    exact reads_opened hc (htabled.session earlier) (hsteps.regular (regular_new _ _ _)) rfl hfresh₁
      hclose hopen hf hkeys' hreads' block

/-- Two blocks in two slots: the first is written in part and the second as a whole, and then both
are read. -/
def twoBlocks : List Request :=
  [.write ⟨0⟩ ⟨#[1]⟩, .seek ⟨0⟩ (.start blockSize), .write ⟨0⟩ ⟨Array.replicate blockSize 2⟩,
    .sync ⟨0⟩, .seek ⟨0⟩ (.start (blockSize - 1)), .read ⟨0⟩ ⟨#[0, 0]⟩]

/-- A cache with two slots and an empty file open. -/
def besideTwoBlocks : Cache (Traced Memory Memory.File) Memory.File :=
  (openFile "a" OpenFlags.create 0 (Cache.new (Traced.new (Memory.ofFiles Catalog.empty)) 2)).2

theorem workingSet_kept_twoBlocks :
    let last := (session twoBlocks besideTwoBlocks).2
    last.stats.evictions = 0 ∧
      (last.callsSince besideTwoBlocks).countP (Call.readsBlock Memory ⟨3, 0⟩) = 1 ∧
      (last.callsSince besideTwoBlocks).countP (Call.readsBlock Memory ⟨3, 1⟩) = 0 := by
  intro last
  have hkept := @workingSet_kept Memory Memory.File _ (Memory.ofFiles Catalog.empty) 2
    .addressable (.openFile "a" OpenFlags.create 0 :: twoBlocks) (by decide +kernel)
    (by decide +kernel)
  have hevictions := hkept.1
  have hcounts := hkept.2.2
  have hdescriptor : (besideTwoBlocks.table.get? ⟨0⟩).map (·.descriptor) = some 3 := by
    decide +kernel
  obtain ⟨f, hf, hthree⟩ := Option.map_eq_some_iff.mp hdescriptor
  have hcount := hcounts (by decide +kernel) [] "a" OpenFlags.create 0 twoBlocks [] ⟨0⟩ f
    (by rw [List.append_nil]; rfl) (by simp [twoBlocks]) (by decide +kernel) hf
  rw [hthree] at hcount
  have hfirst : readsNeeded ⟨3, 0⟩ (touches twoBlocks besideTwoBlocks) = 1 := by decide +kernel
  have hsecond : readsNeeded ⟨3, 1⟩ (touches twoBlocks besideTwoBlocks) = 0 := by decide +kernel
  exact ⟨hevictions, (hcount 0).trans hfirst, (hcount 1).trans hsecond⟩

end Cache

end BlockCache
