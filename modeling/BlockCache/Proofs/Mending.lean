import BlockCache.Proofs.Access
import BlockCache.Proofs.InMemory

/-!
Runs over a mended storage. Two states of a storage may differ in nothing but reads that fail in the
first one: the second one mends the first one. What a cache copies out over a storage, it copies out
over one that mends it too, from the same slots and with the same blocks put out of them.
-/

namespace BlockCache

namespace Traced

variable {σ φ α : Type} {s : Traced σ φ} {call : StateM σ α} {entry : α → Call φ} {a : α}

theorem record_inner {t : σ} (h : call s.inner = (a, t)) :
    record call entry s = (a, ⟨t, s.calls.push (entry a)⟩) := by
  show (_, _) = _
  rw [h]

end Traced

/-- Whether states of a storage are related in such a way that of two related ones the second one
reads what the first one reads, and takes what the first one takes. -/
structure IsMending {σ φ : Type} [Storage σ φ] (R : σ → σ → Prop) : Prop where
  readAt : ∀ {s s' t : σ} {n : Nat} {file : φ} {buffer buffer' : Buffer n} {offset count : Nat},
    R s t → Storage.readAt file buffer offset s = ((.ok count, buffer'), s') →
    ∃ t', Storage.readAt file buffer offset t = ((.ok count, buffer'), t') ∧ R s' t'
  writeAt : ∀ {s s' t : σ} {n : Nat} {file : φ} {buffer : Buffer n} {offset : Nat}
    {outcome : Except Fault Nat}, R s t → Storage.writeAt file buffer offset s = (outcome, s') →
    ∃ t', Storage.writeAt file buffer offset t = (outcome, t') ∧ R s' t'

/-- Whether a storage in its second state does all that it does in its first state, and may read
where it fails to in the first one. -/
def Mends {σ φ : Type} [Storage σ φ] (s t : σ) : Prop := ∃ R : σ → σ → Prop, IsMending R ∧ R s t

/-- A storage of which all calls are written down is mended as the storage inside is. -/
theorem Mends.traced {σ φ : Type} [Storage σ φ] {s t : Traced σ φ} (h : Mends s.inner t.inner) :
    Mends s t := by
  obtain ⟨R, hR, hst⟩ := h
  refine ⟨fun s t => R s.inner t.inner, ⟨fun hst hread => ?_, fun hst hwrite => ?_⟩, hst⟩
  · obtain ⟨t', hread', hst'⟩ := hR.readAt hst (Traced.inner_record hread)
    exact ⟨_, Traced.record_inner hread', hst'⟩
  · obtain ⟨t', hwrite', hst'⟩ := hR.writeAt hst (Traced.inner_record hwrite)
    exact ⟨_, Traced.record_inner hwrite', hst'⟩

namespace Cache

variable {σ φ : Type} [Storage σ φ] {s s' t : σ} {c c' : Cache σ φ} {f : OpenFile φ}

theorem storeBlock_mended {file : φ} {key : BlockId} {block : Block} {outcome : Except Error Unit}
    (h : Mends s t) (hstore : storeBlock file key block s = (outcome, s')) :
    ∃ t', storeBlock file key block t = (outcome, t') ∧ Mends s' t' := by
  obtain ⟨R, hR, hst⟩ := h
  rcases hwrite : Storage.writeAt file block key.offset s with ⟨result, s₁⟩
  obtain ⟨t', hwrite', hst'⟩ := hR.writeAt hst hwrite
  rw [storeBlock, bind_apply, hwrite] at hstore
  cases result with
  | ok | error =>
      obtain ⟨rfl, rfl⟩ := Prod.mk.inj hstore
      refine ⟨t', ?_, R, hR, hst'⟩
      rw [storeBlock, bind_apply, hwrite']
      rfl

theorem writeBack_mended {table : FileTable φ} {key : BlockId} {block : Block}
    {outcome : Except Error Unit} (h : Mends s t)
    (hwrite : writeBack table key block s = (outcome, s')) :
    ∃ t', writeBack table key block t = (outcome, t') ∧ Mends s' t' := by
  rw [writeBack] at hwrite ⊢
  cases howner : table.ownerOf key.owner with
  | none =>
      rw [howner] at hwrite
      obtain ⟨rfl, rfl⟩ := Prod.mk.inj hwrite
      exact ⟨t, rfl, h⟩
  | some owner =>
      rw [howner] at hwrite
      exact storeBlock_mended h hwrite

theorem fetchBlock_mended {file : φ} {key : BlockId} {block block' : Block} {n : Nat}
    (h : Mends s t) (hfetch : fetchBlock file key block s = ((.ok n, block'), s')) :
    ∃ t', fetchBlock file key block t = ((.ok n, block'), t') ∧ Mends s' t' := by
  obtain ⟨R, hR, hst⟩ := h
  rcases hread : Storage.readAt file block key.offset s with ⟨⟨fault | count, read⟩, s₁⟩
  · rw [fetchBlock_of_error hread] at hfetch
    cases (Prod.mk.inj (Prod.mk.inj hfetch).1).1
  · rw [fetchBlock_of_ok hread] at hfetch
    obtain ⟨hres, rfl⟩ := Prod.mk.inj hfetch
    obtain ⟨hcount, rfl⟩ := Prod.mk.inj hres
    obtain rfl := Except.ok.inj hcount
    obtain ⟨t', hread', hst'⟩ := hR.readAt hst hread
    exact ⟨t', fetchBlock_of_ok hread', R, hR, hst'⟩

/-- A pool makes room in the same way over a storage that mends another one. -/
theorem poolRoom_mended {table : FileTable φ} {pool pool' : Pool Scan} {room : Pool.Room}
    (h : Mends s t) (hroom : pool.makeRoom (writeBack table) s = ((room, pool'), s')) :
    ∃ t', pool.makeRoom (writeBack table) t = ((room, pool'), t') ∧ Mends s' t' := by
  cases hs : pool.slots[pool.victim]? with
  | none =>
      rw [pool.makeRoom_of_none _ hs] at hroom ⊢
      obtain ⟨hres, rfl⟩ := Prod.mk.inj hroom
      exact ⟨t, by rw [hres], h⟩
  | some slot =>
      obtain ⟨block, dirty, _ | tenant⟩ := slot
      · rw [pool.makeRoom_of_free _ hs rfl] at hroom ⊢
        obtain ⟨hres, rfl⟩ := Prod.mk.inj hroom
        exact ⟨t, by rw [hres], h⟩
      cases dirty with
      | false =>
          rw [pool.makeRoom_of_clean _ hs] at hroom ⊢
          obtain ⟨hres, rfl⟩ := Prod.mk.inj hroom
          exact ⟨t, by rw [hres], h⟩
      | true =>
          rcases hwrite : writeBack table tenant.key block s with ⟨outcome, s₁⟩
          obtain ⟨t', hwrite', h'⟩ := writeBack_mended h hwrite
          rw [pool.makeRoom_of_dirty _ hs, hwrite] at hroom
          rw [pool.makeRoom_of_dirty _ hs, hwrite']
          obtain ⟨hres, rfl⟩ := Prod.mk.inj hroom
          exact ⟨t', by rw [hres], h'⟩

theorem makeRoom_of_pool {room : Pool.Room} {pool : Pool Scan}
    (hroom : c.pool.makeRoom (writeBack c.table) c.storage = ((room, pool), s')) :
    makeRoom c = (room.slot,
      { c with storage := s', pool := pool, journal := c.journal ++ room.events }) := by
  rw [makeRoom, bind_apply, get_apply, bind_apply, onPool_apply, hroom]
  rfl

theorem makeRoom_mended {i : Nat} (h : Mends c.storage t) (hroom : makeRoom c = (i, c')) :
    ∃ t', makeRoom { c with storage := t } = (i, { c' with storage := t' }) ∧
      Mends c'.storage t' := by
  rcases hpool : c.pool.makeRoom (writeBack c.table) c.storage with ⟨⟨room, pool⟩, s'⟩
  obtain ⟨t', hpool', h'⟩ := poolRoom_mended h hpool
  rw [makeRoom_of_pool hpool] at hroom
  obtain ⟨rfl, rfl⟩ := Prod.mk.inj hroom
  exact ⟨t', makeRoom_of_pool (c := { c with storage := t }) hpool', h'⟩

omit [Storage σ φ] in
/-- Looking a block up is none of the storage's business. -/
theorem find_over {found : Option Nat} {key : BlockId} (t : σ) (hfind : find key c = (found, c')) :
    c'.storage = c.storage ∧
      find key { c with storage := t } = (found, { c' with storage := t }) := by
  rw [find, bind_apply, onPool_apply, pure_apply] at hfind ⊢
  rcases hlookup : c.pool.lookup key with ⟨_ | hit, pool⟩
  · rw [hlookup] at hfind
    obtain ⟨rfl, rfl⟩ := Prod.mk.inj hfind
    exact ⟨rfl, rfl⟩
  · rw [hlookup] at hfind
    obtain ⟨rfl, rfl⟩ := Prod.mk.inj hfind
    exact ⟨rfl, rfl⟩

/-- A block that can be had for reading can be had over a storage that mends the first one, and is
in the same slot then. -/
theorem slotToRead_mended {block i : Nat} (h : Mends c.storage t)
    (hslot : slotToRead f block c = (.ok i, c')) :
    ∃ t', slotToRead f block { c with storage := t } = (.ok i, { c' with storage := t' }) ∧
      Mends c'.storage t' := by
  rcases hfind : find ⟨f.descriptor, block⟩ c with ⟨_ | j, c₁⟩
  · obtain ⟨hstorage, hfind'⟩ := find_over t hfind
    rcases hroom : makeRoom c₁ with ⟨j, c₂⟩
    obtain ⟨t₂, hroom', h₂⟩ := makeRoom_mended (hstorage ▸ h) hroom
    rcases hfetch : fetchBlock f.file ⟨f.descriptor, block⟩ (c₂.pool.blockAt j) c₂.storage with
      ⟨⟨e | n, bytes⟩, s'⟩
    · rw [slotToRead_of_error hfind hroom (Pool.fill_of_error _ hfetch)] at hslot
      cases (Prod.mk.inj hslot).1
    · rw [slotToRead_of_ok hfind hroom (Pool.fill_of_ok _ hfetch)] at hslot
      obtain ⟨hj, rfl⟩ := Prod.mk.inj hslot
      obtain rfl := Except.ok.inj hj
      obtain ⟨t', hfetch', h'⟩ := fetchBlock_mended h₂ hfetch
      have hslot' := slotToRead_of_ok hfind' hroom' (Pool.fill_of_ok _ hfetch')
      exact ⟨t', hslot', h'⟩
  · obtain ⟨hstorage, hfind'⟩ := find_over t hfind
    rw [slotToRead_of_found hfind] at hslot
    obtain ⟨hj, rfl⟩ := Prod.mk.inj hslot
    obtain rfl := Except.ok.inj hj
    exact ⟨t, slotToRead_of_found hfind', hstorage ▸ h⟩

/-- What is copied out over a storage is copied out over one that mends it. -/
theorem copyOut_mended {n : Nat} {cs : List Chunk} {buffer buffer' : Buffer n}
    (h : Mends c.storage t) (hcopy : copyOut f cs buffer c = ((.ok (), buffer'), c')) :
    ∃ t', copyOut f cs buffer { c with storage := t } =
      ((.ok (), buffer'), { c' with storage := t' }) := by
  induction cs generalizing c buffer t with
  | nil =>
      obtain ⟨hres, rfl⟩ := Prod.mk.inj hcopy
      obtain ⟨-, rfl⟩ := Prod.mk.inj hres
      exact ⟨t, rfl⟩
  | cons chunk rest ih =>
      obtain ⟨i, c₁, hslot, hrest⟩ := copyOut_cons_ok hcopy
      obtain ⟨t₁, hslot', h₁⟩ := slotToRead_mended h hslot
      rw [copyOut_of_ok chunk hslot']
      exact ih h₁ hrest

end Cache

/-! ### Files in memory -/

namespace Memory

/-- The same files, where reading does not fail. -/
def readable (m : Memory) : Memory := { m with failing := { m.failing with read := false } }

theorem readable_of_working {m : Memory} (h : m.failing.read = false) : m.readable = m := by
  obtain ⟨files, nextDescriptor, counts, ⟨read, write, sync, resize⟩⟩ := m
  obtain rfl : read = false := h
  rfl

/-- Files in memory that fail to be read are mended by the same files where reading does not
fail. -/
theorem mends_readable (m : Memory) : Mends m m.readable := by
  refine ⟨fun s t => t = s.readable, ⟨?_, ?_⟩, rfl⟩
  · rintro s s' t n file buffer buffer' offset count rfl hread
    obtain ⟨-, -, hfailing, ⟨-, herror⟩ | ⟨hworking, -⟩⟩ := readAt_run hread
    · cases herror
    · rw [readable_of_working hworking]
      exact ⟨s', hread, (readable_of_working (by rw [hfailing, hworking])).symm⟩
  · rintro ⟨files, nextDescriptor, counts, failing⟩ s' t n file buffer offset outcome rfl hwrite
    refine ⟨s'.readable, ?_, rfl⟩
    simp only [Storage.writeAt] at hwrite
    simp only [readable, Storage.writeAt]
    split at hwrite
    · next hfail =>
        obtain ⟨rfl, rfl⟩ := Prod.mk.inj hwrite
        exact if_pos hfail
    · next hfail =>
        obtain ⟨rfl, rfl⟩ := Prod.mk.inj hwrite
        exact if_neg hfail

end Memory

end BlockCache
