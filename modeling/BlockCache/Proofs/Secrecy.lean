import BlockCache.Proofs.Likeness
import BlockCache.Proofs.Oblivious
import BlockCache.Proofs.Reachable

/-!
A secret file stays secret. Two caches are alike if their storages and their pools are, and all else
of them is the same. Requests that differ in the bytes written to the secret file alone are answered
by alike caches in the same way, as far as they are not about that file, and leave them alike.

Two computations agree if they take alike caches to alike caches and their results to results that
stand in a given relation.
-/

namespace BlockCache

namespace Cache

variable {σ φ : Type} [Storage σ φ] {secret : Path} {d : Oblivious σ φ secret}
  {c c' : Cache σ φ}

/-- Whether two caches are alike but for the bytes of the secret file. -/
structure Alike (d : Oblivious σ φ secret) (c c' : Cache σ φ) : Prop where
  storage : d.Alike c.storage c'.storage
  slotCount_eq : c.slotCount = c'.slotCount
  allocator_eq : c.allocator = c'.allocator
  pool : Pool.Alike (d.Shows c.table) c.pool c'.pool
  table_eq : c.table = c'.table
  journal_eq : c.journal = c'.journal

/-- Whether a handle has the secret file. -/
def IsSecret (d : Oblivious σ φ secret) (c : Cache σ φ) (h : Handle) : Prop :=
  ∃ f, c.table.get? h = some f ∧ d.path f.file = secret

theorem not_isSecret_iff {h : Handle} {f : OpenFile φ} (hf : c.table.get? h = some f) :
    ¬ IsSecret d c h ↔ d.path f.file ≠ secret := by
  constructor
  · exact fun hopen hpath => hopen ⟨f, hf, hpath⟩
  · rintro hopen ⟨f', hf', hpath⟩
    rw [Option.some.inj (hf.symm.trans hf')] at hopen
    exact hopen hpath

theorem not_isSecret_of_none {h : Handle} (hf : c.table.get? h = none) : ¬ IsSecret d c h := by
  rintro ⟨f, hf', -⟩
  rw [hf] at hf'
  cases hf'

/-- The blocks of an open file are shown if it is not secret. -/
theorem Regular.shows (hreg : c.Regular) {h : Handle} {f : OpenFile φ}
    (hf : c.table.get? h = some f) (hopen : d.path f.file ≠ secret) :
    d.Shows c.table f.descriptor := by
  intro h' f' hf' hdescriptor
  obtain rfl := hreg.apart hf' hf hdescriptor
  rw [Option.some.inj (hf'.symm.trans hf)]
  exact hopen

theorem Regular.writesAlike (hreg : c.Regular) (key : BlockId) :
    Pool.Alike.WritesAlike (d.Shows c.table) d.Alike (writeBack c.table) key := by
  intro block block' s t hblock hs
  rw [writeBack, writeBack]
  cases howner : c.table.ownerOf key.owner with
  | none => exact ⟨rfl, hs⟩
  | some f =>
      obtain ⟨h', hf, hdescriptor⟩ := c.table.ownerOf_eq_some howner
      refine d.storeBlock key (fun hopen => hblock ?_) hs
      rw [← hdescriptor]
      exact hreg.shows hf hopen

/-- A block of an open file is read in alike. -/
theorem readsAlike {h : Handle} {f : OpenFile φ} (hf : c.table.get? h = some f) (index : Nat) :
    Pool.Alike.ReadsAlike (d.Shows c.table) d.Alike ⟨f.descriptor, index⟩
      (fetchBlock f.file ⟨f.descriptor, index⟩) := by
  intro s t block block' hs
  obtain ⟨houtcome, hnext, hblock⟩ := d.fetchBlock f.file ⟨f.descriptor, index⟩ block block' hs
  exact ⟨houtcome, hnext, fun n hok hshown => hblock n hok (hshown h f hf rfl)⟩

/-- Whether two computations take two caches to alike ones, with results in a relation. -/
def Agree {α α' : Type} (d : Oblivious σ φ secret) (Q : α → α' → Prop)
    (x : StateM (Cache σ φ) α) (x' : StateM (Cache σ φ) α') (c c' : Cache σ φ) : Prop :=
  Q (x c).1 (x' c').1 ∧ Alike d (x c).2 (x' c').2

namespace Agree

variable {α α' β β' : Type} {Q : α → α' → Prop} {P : β → β' → Prop} {x : StateM (Cache σ φ) α}
  {x' : StateM (Cache σ φ) α'} {f : α → StateM (Cache σ φ) β} {f' : α' → StateM (Cache σ φ) β'}

theorem bind (hx : Agree d Q x x' c c')
    (hf : ∀ {a a' c₁ c₁'}, x c = (a, c₁) → x' c' = (a', c₁') → Q a a' → Alike d c₁ c₁' →
      Agree d P (f a) (f' a') c₁ c₁') : Agree d P (x >>= f) (x' >>= f') c c' :=
  hf rfl rfl hx.1 hx.2

theorem bind_of_eq {a : α} {a' : α'} {c₁ c₁' : Cache σ φ} (hx : x c = (a, c₁))
    (hx' : x' c' = (a', c₁')) (hf : Agree d P (f a) (f' a') c₁ c₁') :
    Agree d P (x >>= f) (x' >>= f') c c' := by
  unfold Agree
  rw [bind_apply, bind_apply, hx, hx']
  exact hf

/-- What is done on the state that is found there agrees if it does for these two states. -/
theorem get {f : Cache σ φ → StateM (Cache σ φ) β} {f' : Cache σ φ → StateM (Cache σ φ) β'}
    (hf : Agree d P (f c) (f' c') c c') :
    Agree d P (MonadState.get >>= f) (MonadState.get >>= f') c c' := hf

theorem pure {a : α} {a' : α'} (ha : Q a a') (h : Alike d c c') :
    Agree d Q (Pure.pure a) (Pure.pure a') c c' := ⟨ha, h⟩

theorem map {g : α → β} {g' : α' → β'} (hx : Agree d Q x x' c c')
    (hg : ∀ {a a'}, Q a a' → P (g a) (g' a')) : Agree d P (g <$> x) (g' <$> x') c c' :=
  ⟨hg hx.1, hx.2⟩

end Agree

namespace Alike

variable (h : Alike d c c')
include h

theorem report (events : List Event) :
    Agree d Eq (Cache.report events) (Cache.report events) c c' :=
  ⟨rfl, { h with journal_eq := by rw [report_apply, report_apply, h.journal_eq] }⟩

/-- A call of the storage is answered as the storage answers. -/
theorem onStorage {α : Type} {call call' : StateM σ α}
    (hcall : (call c.storage).1 = (call' c'.storage).1 ∧
      d.Alike (call c.storage).2 (call' c'.storage).2) :
    Agree d Eq (Cache.onStorage call) (Cache.onStorage call') c c' :=
  ⟨hcall.1, { h with storage := hcall.2 }⟩

/-- Work on the pool that keeps pools and storages alike keeps caches so. -/
theorem onPool {α : Type} {Q : α → α → Prop} {op op' : Pool Scan → StateM σ (α × Pool Scan)}
    (hresult : Q (op c.pool c.storage).1.1 (op' c'.pool c'.storage).1.1)
    (hpool : Pool.Alike (d.Shows c.table) (op c.pool c.storage).1.2 (op' c'.pool c'.storage).1.2)
    (hstorage : d.Alike (op c.pool c.storage).2 (op' c'.pool c'.storage).2) :
    Agree d Q (Cache.onPool op) (Cache.onPool op') c c' :=
  ⟨hresult, { h with storage := hstorage, pool := hpool }⟩

/-! ### Blocks -/

theorem find (key : BlockId) : Agree d Eq (Cache.find key) (Cache.find key) c c' := by
  obtain ⟨hfound, hpool⟩ := h.pool.lookup key
  refine Agree.bind (h.onPool hfound hpool h.storage) ?_
  rintro found _ c₁ c₁' - - rfl h₁
  cases found with
  | none => exact .pure rfl h₁
  | some hit => exact (h₁.report _).bind fun _ _ _ h₂ => .pure rfl h₂

theorem makeRoom (hreg : c.Regular) : Agree d Eq Cache.makeRoom Cache.makeRoom c c' := by
  obtain ⟨hroom, hpool, hstorage⟩ := h.pool.makeRoom hreg.writesAlike h.storage
  refine Agree.get ?_
  rw [← h.table_eq]
  refine (h.onPool hroom hpool hstorage).bind ?_
  rintro room _ c₁ c₁' - - rfl h₁
  exact (h₁.report _).bind fun _ _ _ h₂ => .pure rfl h₂

/-- A block of an open file is found in the same slot, or the same slot is made free for it. -/
theorem findOrRoom (hreg : c.Regular) {handle : Handle} {f : OpenFile φ}
    (hf : c.table.get? handle = some f) (key : BlockId) :
    (∃ i s c₁ c₁', Cache.find key c = (some i, c₁) ∧ Cache.find key c' = (some i, c₁') ∧
      Alike d c₁ c₁' ∧ c₁.table = c.table ∧ c₁.pool.slots[i]? = some s ∧ s.key = some key) ∨
    (∃ i s c₁ c₁' c₂ c₂', Cache.find key c = (none, c₁) ∧ Cache.find key c' = (none, c₁') ∧
      Cache.makeRoom c₁ = (i, c₂) ∧ Cache.makeRoom c₁' = (i, c₂') ∧ Alike d c₂ c₂' ∧
      c₂.table = c.table ∧ c₂.pool.slots[i]? = some s ∧ s.key = none) := by
  obtain ⟨hfound, h₁⟩ := h.find key
  rcases hfind' : Cache.find key c' with ⟨found, c₁'⟩
  rcases find_spec c key with ⟨i, s, new, c₁, hfind, hsteps, hs, hkey⟩ |
    ⟨c₁, hfind, hsteps, -⟩
  · rw [hfind, hfind'] at hfound h₁
    obtain rfl : some i = found := hfound
    exact Or.inl ⟨i, s, c₁, c₁', hfind, rfl, h₁, hsteps.table_tend, hs, hkey⟩
  · rw [hfind, hfind'] at hfound h₁
    obtain rfl : none = found := hfound
    have hreg₁ := hsteps.regular hreg
    have hpos := hreg₁.capacity_pos (hsteps.table_tend.symm ▸ hf)
    obtain ⟨i, s, new, c₂, hroom, hsteps', hs, hfree, -⟩ := makeRoom_spec hreg₁ hpos
    obtain ⟨hslot, h₂⟩ := Alike.makeRoom h₁ hreg₁
    rcases hroom' : Cache.makeRoom c₁' with ⟨i', c₂'⟩
    rw [hroom, hroom'] at hslot h₂
    obtain rfl : i = i' := hslot
    exact Or.inr ⟨i, s, c₁, c₁', c₂, c₂', hfind, rfl, hroom, hroom', h₂,
      (hsteps.append hsteps').table_tend, hs, hfree⟩

theorem slotToRead (hreg : c.Regular) {handle : Handle} {f : OpenFile φ}
    (hf : c.table.get? handle = some f) (index : Nat) :
    Agree d Eq (Cache.slotToRead f index) (Cache.slotToRead f index) c c' := by
  rcases h.findOrRoom hreg hf ⟨f.descriptor, index⟩ with
    ⟨i, s, c₁, c₁', hfind, hfind', h₁, -⟩ |
      ⟨i, s, c₁, c₁', c₂, c₂', hfind, hfind', hroom, hroom', h₂, htable, hs, hfree⟩
  · exact .bind_of_eq hfind hfind' (.pure rfl h₁)
  · refine .bind_of_eq hfind hfind' (.bind_of_eq hroom hroom' ?_)
    obtain ⟨houtcome, hpool, hstorage⟩ := h₂.pool.fill
      (readsAlike (htable.symm ▸ hf) index) h₂.storage hs hfree
    refine (h₂.onPool houtcome hpool hstorage).bind ?_
    rintro outcome _ c₃ c₃' - - rfl h₃
    cases outcome with
    | ok _ => exact .pure rfl h₃
    | error e => exact (h₃.report _).bind fun _ _ _ h₄ => .pure rfl h₄

theorem copyOut {n : Nat} (hreg : c.Regular) {handle : Handle} {f : OpenFile φ}
    (hf : c.table.get? handle = some f) (cs : List Chunk) {buffer buffer' : Buffer n}
    (hbuffer : d.path f.file ≠ secret → buffer = buffer') :
    Agree d (fun r r' => r.1 = r'.1 ∧ (d.path f.file ≠ secret → r.2 = r'.2))
      (Cache.copyOut f cs buffer) (Cache.copyOut f cs buffer') c c' := by
  induction cs generalizing c c' buffer buffer' with
  | nil => exact .pure ⟨rfl, hbuffer⟩ h
  | cons chunk rest ih =>
      refine (h.slotToRead hreg hf chunk.block).bind ?_
      rintro outcome _ c₁ c₁' hslot - rfl h₁
      cases outcome with
      | error e => exact .pure ⟨rfl, hbuffer⟩ h₁
      | ok i =>
          rcases slotToRead_spec hreg hf chunk.block with
            ⟨i', s, new, c₂, hslot', hsteps, hs, hkey⟩ | ⟨e, new, c₂, hslot', -⟩
          · rw [hslot] at hslot'
            obtain ⟨hi, rfl⟩ := Prod.mk.inj hslot'
            obtain rfl := Except.ok.inj hi
            have hf₁ : c₁.table.get? handle = some f := by rw [hsteps.table_tend, hf]
            have hreg₁ := hsteps.regular hreg
            refine .get (ih h₁ hreg₁ hf₁ fun hopen => ?_)
            obtain ⟨s', hs', hlike⟩ := h₁.pool.getElem? hs
            rw [hbuffer hopen, Pool.blockAt_of_getElem? _ hs, Pool.blockAt_of_getElem? _ hs',
              hlike.block_eq _ hkey (hreg₁.shows hf₁ hopen)]
          · rw [hslot] at hslot'
            cases hslot'

/-- Bytes that are copied into one block agree in both caches unless the file is secret. -/
theorem copyChunk (hreg : c.Regular) {handle : Handle} {f : OpenFile φ}
    (hf : c.table.get? handle = some f) {data data' : ByteArray} {chunk : Chunk}
    (hdata : d.path f.file ≠ secret → data = data')
    (hstart : chunk.start + chunk.length ≤ blockSize)
    (hposition : chunk.position + chunk.length ≤ data.size) :
    Agree d Eq (Cache.copyIn f data [chunk]) (Cache.copyIn f data' [chunk]) c c' := by
  have hbytes : d.Shows c.table f.descriptor →
      Bytes.slice data chunk.position chunk.length =
        Bytes.slice data' chunk.position chunk.length := by
    intro hshown
    rw [hdata (hshown handle f hf rfl)]
  rcases h.findOrRoom hreg hf ⟨f.descriptor, chunk.block⟩ with
    ⟨i, s, c₁, c₁', hfind, hfind', h₁, htable, hs, hkey⟩ |
      ⟨i, s, c₁, c₁', c₂, c₂', hfind, hfind', hroom, hroom', h₂, htable, hs, hfree⟩
  · refine .bind_of_eq (slotToWrite_of_found hfind _) (slotToWrite_of_found hfind' _)
      (Agree.bind (h₁.onPool (Q := Eq) rfl (h₁.pool.write i _ fun t key ht hk hshown => ?_)
        h₁.storage) fun _ _ _ h₂ => .pure rfl h₂)
    rw [Option.some.inj (ht.symm.trans hs), hkey] at hk
    obtain rfl := Option.some.inj hk
    exact hbytes (htable ▸ hshown)
  · rw [← htable] at hbytes
    by_cases hwhole : chunk.length = blockSize
    · have hzero : chunk.start = 0 := by omega
      have hsize : (Bytes.slice data chunk.position chunk.length).size = blockSize := by
        rw [Bytes.size_slice]
        omega
      simp only [Cache.copyIn, decide_eq_true hwhole, hzero]
      refine .bind_of_eq (slotToWrite_of_whole hfind hroom) (slotToWrite_of_whole hfind' hroom')
        (.bind_of_eq rfl rfl (.pure rfl { h₂ with pool := ?_ }))
      exact h₂.pool.assign_write i hsize hbytes
    · obtain ⟨hfailure, hpool, hstorage⟩ := h₂.pool.fillOrZero
        (readsAlike (htable.symm ▸ hf) chunk.block) h₂.storage i
      rcases hfill : c₂.pool.fillOrZero i ⟨f.descriptor, chunk.block⟩
        (fetchBlock f.file ⟨f.descriptor, chunk.block⟩) c₂.storage with ⟨⟨failure, pool⟩, storage⟩
      rcases hfill' : c₂'.pool.fillOrZero i ⟨f.descriptor, chunk.block⟩
        (fetchBlock f.file ⟨f.descriptor, chunk.block⟩) c₂'.storage with
          ⟨⟨failure', pool'⟩, storage'⟩
      rw [hfill, hfill'] at hfailure hpool hstorage
      obtain rfl : failure = failure' := hfailure
      simp only [Cache.copyIn, decide_eq_false hwhole]
      refine .bind_of_eq (slotToWrite_of_part hfind hroom hfill)
        (slotToWrite_of_part hfind' hroom' hfill') (.bind_of_eq rfl rfl (.pure rfl ?_))
      have hwritten := Pool.Alike.write hpool i chunk.start fun t key ht hk hshown => by
        obtain rfl := Option.some.inj ((Pool.Alike.key_fillOrZero hfill ht).symm.trans hk)
        exact hbytes hshown
      exact ⟨hstorage, h₂.slotCount_eq, h₂.allocator_eq, hwritten, h₂.table_eq,
        congrArg (· ++ _) h₂.journal_eq⟩

theorem copyIn (hreg : c.Regular) {handle : Handle} {f : OpenFile φ}
    (hf : c.table.get? handle = some f) {data data' : ByteArray} {cs : List Chunk}
    (hdata : d.path f.file ≠ secret → data = data')
    (hfits : ∀ chunk ∈ cs, chunk.start + chunk.length ≤ blockSize ∧
      chunk.position + chunk.length ≤ data.size) :
    Agree d Eq (Cache.copyIn f data cs) (Cache.copyIn f data' cs) c c' := by
  induction cs generalizing c c' with
  | nil => exact .pure rfl h
  | cons chunk rest ih =>
      obtain ⟨hstart, hposition⟩ := hfits chunk List.mem_cons_self
      obtain ⟨-, h₁⟩ := h.copyChunk hreg hf hdata hstart hposition
      obtain ⟨new, c₀, new', hbefore, hstore⟩ := copyChunk_spec hreg hf hstart hposition
      have hsteps := hbefore.append (.single hstore)
      have htable := hsteps.table_eq (by simp [storeOf, Action.keepsTable])
      have hrest := ih h₁ (hsteps.regular hreg) ((congrArg (·.get? handle) htable).trans hf)
        fun ch hch => hfits ch (List.mem_cons_of_mem _ hch)
      unfold Agree
      rw [copyIn_cons, copyIn_cons]
      exact hrest

/-! ### Open files -/

/-- Work on the table leaves caches alike if it gives up no secret file. -/
theorem onTable {g g' : FileTable φ → FileTable φ} (hg : g c.table = g' c.table)
    (hshown : ∀ owner, d.Shows (g c.table) owner → d.Shows c.table owner) :
    Agree d Eq (Cache.onTable g) (Cache.onTable g') c c' :=
  ⟨rfl, {
    storage := h.storage
    slotCount_eq := h.slotCount_eq
    allocator_eq := h.allocator_eq
    pool := h.pool.imp fun _ _ => hshown _
    table_eq := by
      rw [onTable_apply, onTable_apply, ← h.table_eq, hg]
    journal_eq := h.journal_eq }⟩

/-- Changing an open file, but not which file it is, leaves caches alike. -/
theorem onTable_modify (handle : Handle) {g : OpenFile φ → OpenFile φ}
    (hg : ∀ f, c.table.get? handle = some f →
      (g f).file = f.file ∧ (g f).descriptor = f.descriptor) :
    Agree d Eq (Cache.onTable (·.modify handle g)) (Cache.onTable (·.modify handle g)) c c' := by
  refine h.onTable rfl fun owner hshown h' f hf hdescriptor => ?_
  by_cases hh : h' = handle
  · subst hh
    have hshown := hshown h' (g f) (c.table.get?_modify_self hf g)
    rw [(hg f hf).1, (hg f hf).2] at hshown
    exact hshown hdescriptor
  · refine hshown h' f ?_ hdescriptor
    rw [FileTable.get?_modify, if_neg (Ne.symm hh)]
    exact hf

/-- Reading delivers the same, unless the file is secret. -/
theorem read {n : Nat} (hreg : c.Regular) (handle : Handle) {buffer buffer' : Buffer n}
    (hbuffer : ¬ IsSecret d c handle → buffer = buffer') :
    Agree d (fun r r' => r.1 = r'.1 ∧ (¬ IsSecret d c handle → r.2 = r'.2))
      (Cache.read handle buffer) (Cache.read handle buffer') c c' := by
  refine .get ?_
  rw [← h.table_eq]
  cases hf : c.table.get? handle with
  | none =>
      rw [c.table.get_of_none hf]
      exact .pure ⟨rfl, hbuffer⟩ h
  | some f =>
      rw [not_isSecret_iff hf] at hbuffer
      rw [c.table.get_of_some hf, not_isSecret_iff hf]
      dsimp only
      split
      · exact .pure ⟨rfl, hbuffer⟩ h
      · refine (h.copyOut hreg hf _ hbuffer).bind ?_
        rintro ⟨outcome, read⟩ ⟨outcome', read'⟩ c₁ c₁' hcopy - ⟨houtcome, hread⟩ h₁
        obtain rfl : outcome = outcome' := houtcome
        cases outcome with
        | error e => exact .pure ⟨rfl, hread⟩ h₁
        | ok _ =>
            refine (h₁.onTable_modify handle ?_).bind fun _ _ _ h₂ => ?_
            · exact fun _ _ => ⟨rfl, rfl⟩
            · exact (h₂.report _).bind fun _ _ _ h₃ => .pure ⟨rfl, hread⟩ h₃

/-- Writing goes the same way, unless the file is secret. -/
theorem write (hreg : c.Regular) (handle : Handle) {data data' : ByteArray}
    (hsize : data.size = data'.size) (hdata : ¬ IsSecret d c handle → data = data') :
    Agree d Eq (Cache.write handle data) (Cache.write handle data') c c' := by
  refine .get ?_
  rw [← h.table_eq]
  cases hf : c.table.get? handle with
  | none =>
      rw [c.table.get_of_none hf]
      exact .pure rfl h
  | some f =>
      rw [not_isSecret_iff hf] at hdata
      rw [c.table.get_of_some hf]
      dsimp only
      have hstart : writeStart f =
          if f.flags.contains OpenFlags.append then f.size else f.cursor := rfl
      rw [← hsize, ← hstart]
      refine (h.onTable_modify handle ?_).bind ?_
      · exact fun _ _ => ⟨rfl, rfl⟩
      rintro _ _ c₁ c₁' hmoved - - h₁
      split
      · exact .pure rfl h₁
      · have hmove : Step c [.move handle] [] c₁ := by
          obtain ⟨-, rfl⟩ := Prod.mk.inj hmoved
          exact .move (·.moveTo (writeStart f)) hf rfl rfl rfl (Nat.le_refl _)
        have hf₁ : c₁.table.get? handle = some (f.moveTo (writeStart f)) := by
          obtain ⟨-, rfl⟩ := Prod.mk.inj hmoved
          exact c.table.get?_modify_self hf _
        have hfits : ∀ chunk ∈ chunks (writeStart f) data.size,
            chunk.start + chunk.length ≤ blockSize ∧
              chunk.position + chunk.length ≤ data.size := by
          intro chunk hchunk
          obtain ⟨hstart, -, hposition, -⟩ := mem_chunks hchunk
          exact ⟨hstart, hposition⟩
        have hcopy := h₁.copyIn (hmove.regular hreg) hf₁ hdata hfits
        unfold Agree at hcopy
        rw [copyIn_moveTo, copyIn_moveTo] at hcopy
        refine Agree.bind hcopy fun _ _ _ h₂ => ?_
        refine (h₂.onTable_modify handle ?_).bind fun _ _ _ h₃ => ?_
        · exact fun _ _ => ⟨rfl, rfl⟩
        · exact (h₃.report _).bind fun _ _ _ h₄ => .pure rfl h₄

theorem seek (handle : Handle) (target : SeekTarget) :
    Agree d Eq (Cache.seek handle target) (Cache.seek handle target) c c' := by
  have hfile : ∀ f, c.table.get? handle = f → c'.table.get? handle = f := fun f hf => by
    rw [← h.table_eq, hf]
  unfold Agree
  cases hf : c.table.get? handle with
  | none =>
      rw [seek_of_none hf, seek_of_none (hfile _ hf)]
      exact ⟨rfl, h⟩
  | some f =>
      cases hseek : f.seek target with
      | error e =>
          rw [seek_of_error hf hseek, seek_of_error (hfile _ hf) hseek]
          exact ⟨rfl, h⟩
      | ok f' =>
          rw [seek_of_ok hf hseek, seek_of_ok (hfile _ hf) hseek]
          have hmoved := eq_moveTo_of_seek hseek
          refine ⟨rfl, (h.onTable_modify handle fun f₀ hf₀ => ?_).2⟩
          obtain rfl := Option.some.inj (hf.symm.trans hf₀)
          rw [hmoved]
          exact ⟨rfl, rfl⟩

/-! ### Syncing and closing -/

theorem trim (f : OpenFile φ) : Agree d Eq (Cache.trim f) (Cache.trim f) c c' := by
  refine (h.onStorage (d.setLen f.file f.size h.storage)).bind ?_
  rintro outcome _ c₁ c₁' - - rfl h₁
  cases outcome with
  | ok _ => exact .pure rfl h₁
  | error fault => exact h₁.report _

theorem sync (hreg : c.Regular) (handle : Handle) :
    Agree d Eq (Cache.sync handle) (Cache.sync handle) c c' := by
  refine .get ?_
  rw [← h.table_eq]
  cases hf : c.table.get? handle with
  | none =>
      rw [c.table.get_of_none hf]
      exact .pure rfl h
  | some f =>
      rw [c.table.get_of_some hf]
      obtain ⟨hflush, hpool, hstorage⟩ := h.pool.flush f.descriptor (fun key howner =>
        fun hblock hs => d.storeBlock key (fun hopen => hblock (howner ▸ hreg.shows hf hopen)) hs)
        h.storage
      refine (h.onPool hflush hpool hstorage).bind ?_
      rintro flush _ c₁ c₁' - - rfl h₁
      refine (h₁.report _).bind fun _ _ _ h₂ => ?_
      refine (h₂.onStorage (d.sync f.file h₂.storage)).bind ?_
      rintro outcome _ c₃ c₃' - - rfl h₃
      cases outcome with
      | error fault => exact .pure rfl h₃
      | ok _ => exact (h₃.trim f).bind fun _ _ _ h₄ => .pure rfl h₄

/-- A file is given up with its blocks, so that no bytes of a secret file are left in the pool when
it is not open any more. -/
theorem drop {handle : Handle} {f : OpenFile φ} (hf : c.table.get? handle = some f) :
    Alike d
      { c with table := c.table.remove handle, pool := (c.pool.forget f.descriptor).2 }
      { c' with table := c'.table.remove handle, pool := (c'.pool.forget f.descriptor).2 } where
  storage := h.storage
  slotCount_eq := h.slotCount_eq
  allocator_eq := h.allocator_eq
  pool := by
    refine (h.pool.forget f.descriptor).2.imp fun {i s key} hs hkey hshown => ?_
    intro h' f' hf' hdescriptor
    by_cases hh : handle = h'
    · subst hh
      obtain rfl := Option.some.inj (hf.symm.trans hf')
      rw [Pool.slots_forget, Array.getElem?_map] at hs
      obtain ⟨s₀, -, rfl⟩ := Option.map_eq_some_iff.mp hs
      split at hkey
      · cases hkey
      · rename_i howned
        exact absurd ((s₀.ownedBy_iff _).mpr ⟨key, hkey, hdescriptor.symm⟩) howned
    · refine hshown h' f' ?_ hdescriptor
      rw [FileTable.get?_remove, if_neg hh]
      exact hf'
  table_eq := congrArg (·.remove handle) h.table_eq
  journal_eq := h.journal_eq

theorem close (hreg : c.Regular) (handle : Handle) :
    Agree d Eq (Cache.close handle) (Cache.close handle) c c' := by
  refine .get ?_
  rw [← h.table_eq]
  cases hf : c.table.get? handle with
  | none =>
      rw [c.table.get_of_none hf]
      exact .pure rfl h
  | some f =>
      rw [c.table.get_of_some hf]
      refine (h.sync hreg handle).bind ?_
      rintro synced _ c₁ c₁' hsync - rfl h₁
      have hf₁ : c₁.table.get? handle = some f := by
        obtain ⟨-, -, -, -, htable⟩ := sync_steps c handle
        rw [hsync] at htable
        exact htable ▸ hf
      have hdrop : ∀ {c₂ c₂' : Cache σ φ}, Alike d c₂ c₂' → c₂.table.get? handle = some f →
          Agree d Eq
            (do
              Cache.onTable (·.remove handle)
              let forgotten ← Cache.onPool fun pool => pure (pool.forget f.descriptor)
              Cache.report [.closed handle.index f.descriptor forgotten]
              Cache.onStorage (Storage.close f.file)
              pure synced)
            (do
              Cache.onTable (·.remove handle)
              let forgotten ← Cache.onPool fun pool => pure (pool.forget f.descriptor)
              Cache.report [.closed handle.index f.descriptor forgotten]
              Cache.onStorage (Storage.close f.file)
              pure synced) c₂ c₂' := by
        intro c₂ c₂' h₂ hf₂
        have hforget := (h₂.pool.forget f.descriptor).1
        refine .bind_of_eq rfl rfl (Agree.bind (Q := Eq) ⟨hforget, h₂.drop hf₂⟩ ?_)
        rintro forgotten _ c₃ c₃' - - rfl h₃
        refine (h₃.report _).bind fun _ _ _ h₄ => ?_
        exact (h₄.onStorage ⟨rfl, d.close f.file h₄.storage⟩).bind fun _ _ _ h₅ => .pure rfl h₅
      cases synced with
      | ok _ => exact hdrop h₁ hf₁
      | error e => exact (h₁.report _).bind fun hr _ _ h₂ => hdrop h₂ (by
          obtain ⟨-, rfl⟩ := Prod.mk.inj hr
          exact hf₁)

/-! ### Opening -/

theorem allocate : Agree d Eq Cache.allocate Cache.allocate c c' := by
  have hallocated : c.isAllocated = c'.isAllocated := by
    rw [isAllocated, isAllocated, h.pool.capacity_eq]
  refine .get ?_
  rw [← hallocated, ← h.slotCount_eq, ← h.allocator_eq]
  split
  · exact .pure rfl h
  · cases Pool.create c.slotCount Scan.mk c.allocator with
    | ok pool =>
        refine (h.onPool (Q := Eq) rfl (Pool.alike_refl pool) h.storage).bind fun _ _ _ h₁ => ?_
        exact (h₁.report _).bind fun _ _ _ h₂ => .pure rfl h₂
    | error e => exact (h.report _).bind fun _ _ _ h₁ => .pure rfl h₁

theorem bindFile (path : String) (flags : OpenFlags) (file : φ) :
    Agree d Eq (Cache.bindFile path flags file) (Cache.bindFile path flags file) c c' := by
  refine (h.onStorage (d.size file h.storage)).bind ?_
  rintro outcome _ c₁ c₁' - - rfl h₁
  cases outcome with
  | error fault =>
      exact (h₁.onStorage ⟨rfl, d.close file h₁.storage⟩).bind fun _ _ _ h₂ => .pure rfl h₂
  | ok size =>
      refine .get ?_
      rw [← h₁.table_eq]
      cases hplace : c₁.table.lowestFree with
      | none =>
          rw [FileTable.add, hplace]
          exact .pure rfl h₁
      | some i =>
          rw [c₁.table.add_of_lowestFree hplace]
          refine (h₁.onTable rfl fun owner hshown h' f hf => hshown h' f ?_).bind
            fun _ _ _ h₂ => (h₂.report _).bind fun _ _ _ h₃ => .pure rfl h₃
          rw [c₁.table.get?_of_add hplace, if_neg]
          · exact hf
          · rintro rfl
            rw [c₁.table.get?_lowestFree hplace] at hf
            cases hf

theorem openFile (path : String) (flags : OpenFlags) (mode : Nat) :
    Agree d Eq (Cache.openFile path flags mode) (Cache.openFile path flags mode) c c' := by
  refine h.allocate.bind ?_
  rintro outcome _ c₁ c₁' - - rfl h₁
  cases outcome with
  | error e => exact .pure rfl h₁
  | ok _ =>
      refine .get ?_
      rw [← h₁.table_eq]
      split
      · exact (h₁.report _).bind fun _ _ _ h₂ => .pure rfl h₂
      · obtain ⟨hopened, hnext, -⟩ := d.openFile path flags mode h₁.storage
        refine (h₁.onStorage ⟨hopened, hnext⟩).bind ?_
        rintro outcome _ c₂ c₂' - - rfl h₂
        cases outcome with
        | error fault => exact .pure rfl h₂
        | ok file => exact h₂.bindFile path flags file

end Alike

end Cache

/-! ### Requests -/

namespace Request

/-- Whether two requests differ in bytes for a hidden file at most, and not in their number. -/
inductive Alike (hidden : Handle → Prop) : Request → Request → Prop where
  | same (request : Request) : Alike hidden request request
  | read {h : Handle} {buffer buffer' : ByteArray} (hhidden : hidden h)
      (hsize : buffer.size = buffer'.size) : Alike hidden (.read h buffer) (.read h buffer')
  | write {h : Handle} {data data' : ByteArray} (hhidden : hidden h)
      (hsize : data.size = data'.size) : Alike hidden (.write h data) (.write h data')

theorem Alike.handle?_eq {hidden : Handle → Prop} {request request' : Request}
    (h : Alike hidden request request') : request.handle? = request'.handle? := by
  cases h <;> rfl

end Request

namespace Cache

variable {σ φ : Type} [Storage σ φ] {secret : Path} {d : Oblivious σ φ secret} {c c' : Cache σ φ}

instance decIsSecret (d : Oblivious σ φ secret) (c : Cache σ φ) (h : Handle) :
    Decidable (IsSecret d c h) :=
  match hf : c.table.get? h with
  | none => isFalse (not_isSecret_of_none hf)
  | some _ => decidable_of_iff _ (not_congr (not_isSecret_iff hf).symm |>.trans not_not)

/-- Whether a request is about a handle that has the secret file. -/
def isHidden (d : Oblivious σ φ secret) (c : Cache σ φ) (request : Request) : Bool :=
  request.handle?.any fun h => decide (IsSecret d c h)

theorem serve_read {n : Nat} (h : Handle) {buffer : ByteArray} (hsize : buffer.size = n) :
    (serve (.read h buffer) : StateM (Cache σ φ) Reply) =
      (fun result => .bytes result.1 result.2.bytes) <$> read h (⟨buffer, hsize⟩ : Buffer n) := by
  subst hsize
  rfl

/-- Requests that differ in bytes for the secret file alone are answered in the same way, as far as
they are not about that file. -/
theorem Alike.serve (h : Alike d c c') (hreg : c.Regular) {request request' : Request}
    (hrequest : Request.Alike (IsSecret d c) request request') :
    Agree d (fun reply reply' => isHidden d c request = false → reply = reply')
      (Cache.serve request) (Cache.serve request') c c' := by
  have hread : ∀ {handle : Handle} {buffer buffer' : ByteArray}, buffer.size = buffer'.size →
      (¬ IsSecret d c handle → buffer = buffer') →
      Agree d (fun reply reply' => isHidden d c (.read handle buffer) = false → reply = reply')
        (Cache.serve (.read handle buffer)) (Cache.serve (.read handle buffer')) c c' := by
    intro handle buffer buffer' hsize hbuffer
    rw [serve_read handle rfl, serve_read handle hsize.symm]
    have hbuffers : ¬ IsSecret d c handle →
        (⟨buffer, rfl⟩ : Buffer buffer.size) = ⟨buffer', hsize.symm⟩ := by
      intro hopen
      obtain rfl := hbuffer hopen
      rfl
    refine (h.read hreg handle hbuffers).map ?_
    rintro ⟨outcome, read⟩ ⟨outcome', read'⟩ ⟨houtcome, hread⟩ hshown
    have hopen : ¬ IsSecret d c handle := of_decide_eq_false hshown
    obtain rfl : outcome = outcome' := houtcome
    obtain rfl : read = read' := hread hopen
    rfl
  have hwrite : ∀ {handle : Handle} {data data' : ByteArray}, data.size = data'.size →
      (¬ IsSecret d c handle → data = data') →
      Agree d (fun reply reply' => isHidden d c (.write handle data) = false → reply = reply')
        (Cache.serve (.write handle data)) (Cache.serve (.write handle data')) c c' :=
    fun hsize hdata => (h.write hreg _ hsize hdata).map fun heq _ => congrArg _ heq
  cases hrequest with
  | read hhidden hsize => exact hread hsize fun hopen => absurd hhidden hopen
  | write hhidden hsize => exact hwrite hsize fun hopen => absurd hhidden hopen
  | same =>
      cases request with
      | openFile path flags mode =>
          exact (h.openFile path flags mode).map fun heq _ => congrArg _ heq
      | close handle => exact (h.close hreg handle).map fun heq _ => congrArg _ heq
      | sync handle => exact (h.sync hreg handle).map fun heq _ => congrArg _ heq
      | read handle buffer => exact hread rfl fun _ => rfl
      | write handle data => exact hwrite rfl fun _ => rfl
      | seek handle target => exact (h.seek handle target).map fun heq _ => congrArg _ heq
      | position | length | flags =>
          refine .get (.pure (fun _ => ?_) h)
          simp only [position, length, Cache.flags, h.table_eq]
      | isResident handle block =>
          refine .get (.pure (fun _ => ?_) h)
          rw [isResident, isResident, h.table_eq, funext fun f : OpenFile φ =>
            h.pool.holds_eq ⟨f.descriptor, block⟩]

/-! ### Sessions -/

/-- What there is to see of a request by whom the secret file is hidden from: the reply, unless the
request was about that file, and what is stored in the other files afterwards. -/
structure Glimpse where
  reply : Option Reply
  stored : Path → ByteArray

/-- What there is to see of a request that is served. -/
def glimpse (d : Oblivious σ φ secret) (c : Cache σ φ) (request : Request) : Glimpse where
  reply := if isHidden d c request then none else some (serve request c).1
  stored p := if p = secret then ByteArray.empty else d.content (serve request c).2.storage p

def seen (d : Oblivious σ φ secret) : List Request → Cache σ φ → List Glimpse
  | [], _ => []
  | request :: rest, c => glimpse d c request :: seen d rest (serve request c).2

/-- Whether two lists of requests differ in bytes for the secret file at most. -/
def AlikeRequests (d : Oblivious σ φ secret) : List Request → List Request → Cache σ φ → Prop
  | [], [], _ => True
  | request :: rest, request' :: rest', c =>
      Request.Alike (IsSecret d c) request request' ∧ AlikeRequests d rest rest' (serve request c).2
  | _, _, _ => False

theorem Alike.isHidden_eq (h : Alike d c c') {request request' : Request}
    (hrequest : Request.Alike (IsSecret d c) request request') :
    isHidden d c request = isHidden d c' request' := by
  have hsecret : ∀ handle, IsSecret d c handle ↔ IsSecret d c' handle := by
    intro handle
    rw [IsSecret, IsSecret, h.table_eq]
  unfold isHidden
  rw [hrequest.handle?_eq]
  exact congrArg (Option.any · _) (funext fun handle => decide_eq_decide.mpr (hsecret handle))

theorem Alike.glimpse_eq (h : Alike d c c') (hreg : c.Regular) {request request' : Request}
    (hrequest : Request.Alike (IsSecret d c) request request') :
    glimpse d c request = glimpse d c' request' := by
  obtain ⟨hreply, h₁⟩ := h.serve hreg hrequest
  rw [glimpse, glimpse, ← h.isHidden_eq hrequest]
  congr 1
  · split
    · rfl
    · rename_i hshown
      rw [hreply (Bool.eq_false_iff.mpr hshown)]
  · funext p
    split
    · rfl
    · rename_i hp
      exact d.content_eq h₁.storage p hp

theorem Alike.seen_eq {requests requests' : List Request} (h : Alike d c c') (hreg : c.Regular)
    (hfresh : AllFresh requests c) (hrequests : AlikeRequests d requests requests' c) :
    seen d requests c = seen d requests' c' := by
  induction requests generalizing requests' c c' with
  | nil =>
      cases requests' with
      | nil => rfl
      | cons => exact absurd hrequests id
  | cons request rest ih =>
      cases requests' with
      | nil => exact absurd hrequests id
      | cons request' rest' =>
          obtain ⟨hrequest, hrest⟩ := hrequests
          obtain ⟨as, new, hsteps, -⟩ := serve_steps hreg request hfresh.1
          rw [seen, seen, h.glimpse_eq hreg hrequest,
            ih (h.serve hreg hrequest).2 (hsteps.regular hreg) hfresh.2 hrest]

/-- Two sessions that differ in the bytes of the secret file alone, stored or written, look the same
to whom that file is hidden from. No byte of it gets into another file or into a buffer that another
file is read into, whatever calls of the storage fail and however often slots change their file. -/
theorem seen_session {storage storage' : σ} (hstorage : d.Alike storage storage')
    (slotCount : Nat) (allocator : Allocator)
    {requests requests' : List Request}
    (hfresh : AllFresh requests (Cache.new storage slotCount allocator : Cache σ φ))
    (hrequests : AlikeRequests d requests requests' (Cache.new storage slotCount allocator)) :
    seen d requests (Cache.new storage slotCount allocator) =
      seen d requests' (Cache.new storage' slotCount allocator) := by
  refine Alike.seen_eq ⟨hstorage, rfl, rfl, ?_, rfl, rfl⟩ (regular_new _ _ _) hfresh hrequests
  exact Pool.alike_refl _

/-- A secret file "a" and a file "b", the first two reads of which fail. -/
def lodgings (secret : ByteArray) : Scripted Memory :=
  ⟨Memory.ofFiles
      ((Catalog.empty.insert (Path.ofString "a") secret).insert (Path.ofString "b") ⟨#[5, 6, 7]⟩),
    [{ operation := .read, descriptor := some 4, uses := some 2, fault := some Memory.failure }]⟩

/-- The file "b" gets the slot of the file "a", and is changed in part before it was read in. -/
def lodge (secret : ByteArray) : List Request :=
  [.openFile "a" OpenFlags.readOnly 0, .openFile "b" OpenFlags.readOnly 0, .write ⟨0⟩ secret,
    .read ⟨1⟩ ⟨#[0, 0]⟩, .write ⟨1⟩ ⟨#[9]⟩, .read ⟨1⟩ ⟨#[0, 0]⟩, .sync ⟨1⟩]

theorem seen_session_lodge :
    let d := Scripted.oblivious (Memory.oblivious (Path.ofString "a"))
    let first : Cache (Scripted Memory) Memory.File := Cache.new (lodgings ⟨#[1, 1, 1]⟩) 1
    seen d (lodge ⟨#[1, 2]⟩) first =
        seen d (lodge ⟨#[3, 4]⟩) (Cache.new (lodgings ⟨#[5, 5, 5]⟩) 1) ∧
      (seen d (lodge ⟨#[1, 2]⟩) first).map (·.reply.isSome) =
        [true, true, false, true, true, true, true] := by
  intro d first
  have hfiles : Memory.Alike (Path.ofString "a") (lodgings ⟨#[1, 1, 1]⟩).inner
      (lodgings ⟨#[5, 5, 5]⟩).inner := by
    refine ⟨fun p => ?_, rfl, rfl⟩
    simp only [lodgings, Memory.ofFiles, Catalog.get?_insert, Catalog.get?_empty]
    split
    · exact .some ⟨rfl, fun _ => rfl⟩
    split
    · rename_i hp
      exact .some ⟨rfl, fun hopen => absurd hp.symm hopen⟩
    · exact .none
  have hstorage : d.Alike (lodgings ⟨#[1, 1, 1]⟩) (lodgings ⟨#[5, 5, 5]⟩) := by
    refine ⟨hfiles, rfl, fun rule hrule _ => ?_⟩
    obtain rfl := List.mem_singleton.mp hrule
    rfl
  have hfresh : AllFresh (lodge ⟨#[1, 2]⟩) first := by decide +kernel
  have hsecret : IsSecret d (serve (.openFile "b" OpenFlags.readOnly 0)
      (serve (.openFile "a" OpenFlags.readOnly 0) first).2).2 ⟨0⟩ := by decide +kernel
  refine ⟨seen_session hstorage 1 .addressable hfresh ?_, by decide +kernel⟩
  exact ⟨.same _, .same _, .write hsecret rfl, .same _, .same _, .same _, .same _, trivial⟩

end Cache

end BlockCache
