import BlockCache.Proofs.Allocation
import BlockCache.Proofs.Chunks
import BlockCache.Proofs.Reachable
import BlockCache.Proofs.Seeking

/-!
How far cursors, sizes and blocks reach. If no file is larger than a bound when it is opened, then
no cursor and no size ever exceeds it, and no block in the pool starts past it, as long as the bound
is no less than the largest offset. A bound that is less is exceeded by a seek or a write.
-/

namespace BlockCache

namespace Cache

variable {σ φ : Type} {bound : Nat} {c c' : Cache σ φ}

/-- No cursor, no size and no block of a cache is past a bound. -/
structure Within (bound : Nat) (c : Cache σ φ) : Prop where
  files : ∀ {h : Handle} {f : OpenFile φ}, c.table.get? h = some f →
    f.cursor ≤ bound ∧ f.size ≤ bound
  blocks : ∀ {i : Nat} {s : Slot} {key : BlockId}, c.pool.slots[i]? = some s →
    s.key = some key → key.offset ≤ bound

theorem within_new (bound : Nat) (storage : σ) (slotCount : Nat) (allocator : Allocator) :
    (Cache.new storage slotCount allocator : Cache σ φ).Within bound where
  files hf := absurd hf (get?_new storage slotCount allocator)
  blocks hs := by simp [Cache.new, Pool.unallocated] at hs

namespace Within

/-- What lets no block into a slot and moves no file past the bound keeps everything within it. -/
theorem of_fewer (hw : c.Within bound)
    (hfiles : ∀ {h : Handle} {f : OpenFile φ}, c'.table.get? h = some f →
      f.cursor ≤ bound ∧ f.size ≤ bound)
    (hslots : ∀ {i : Nat} {s : Slot} {key : BlockId}, c'.pool.slots[i]? = some s →
      s.key = some key → ∃ (j : Nat) (t : Slot), c.pool.slots[j]? = some t ∧ t.key = some key) :
    c'.Within bound where
  files := hfiles
  blocks hs hkey := by
    obtain ⟨j, t, ht, hkey'⟩ := hslots hs hkey
    exact hw.blocks ht hkey'

/-- A file may be moved up to the bound. -/
theorem of_modify (hw : c.Within bound) {h : Handle} {g : OpenFile φ → OpenFile φ}
    (hg : ∀ f, c.table.get? h = some f → (g f).cursor ≤ bound ∧ (g f).size ≤ bound)
    (journal : Array Event) :
    ({ c with table := c.table.modify h g, journal } : Cache σ φ).Within bound := by
  refine hw.of_fewer (fun {h' f'} hf' => ?_) fun hs hkey => ⟨_, _, hs, hkey⟩
  rcases c.table.get?_modify_cases hf' with ⟨f, hf, rfl, rfl⟩ | ⟨-, hf⟩
  · exact hg f hf
  · exact hw.files hf

theorem write (hw : c.Within bound) (i start : Nat) (bytes : ByteArray) :
    ({ c with pool := c.pool.write i start bytes } : Cache σ φ).Within bound := by
  refine hw.of_fewer hw.files fun {j s key} hs hkey => ?_
  rcases Pool.getElem?_modify_cases hs with ⟨t, ht, rfl, rfl⟩ | ⟨-, ht⟩
  · exact ⟨_, t, ht, hkey⟩
  · exact ⟨_, s, ht, hkey⟩

end Within

variable [Storage σ φ] {h : Handle} {f : OpenFile φ}

/-! ### Transfers -/

theorem Access.within {file : φ} {touch : Touch} {how : How} {i : Nat}
    (haccess : Access file touch c how i c') (hw : c.Within bound)
    (hkey : touch.key.offset ≤ bound) : c'.Within bound where
  files hf := hw.files (haccess.table_eq ▸ hf)
  blocks ht hkey' := by
    rcases haccess.kept ht hkey' with ⟨-, rfl⟩ | ⟨s, hs, hkey''⟩
    · exact hkey
    · exact hw.blocks hs hkey''

/-- Copying out the blocks up to the bound keeps everything within it. -/
theorem copyOut_within {n : Nat} (hc : c.Housed) (hw : c.Within bound)
    (hf : c.table.get? h = some f) {cs : List Chunk}
    (hcs : ∀ chunk ∈ cs, chunk.block * blockSize ≤ bound) (buffer : Buffer n) :
    (copyOut f cs buffer c).2.Within bound := by
  induction cs generalizing c buffer with
  | nil => exact hw
  | cons chunk rest ih =>
      obtain ⟨hchunk, hrest⟩ := List.forall_mem_cons.mp hcs
      obtain ⟨how, i, c₁, haccess, ⟨hslot, -⟩ | ⟨fault, hslot, -⟩⟩ :=
        slotToRead_access hc (hc.capacity_pos hf) f chunk.block
      · rw [copyOut_of_ok chunk hslot]
        exact ih (haccess.housed hc hf rfl) (haccess.within hw hchunk)
          (haccess.table_eq ▸ hf) hrest _
      · rw [copyOut_of_error chunk hslot]
        exact haccess.within hw hchunk

/-- Copying in likewise. -/
theorem copyIn_within {f' : OpenFile φ} (hc : c.Housed) (hw : c.Within bound)
    (hf : c.table.get? h = some f') (howner : f'.descriptor = f.descriptor) {cs : List Chunk}
    (hcs : ∀ chunk ∈ cs, chunk.block * blockSize ≤ bound) (data : ByteArray) :
    (copyIn f data cs c).2.Within bound := by
  induction cs generalizing c with
  | nil => exact hw
  | cons chunk rest ih =>
      obtain ⟨hchunk, hrest⟩ := List.forall_mem_cons.mp hcs
      obtain ⟨how, i, c₁, haccess, hslot, -⟩ := slotToWrite_access hc (hc.capacity_pos hf) f
        chunk.block (chunk.length = blockSize)
      rw [copyIn_cons, copyIn_single hslot]
      exact ih ((haccess.housed hc hf howner).write _ _ _)
        ((haccess.within hw hchunk).write _ _ _)
        ((congrArg (·.get? h) haccess.table_eq).trans hf) hrest

omit [Storage σ φ] in
/-- The blocks of a range start before its end. -/
theorem block_le_of_mem_chunks {offset count : Nat} (hend : offset + count ≤ bound) {chunk : Chunk}
    (hmem : chunk ∈ chunks offset count) : chunk.block * blockSize ≤ bound := by
  have := mem_chunks hmem
  omega

/-! ### Requests -/

/-- A file that the request opens is no larger than a bound. -/
def OpensWithin (bound : Nat) (c : Cache σ φ) (request : Request) : Prop :=
  ∀ h f, (serve request c).1 = .opened (.ok h) → (serve request c).2.table.get? h = some f →
    f.size ≤ bound

theorem OpensWithin.mono {request : Request} (h : OpensWithin bound c request) {bound' : Nat}
    (hle : bound ≤ bound') : OpensWithin bound' c request :=
  fun h' f hok hf => Nat.le_trans (h h' f hok hf) hle

theorem Opening.within {path : String} {flags : OpenFlags} {mode : Nat}
    {outcome : Except Error Handle} (hopening : Opening path flags mode c outcome c')
    (hw : c.Within bound)
    (hopens : ∀ h f, outcome = .ok h → c'.table.get? h = some f → f.size ≤ bound) :
    c'.Within bound := by
  cases hopening with
  | unavailable => exact hw.of_fewer hw.files fun hs hkey => ⟨_, _, hs, hkey⟩
  | full hready | refused hready | abandoned hready =>
      exact hw.of_fewer (fun hf => hw.files (hready.table_eq ▸ hf))
        fun hs hkey => ⟨_, _, hready.kept hs hkey, hkey⟩
  | @bound c₁ i size file opened sized hready hplace hopen hsize =>
      rw [← hready.table_eq] at hplace
      refine hw.of_fewer (fun {h f} hf => ?_) fun hs hkey => ⟨_, _, hready.kept hs hkey, hkey⟩
      rcases c₁.table.get?_of_add_cases hplace hf with ⟨rfl, rfl⟩ | ⟨-, hf'⟩
      · exact ⟨Nat.zero_le _, hopens _ _ rfl hf⟩
      · exact hw.files (hready.table_eq ▸ hf')

theorem read_within {n : Nat} (hc : c.Housed) (hw : c.Within bound) (h : Handle)
    (buffer : Buffer n) : (read h buffer c).2.Within bound := by
  cases hf : c.table.get? h with
  | none =>
      rw [read_of_none hf]
      exact hw
  | some f =>
      by_cases hend : f.size ≤ f.cursor
      · rw [read_of_end hf hend]
        exact hw
      obtain ⟨-, hsize⟩ := hw.files hf
      have hrange : f.cursor + min n (f.size - f.cursor) ≤ bound := by omega
      have hcopied := copyOut_within hc hw hf
        (fun chunk (hmem : chunk ∈ readChunks f n) => block_le_of_mem_chunks hrange hmem) buffer
      rcases hcopy : copyOut f (readChunks f n) buffer c with ⟨⟨e | _, buffer'⟩, c₁⟩
      · rw [hcopy] at hcopied
        rw [read_of_error hf (Nat.not_le.mp hend) (by rw [hcopy]), hcopy]
        exact hcopied
      · have htable := table_copyOut f (readChunks f n) buffer c
        rw [hcopy] at hcopied htable
        rw [read_of_ok hf (Nat.not_le.mp hend) hcopy]
        refine hcopied.of_modify (fun f' hf' => ?_) _
        obtain rfl := Option.some.inj (hf.symm.trans (htable ▸ hf'))
        exact ⟨hrange, hsize⟩

omit [Storage σ φ] in
/-- The cursor of a file may be moved to where its next write starts. -/
theorem Within.moved (hw : c.Within bound) (hf : c.table.get? h = some f) :
    ({ c with table := c.table.modify h (·.moveTo (writeStart f)) } : Cache σ φ).Within bound := by
  obtain ⟨hcursor, hsize⟩ := hw.files hf
  refine hw.of_modify (fun f' hf' => ?_) c.journal
  obtain rfl := Option.some.inj (hf.symm.trans hf')
  refine ⟨?_, hsize⟩
  show writeStart f ≤ bound
  rw [writeStart]
  split <;> assumption

theorem Housed.moved (hc : c.Housed) (h : Handle) (cursor : Nat) :
    ({ c with table := c.table.modify h (·.moveTo cursor) } : Cache σ φ).Housed :=
  have hsame : SameFiles c.table (c.table.modify h (·.moveTo cursor)) :=
    sameFiles_of_modify c.table fun _ _ => ⟨rfl, rfl⟩
  hc.of_table hsame c.journal

theorem write_within (hbound : maxOffset ≤ bound) (hc : c.Housed) (hw : c.Within bound)
    (h : Handle) (data : ByteArray) : (write h data c).2.Within bound := by
  cases hf : c.table.get? h with
  | none =>
      rw [write_of_none hf]
      exact hw
  | some f =>
      have hf' := c.table.get?_modify_self hf (·.moveTo (writeStart f))
      by_cases hfar : maxOffset < writeStart f + data.size
      · rw [write_of_far hf hfar]
        exact hw.moved hf
      have hnear := Nat.not_lt.mp hfar
      have hend : writeStart f + data.size ≤ bound := Nat.le_trans hnear hbound
      have hcopied := copyIn_within (hc.moved h (writeStart f)) (hw.moved hf) hf' (f := f) rfl
        (fun chunk hmem => block_le_of_mem_chunks hend hmem) data
      have htable := table_copyIn f data (chunks (writeStart f) data.size)
        { c with table := c.table.modify h (·.moveTo (writeStart f)) }
      rcases hcopy : copyIn f data (chunks (writeStart f) data.size)
        { c with table := c.table.modify h (·.moveTo (writeStart f)) } with ⟨_, c₁⟩
      rw [hcopy] at hcopied htable
      rw [write_of_near hf hnear hcopy]
      refine hcopied.of_modify (fun f₁ hf₁ => ?_) _
      obtain rfl := Option.some.inj (hf'.symm.trans (htable ▸ hf₁))
      exact ⟨hend, Nat.max_le.mpr ⟨(hw.files hf).2, hend⟩⟩

theorem sync_within (hw : c.Within bound) (h : Handle) : (sync h c).2.Within bound := by
  obtain ⟨-, -, -, -, htable⟩ := sync_steps_trim c h
  refine hw.of_fewer (fun hf => hw.files (htable ▸ hf)) fun {i s key} hs hkey => ?_
  cases hf : c.table.get? h with
  | none =>
      rw [sync_of_none hf] at hs
      exact ⟨i, s, hs, hkey⟩
  | some f =>
      obtain ⟨t, ht, hkey', -⟩ := slot_of_sync hf hs
      exact ⟨i, t, ht, hkey'.trans hkey⟩

/-- Every request keeps everything within a bound that is no less than the largest offset. -/
theorem serve_within (hbound : maxOffset ≤ bound) (hc : c.Housed) (hw : c.Within bound)
    {request : Request} (hopens : OpensWithin bound c request) :
    (serve request c).2.Within bound := by
  cases request with
  | openFile path flags mode =>
      exact (openFile_opening path flags mode c).within hw
        fun h f hok => hopens h f (congrArg Reply.opened hok)
  | close h =>
      show (close h c).2.Within bound
      cases hf : c.table.get? h with
      | none =>
          rw [close_of_none hf]
          exact hw
      | some f =>
          obtain ⟨-, -, -, htable⟩ := close_of_some hf
          exact hw.of_fewer (fun hf' => hw.files (c.table.get?_of_remove (htable ▸ hf')).2)
            fun hs hkey => ⟨_, _, (slot_of_close hf hs hkey).1, hkey⟩
  | sync h => exact sync_within hw h
  | read h buffer => exact read_within hc hw h (Buffer.ofBytes buffer)
  | write h data => exact write_within hbound hc hw h data
  | seek h target =>
      show (seek h target c).2.Within bound
      cases hf : c.table.get? h with
      | none =>
          rw [seek_of_none hf]
          exact hw
      | some f =>
          cases hseek : f.seek target with
          | error e =>
              rw [seek_of_error hf hseek]
              exact hw
          | ok f' =>
              rw [seek_of_ok hf hseek]
              refine hw.of_modify (fun _ _ => ⟨?_, ?_⟩) c.journal
              · exact Nat.le_trans (OpenFile.cursor_le_of_seek hseek) hbound
              · rw [eq_moveTo_of_seek hseek]
                exact (hw.files hf).2
  | position | length | flags | isResident => exact hw

theorem Reachable.within {admits : Cache σ φ → Request → Prop} {storage : σ} {slotCount : Nat}
    {allocator : Allocator}
    (hreach : Reachable admits (Cache.new storage slotCount allocator) c)
    (hbound : maxOffset ≤ bound)
    (hopens : ∀ c request, admits c request → OpensWithin bound c request) : c.Within bound := by
  induction hreach with
  | first => exact within_new bound storage slotCount allocator
  | serve request hreach hadmits ih =>
      exact serve_within hbound hreach.housed ih (hopens _ _ hadmits)

end Cache

end BlockCache
