import BlockCache.Proofs.Causes
import BlockCache.Proofs.Mending
import BlockCache.Proofs.Visits

/-!
Reads that fail, and that are made again. A read that fails at a block has copied what comes before
that block, and has moved no cursor. What it did to the pool is what any read may do: if the blocks
that it put out of their slots were stored, nothing is lost, and the read delivers when it is made
again what it would have delivered.
-/

namespace BlockCache

namespace Cache

variable {σ φ : Type} [Storage σ φ] {f : OpenFile φ} {h : Handle}

/-! ### Where copying out stops -/

section Stopping

variable {c c' c₁ : Cache σ φ}

theorem copyOut_append {n : Nat} {cs : List Chunk} {buffer buffer₁ : Buffer n}
    (hcopy : copyOut f cs buffer c = ((.ok (), buffer₁), c₁)) (more : List Chunk) :
    copyOut f (cs ++ more) buffer c = copyOut f more buffer₁ c₁ := by
  induction cs generalizing c buffer with
  | nil =>
      obtain ⟨hres, rfl⟩ := Prod.mk.inj hcopy
      obtain ⟨-, rfl⟩ := Prod.mk.inj hres
      rfl
  | cons chunk rest ih =>
      obtain ⟨i, c₂, hslot, hrest⟩ := copyOut_cons_ok hcopy
      rw [List.cons_append, copyOut_of_ok chunk hslot]
      exact ih hrest

/-- Where copying out stops: the chunks before a block were copied, and the block cannot be had. -/
structure Stopped {n : Nat} (f : OpenFile φ) (offset position done : Nat) (e : Error)
    (buffer buffer' : Buffer n) (c c₁ c' : Cache σ φ) : Prop where
  copied : copyOut f (chunksFrom offset position done) buffer c = ((.ok (), buffer'), c₁)
  refused : slotToRead f (blockOf (offset + done)) c₁ = (.error e, c')
  edge : done = 0 ∨ placeInBlock (offset + done) = 0

/-- Copying out fails at a block, after all chunks before it were copied. -/
theorem stopped_of_copyOut {n offset position count : Nat} {buffer buffer' : Buffer n} {e : Error}
    (hcopy : copyOut f (chunksFrom offset position count) buffer c = ((.error e, buffer'), c')) :
    ∃ done c₁, done < count ∧ Stopped f offset position done e buffer buffer' c c₁ c' := by
  induction offset, position, count using chunksFrom.induct generalizing c buffer with
  | case1 offset position =>
      rw [chunksFrom_zero] at hcopy
      cases (Prod.mk.inj (Prod.mk.inj hcopy).1).1
  | case2 offset position count hcount hpos ih =>
      rw [chunksFrom_of_pos (Nat.pos_of_ne_zero hcount)] at hcopy
      rcases hslot : slotToRead f (blockOf offset) c with ⟨e' | i, c₂⟩
      · rw [copyOut_of_error
          ⟨blockOf offset, placeInBlock offset, position, chunkLength offset count⟩ hslot] at hcopy
        obtain ⟨hres, rfl⟩ := Prod.mk.inj hcopy
        obtain ⟨he, rfl⟩ := Prod.mk.inj hres
        obtain rfl := Except.error.inj he
        refine ⟨0, c, Nat.pos_of_ne_zero hcount, ?_, hslot, Or.inl rfl⟩
        rw [chunksFrom_zero]
        rfl
      · rw [copyOut_of_ok
          ⟨blockOf offset, placeInBlock offset, position, chunkLength offset count⟩ hslot] at hcopy
        obtain ⟨done, c₁, hlt, hstop⟩ := ih hcopy
        -- a chunk comes after this one, so this one ends at the edge of its block
        have hfirst : chunkLength offset (chunkLength offset count + done) =
            chunkLength offset count := by
          simp only [chunkLength] at hlt ⊢
          omega
        refine ⟨chunkLength offset count + done, c₁, by omega, ?_, ?_, ?_⟩
        · rw [chunksFrom_of_pos (by omega), hfirst, Nat.add_sub_cancel_left, copyOut_of_ok
            ⟨blockOf offset, placeInBlock offset, position, chunkLength offset count⟩ hslot]
          exact hstop.copied
        · rw [← Nat.add_assoc]
          exact hstop.refused
        · right
          rw [← Nat.add_assoc]
          rcases hstop.edge with rfl | hedge
          · simp only [chunkLength, placeInBlock, blockSize] at hlt ⊢
            omega
          · exact hedge

/-- A read has copied all its chunks, or stops at a block. -/
theorem read_completes_or_stops {n : Nat} {buffer buffer' : Buffer n} {outcome : Except Error Nat}
    (hf : c.table.get? h = some f) (hread : read h buffer c = ((outcome, buffer'), c')) :
    (outcome = .ok (min n (f.size - f.cursor)) ∧ ∃ c₁,
      copyOut f (readChunks f n) buffer c = ((.ok (), buffer'), c₁) ∧ c'.storage = c₁.storage) ∨
      ∃ e done c₁, outcome = .error e ∧ done < min n (f.size - f.cursor) ∧
        Stopped f f.cursor 0 done e buffer buffer' c c₁ c' := by
  by_cases hend : f.size ≤ f.cursor
  · rw [read_of_end hf hend] at hread
    obtain ⟨hres, rfl⟩ := Prod.mk.inj hread
    obtain ⟨rfl, rfl⟩ := Prod.mk.inj hres
    rw [readChunks, Nat.sub_eq_zero_of_le hend, Nat.min_zero, chunks, chunksFrom_zero]
    exact Or.inl ⟨rfl, c, rfl, rfl⟩
  have hlt := Nat.not_le.mp hend
  rcases hcopy : copyOut f (readChunks f n) buffer c with ⟨⟨e | _, copied⟩, c₁⟩
  · rw [read_of_error hf hlt (by rw [hcopy]), hcopy] at hread
    obtain ⟨hres, rfl⟩ := Prod.mk.inj hread
    obtain ⟨rfl, rfl⟩ := Prod.mk.inj hres
    obtain ⟨done, c₂, hdone, hstop⟩ := stopped_of_copyOut hcopy
    exact Or.inr ⟨e, done, c₂, rfl, hdone, hstop⟩
  · rw [read_of_ok hf hlt hcopy] at hread
    obtain ⟨hres, rfl⟩ := Prod.mk.inj hread
    obtain ⟨rfl, rfl⟩ := Prod.mk.inj hres
    exact Or.inl ⟨rfl, c₁, rfl, rfl⟩

namespace Stopped

variable {n offset position done : Nat} {e : Error} {buffer buffer' : Buffer n}

/-- The block at which copying out stops is as far into the file as the bytes go that were
copied. -/
theorem done_eq (hstop : Stopped f offset position done e buffer buffer' c c₁ c') :
    done = blockOf (offset + done) * blockSize - offset := by
  have hplace := blockOf_mul_add_placeInBlock (offset + done)
  have hbound := placeInBlock_lt (offset + done)
  rcases hstop.edge with rfl | hedge <;> omega

/-- The rest of the buffer is left alone. -/
theorem rest_eq (hstop : Stopped f offset position done e buffer buffer' c c₁ c')
    (hfits : position + done ≤ n) {i : Nat} (hi : position + done ≤ i) :
    buffer'.byteAt i = buffer.byteAt i :=
  (byteAt_copyOut hfits hstop.copied).1 i (Or.inr hi)

/-- What was copied is what a read copies over a storage that mends the first one, if it comes to
its end there. -/
theorem byteAt_mended (hstop : Stopped f f.cursor 0 done e buffer buffer' c c₁ c')
    (hf : c.table.get? h = some f) (hdone : done < min n (f.size - f.cursor)) {t : σ}
    (hmends : Mends c.storage t) {count : Nat} {whole : Buffer n} {c₂ : Cache σ φ}
    (hread : read h buffer { c with storage := t } = ((.ok count, whole), c₂)) {i : Nat}
    (hi : i < done) : buffer'.byteAt i = whole.byteAt i := by
  obtain ⟨t', hdoneOver⟩ := copyOut_mended hmends hstop.copied
  rcases read_completes_or_stops (c := { c with storage := t }) hf hread with
    ⟨-, c₃, hcopy, -⟩ | ⟨_, _, _, herror, -⟩
  · -- the chunks that were copied come first, and the others leave their bytes alone
    have hedge := hstop.edge.resolve_left (Nat.ne_of_gt (Nat.zero_lt_of_lt hi))
    rw [readChunks, chunks, ← Nat.add_sub_of_le (Nat.le_of_lt hdone), chunksFrom_add hedge,
      copyOut_append hdoneOver] at hcopy
    exact ((byteAt_copyOut (by omega) hcopy).1 i (Or.inl (by omega))).symm
  · cases herror

end Stopped

end Stopping

variable {c c' c₁ : Cache (Traced σ φ) φ}

/-! ### The calls of a read that fails -/

/-- Copying out that comes to its end makes no read that fails. -/
theorem adds_copyOut {n : Nat} {cs : List Chunk} {buffer buffer' : Buffer n} (hc : c.Housed)
    (hf : c.table.get? h = some f) (hcopy : copyOut f cs buffer c = ((.ok (), buffer'), c')) :
    Traced.Adds (·.isFailedRead = false) c.storage c'.storage ∧ c'.Housed := by
  obtain ⟨parts, htransfer, ⟨-, -, hhad⟩ | ⟨fault, _, _, herror, -⟩⟩ :=
    copyOut_transfer hc hf cs buffer
  · rw [hcopy] at htransfer
    exact ⟨htransfer.adds_of_had hhad, htransfer.housed hc hf rfl⟩
  · rw [hcopy] at herror
    cases herror

/-- A block that cannot be had for reading is refused, and the last call was a read of it that
failed. -/
theorem slotToRead_refused (hc : c.Housed) (hf : c.table.get? h = some f) {block : Nat} {e : Error}
    (hslot : slotToRead f block c = (.error e, c')) :
    (∃ i, Access f.file ⟨⟨f.descriptor, block⟩, false⟩ c .refused i c') ∧
      ∃ fault calls, e = .storage fault ∧
        c'.storage.calls.toList = c.storage.calls.toList ++
          (calls ++ [.readAt f.file (block * blockSize) blockSize (.error fault)]) ∧
        ∀ call ∈ calls, call.isFailedRead = false := by
  rcases find_cases c ⟨f.descriptor, block⟩ with
    ⟨i, s, journal, hs, hkey, hfind⟩ | ⟨habsent, hfind⟩
  · rw [slotToRead_of_found hfind] at hslot
    cases (Prod.mk.inj hslot).1
  · obtain ⟨c₁, hmade, hroom⟩ := room_of_absent hc (hc.capacity_pos hf)
    rcases hread : Storage.readAt f.file (c₁.pool.blockAt c.pool.victim)
      (BlockId.offset ⟨f.descriptor, block⟩) c₁.storage with ⟨⟨fault | n, bytes⟩, storage⟩
    · have hfetch := fetchBlock_of_error hread
      rw [slotToRead_of_error hfind hmade (Pool.fill_of_error _ hfetch)] at hslot
      obtain ⟨he, rfl⟩ := Prod.mk.inj hslot
      obtain ⟨calls, hcalls, hfine⟩ := hroom.adds
      refine ⟨⟨_, .missed habsent hroom (.refused rfl hread)⟩, fault, calls,
        (Except.error.inj he).symm, ?_, hfine⟩
      rw [← List.append_assoc, ← hcalls]
      exact Traced.calls_readAt hread
    · rw [slotToRead_of_ok hfind hmade (Pool.fill_of_ok _ (fetchBlock_of_ok hread))] at hslot
      cases (Prod.mk.inj hslot).1

namespace Stopped

variable {n offset position done : Nat} {e : Error} {buffer buffer' : Buffer n}

theorem get?_table (hstop : Stopped f offset position done e buffer buffer' c c₁ c')
    (hf : c.table.get? h = some f) : c₁.table.get? h = some f := by
  have htable := table_copyOut f (chunksFrom offset position done) buffer c
  rw [hstop.copied] at htable
  rw [← hf, ← htable]

/-- The block that cannot be had is in no slot then, and no cursor was moved. -/
theorem leaves (hstop : Stopped f offset position done e buffer buffer' c c₁ c') (hc : c.Housed)
    (hf : c.table.get? h = some f) :
    c'.Housed ∧ c'.table = c.table ∧ c'.Absent ⟨f.descriptor, blockOf (offset + done)⟩ := by
  have htable := table_copyOut f (chunksFrom offset position done) buffer c
  rw [hstop.copied] at htable
  have hf₁ := hstop.get?_table hf
  have hhoused := (adds_copyOut hc hf hstop.copied).2
  obtain ⟨⟨i, haccess⟩, -⟩ := slotToRead_refused hhoused hf₁ hstop.refused
  exact ⟨haccess.housed hhoused hf₁ rfl, haccess.table_eq.trans htable, haccess.absent⟩

/-- The last call was a read of the block that cannot be had, and it is the only read that
failed. -/
theorem calls (hstop : Stopped f offset position done e buffer buffer' c c₁ c') (hc : c.Housed)
    (hf : c.table.get? h = some f) :
    ∃ fault room, e = .storage fault ∧
      c'.callsSince c = c₁.callsSince c ++ (room ++
        [.readAt f.file (blockOf (offset + done) * blockSize) blockSize (.error fault)]) ∧
      ∀ call ∈ c₁.callsSince c ++ room, call.isFailedRead = false := by
  obtain ⟨⟨before, hbefore, hfine⟩, hhoused⟩ := adds_copyOut hc hf hstop.copied
  obtain ⟨-, fault, room, he, hcalls, hfine'⟩ :=
    slotToRead_refused hhoused (hstop.get?_table hf) hstop.refused
  refine ⟨fault, room, he, ?_, ?_⟩
  · rw [callsSince_of_append hbefore]
    exact callsSince_of_append (by rw [hcalls, hbefore, List.append_assoc])
  · rw [callsSince_of_append hbefore, List.forall_mem_append]
    exact ⟨hfine, hfine'⟩

end Stopped

/-! ### What is lost -/

theorem preRead_not_mem_events {room : Pool.Room} {key : BlockId} {e : Error} :
    .preReadFailed key e ∉ room.events := by
  unfold Pool.Room.events
  split
  · exact List.not_mem_nil
  · split <;> simp

/-- What neither stores nor opens anything asks for no block of which a part is to be written. -/
theorem Step.preRead_none {c c' : Cache σ φ} {as : List Action} {new : List Event}
    (h : Step c as new c') (hkeep : ∀ a ∈ as, a.keepsBytes = true) {key : BlockId} {e : Error} :
    .preReadFailed key e ∉ new := by
  cases h with
  | report new hnote => exact fun hmem => nomatch hnote _ hmem
  | evictDirty _ _ _ _ hnew => exact hnew ▸ preRead_not_mem_events
  | allocate _ _ hnew | hit _ _ hnew | evictClean _ hnew | fillFailed _ _ _ _ _ hnew
    | trimFailed _ _ hnew | drop _ hnew => simp [hnew]
  | overwriteZeros | bind => exact absurd (hkeep _ List.mem_cons_self) Bool.false_ne_true
  | _ => exact List.not_mem_nil

theorem Steps.preRead_none {c c' : Cache σ φ} {as : List Action} {new : List Event}
    (h : Steps c as new c') (hkeep : ∀ a ∈ as, a.keepsBytes = true) {key : BlockId} {e : Error} :
    .preReadFailed key e ∉ new := by
  induction h with
  | nil => exact List.not_mem_nil
  | cons hstep _ ih =>
      rw [List.forall_mem_append] at hkeep
      rw [List.mem_append, not_or]
      exact ⟨hstep.preRead_none hkeep.1, ih hkeep.2⟩

/-- Steps that neither store nor open anything lose no block if no write fails in them. -/
theorem Settled.steps_kept {disk : Disk (Traced σ φ) φ} {image : Image}
    (hc : Settled disk image [] c) (hhoused : c.Housed) {as : List Action} {new : List Event}
    (h : Steps c as new c') (hkeep : ∀ a ∈ as, a.keepsBytes = true)
    (hfine : ∀ call ∈ c'.callsSince c, call.isFailedWrite = false) :
    lostAfter [] new = [] ∧ Settled disk image [] c' := by
  obtain ⟨-, calls, hcalls, hexplained⟩ := h.explained hhoused.named
  rw [callsSince_of_append hcalls] at hfine
  have hlost : lostAfter [] new = [] := by
    refine lostAfter_nil fun event hmem => ?_
    cases event with
    | evictionFailed key e =>
        obtain ⟨call, hcall, hbehind⟩ := hexplained _ hmem rfl
        exact absurd hbehind.isFailedWrite (Bool.eq_false_iff.mp (hfine call hcall))
    | preReadFailed => exact absurd hmem (h.preRead_none hkeep)
    | _ => rfl
  exact ⟨hlost, hlost ▸ hc.steps h hkeep⟩

/-! ### What is delivered -/

/-- What holds of the files holds over any storage with the same files. -/
theorem Settled.over {disk : Disk (Traced σ φ) φ} {image : Image} {lost : List BlockId}
    (hc : Settled disk image lost c) {t : Traced σ φ} (hs : disk.Sound t)
    (hsame : disk.content t = disk.content c.storage) :
    Settled disk image lost { c with storage := t } where
  regular := hc.regular.of_same rfl rfl rfl
  coupled := hc.coupled.of_slots rfl hs hsame (fun _ hkept => hkept) rfl
  blank := hc.blank

/-- Whether a read of `n` bytes delivers some bytes and leaves the rest of its buffer alone, over
any storage with the files as they are now, if no call of it fails. -/
def Delivers (disk : Disk σ φ) (c : Cache (Traced σ φ) φ) (h : Handle) (n count : Nat)
    (bytes : Nat → UInt8) : Prop :=
  ∀ (t : Traced σ φ) (buffer buffer' : Buffer n) (outcome : Except Error Nat)
    (c' : Cache (Traced σ φ) φ), disk.Sound t.inner →
    disk.content t.inner = disk.content c.storage.inner →
    read h buffer { c with storage := t } = ((outcome, buffer'), c') →
    (∀ call ∈ c'.callsSince { c with storage := t },
      call.isFailedRead = false ∧ call.isFailedWrite = false) →
    outcome = .ok count ∧ (∀ i < count, buffer'.byteAt i = bytes i) ∧
      ∀ i, count ≤ i → buffer'.byteAt i = buffer.byteAt i

/-- A read of which no call fails delivers the bytes of the image. -/
theorem Settled.delivers {disk : Disk σ φ} {image : Image} (hc : Settled disk.traced image [] c)
    (hhoused : c.Housed) (hf : c.table.get? h = some f) (n : Nat) :
    c.Delivers disk h n (min n (f.size - f.cursor)) fun i => image h (f.cursor + i) := by
  intro t buffer buffer' outcome c' hs hsame hread hfine
  have hc₀ : Settled disk.traced image [] { c with storage := t } := hc.over hs hsame
  have hhoused₀ : Cache.Housed { c with storage := t } :=
    hhoused.of_tenants (fun _ => rfl) rfl rfl fun hs => ⟨_, hs, rfl⟩
  obtain ⟨as, new, hsteps, hkeep, -, hdelivered⟩ := hc₀.read h buffer
  rw [hread] at hsteps hdelivered
  obtain ⟨hlost, -⟩ := hc₀.steps_kept hhoused₀ hsteps hkeep fun call hcall => (hfine call hcall).2
  have hok : outcome = .ok (min n (f.size - f.cursor)) := by
    rcases read_completes_or_stops (c := { c with storage := t }) hf hread with
      ⟨hok, -⟩ | ⟨e, done, c₁, -, -, hstop⟩
    · exact hok
    · obtain ⟨fault, room, -, hcalls, -⟩ := hstop.calls hhoused₀ hf
      have hlast := hfine (.readAt f.file (blockOf (f.cursor + done) * blockSize) blockSize
        (.error fault)) (by rw [hcalls]; simp)
      cases hlast.1
  obtain ⟨hbytes, hrest⟩ := hdelivered f _ hf hok
  rw [hlost] at hbytes
  exact ⟨hok, fun i hi => hbytes i hi List.not_mem_nil, hrest⟩

/-! ### Reading again -/

/-- What a read leaves that failed at block `b` of its file. -/
structure Restartable {n : Nat} (disk : Disk σ φ) (h : Handle) (f : OpenFile φ) (b : Nat)
    (buffer buffer' : Buffer n) (c c' : Cache (Traced σ φ) φ) : Prop where
  /-- No cursor, no size and no flags of any handle change. -/
  table_eq : c'.table = c.table
  absent : c'.isResident h b = .ok false
  /-- From the block on the buffer is as it was. -/
  rest : ∀ i, b * blockSize - f.cursor ≤ i → buffer'.byteAt i = buffer.byteAt i
  /-- Before the block it has what the read delivers when the storage does not fail to read. -/
  got : ∀ (t : Traced σ φ) (whole : Buffer n) (count : Nat) (c₂ : Cache (Traced σ φ) φ),
    Mends c.storage.inner t.inner →
    read h buffer { c with storage := t } = ((.ok count, whole), c₂) →
    ∀ i < b * blockSize - f.cursor, buffer'.byteAt i = whole.byteAt i
  /-- If all blocks were stored that were put out of their slots, a read delivers the same as it
  would have before. -/
  again : (∀ call ∈ c'.callsSince c, call.isFailedWrite = false) → ∃ count bytes,
    c.Delivers disk h n count bytes ∧ c'.Delivers disk h n count bytes ∧
      ∀ i < b * blockSize - f.cursor, buffer'.byteAt i = bytes i

/-- A read that stops over a settled cache can be made again. -/
theorem Stopped.restartable {disk : Disk σ φ} {image : Image} {n done : Nat} {e : Error}
    {buffer buffer' : Buffer n} (hstop : Stopped f f.cursor 0 done e buffer buffer' c c₁ c')
    (hset : Settled disk.traced image [] c) (hc : c.Housed) (hf : c.table.get? h = some f)
    (hdone : done < min n (f.size - f.cursor))
    (hread : read h buffer c = ((.error e, buffer'), c')) :
    Restartable disk h f (blockOf (f.cursor + done)) buffer buffer' c c' := by
  obtain ⟨hhoused, htable, habsent⟩ := hstop.leaves hc hf
  obtain ⟨fault, room, -, hcalls, -⟩ := hstop.calls hc hf
  have hf' : c'.table.get? h = some f := by rw [htable, hf]
  have hdone_eq := hstop.done_eq
  refine ⟨htable, ?_, fun i hi => ?_, fun t whole count c₂ hmends hwhole i hi => ?_,
    fun hstored => ⟨_, _, hset.delivers hc hf n, ?_, fun i hi => ?_⟩⟩
  · rw [isResident, c'.table.get_of_some hf']
    exact congrArg Except.ok (holds_eq_false_iff.mpr habsent)
  · exact hstop.rest_eq (by omega) (by omega)
  · exact hstop.byteAt_mended hf hdone hmends.traced hwhole (by omega)
  · obtain ⟨as, new, hsteps, hkeep⟩ := read_steps hset.regular h buffer
    rw [hread] at hsteps
    exact (hset.steps_kept hc hsteps hkeep hstored).2.delivers hhoused hf' n
  · -- what was copied is of the image, since nothing was lost until then
    obtain ⟨new, hsteps, -, hbytes⟩ :=
      copyOut_bytes (by omega) hset.regular hset.coupled hf hstop.copied
    have hfine : ∀ call ∈ c₁.callsSince c, call.isFailedWrite = false := fun call hcall =>
      hstored call (by rw [hcalls]; exact List.mem_append_left _ hcall)
    obtain ⟨hlost, -⟩ := hset.steps_kept hc hsteps (fun _ ha => absurd ha List.not_mem_nil) hfine
    have hbyte := hbytes i (by omega) (by rw [hlost]; exact List.not_mem_nil)
    rwa [Nat.zero_add] at hbyte

/-- In every state that a cache can reach, whatever failed on the way there: if the storage fails to
read a block that a read asks for, the read returns that failure, and can be made again. -/
theorem read_restartable {disk : Disk σ φ} (htears : disk.Tears) {storage : σ} {slotCount : Nat}
    {allocator : Allocator} (hs : disk.Sound storage)
    (hreach : Reachable (IsAdmitted disk.traced)
      (Cache.new (Traced.new storage) slotCount allocator) c)
    (hf : c.table.get? h = some f) {n : Nat} {buffer buffer' : Buffer n}
    {outcome : Except Error Nat} (hread : read h buffer c = ((outcome, buffer'), c')) {file : φ}
    {offset length : Nat} {fault : Fault}
    (hfailed : .readAt file offset length (.error fault) ∈ c'.callsSince c) :
    outcome = .error (.storage fault) ∧ ∃ b, file = f.file ∧ offset = b * blockSize ∧
      length = blockSize ∧ f.cursor / blockSize ≤ b ∧
      b * blockSize < f.cursor + min n (f.size - f.cursor) ∧
      Restartable disk h f b buffer buffer' c c' := by
  have hc := hreach.housed
  have hs' : disk.traced.Sound (Traced.new storage) := hs
  obtain ⟨image, hset⟩ := (hreach.firm htears.traced hs').settled
  rcases read_completes_or_stops hf hread with
    ⟨-, c₁, hcopy, hstorage⟩ | ⟨e, done, c₁, rfl, hdone, hstop⟩
  · obtain ⟨⟨calls, hcalls, hfine⟩, -⟩ := adds_copyOut hc hf hcopy
    rw [← hstorage] at hcalls
    rw [callsSince_of_append hcalls] at hfailed
    cases hfine _ hfailed
  · obtain ⟨fault', room, rfl, hcalls, hfine⟩ := hstop.calls hc hf
    have hrestart := hstop.restartable hset hc hf hdone hread
    rw [hcalls, ← List.append_assoc, List.mem_append] at hfailed
    rcases hfailed with hmem | hmem
    · cases hfine _ hmem
    · obtain ⟨rfl, rfl, rfl, hfault⟩ := Call.readAt.inj (List.mem_singleton.mp hmem)
      obtain rfl := Except.error.inj hfault
      have hplace := blockOf_mul_add_placeInBlock (f.cursor + done)
      refine ⟨rfl, _, rfl, rfl, rfl, ?_, by omega, hrestart⟩
      exact Nat.div_le_div_right (Nat.le_add_right _ _)

/-- A byte was written to each of two blocks over files in memory that cannot be read, in a cache of
one slot. The second block is stored, and the first one in the slot. -/
def halfRead : Cache (Traced Memory Memory.File) Memory.File :=
  (session
    [.seek ⟨0⟩ (.start blockSize), .write ⟨0⟩ ⟨#[2]⟩, .seek ⟨0⟩ (.start (blockSize - 1)),
      .write ⟨0⟩ ⟨#[1]⟩, .seek ⟨0⟩ (.start (blockSize - 1))]
    (serve (.openFile "a" OpenFlags.create 0) (Cache.new (Traced.new
      { Memory.ofFiles Catalog.empty with failing := ⟨true, false, false, false⟩ }) 1)).2).2

/-- The cache after both bytes were to be read: the first block was stored to make room, and the
second one could not be read. -/
def readHalf : Cache (Traced Memory Memory.File) Memory.File :=
  (read ⟨0⟩ (Buffer.zero 2) halfRead).2

/-- A cache over files in memory where reading does not fail any more. -/
def repaired (c : Cache (Traced Memory Memory.File) Memory.File) :
    Cache (Traced Memory Memory.File) Memory.File :=
  { c with storage := ⟨c.storage.inner.readable, #[]⟩ }

theorem read_restartable_halfRead :
    (read ⟨0⟩ (Buffer.zero 2) halfRead).1.1 = .error (.storage Memory.failure) ∧
      readHalf.isResident ⟨0⟩ 1 = .ok false ∧
      (read ⟨0⟩ (Buffer.zero 2) halfRead).1.2.byteAt 0 =
        (read ⟨0⟩ (Buffer.zero 2) halfRead.repaired).1.2.byteAt 0 ∧
      (read ⟨0⟩ (Buffer.zero 2) readHalf.repaired).1.1 = .ok 2 ∧
      ∀ i < 2, (read ⟨0⟩ (Buffer.zero 2) readHalf.repaired).1.2.byteAt i =
        (read ⟨0⟩ (Buffer.zero 2) halfRead.repaired).1.2.byteAt i := by
  have hreach : Reachable (IsAdmitted Memory.disk.traced) _ halfRead :=
    (Reachable.serve _ .first (isAdmitted_new _ _ _ _ _)).session_unopened (by simp)
  have hopen : (halfRead.table.get? ⟨0⟩).map (·.cursor) = some 4095 := by decide +kernel
  obtain ⟨f, hf, hcursor⟩ := Option.map_eq_some_iff.mp hopen
  -- the one read that was made has failed
  have hfailed : (readHalf.callsSince halfRead).any (·.isFailedRead) = true := by decide +kernel
  have hranges : (readHalf.callsSince halfRead).filterMap Call.range? =
      [(⟨Path.ofString "a", 3⟩, 4096, 4096)] := by decide +kernel
  obtain ⟨call, hmem, hcall⟩ := List.any_eq_true.mp hfailed
  obtain ⟨file, offset, length, fault, rfl⟩ : ∃ file offset length fault,
      call = .readAt file offset length (.error fault) := by
    cases call with
    | readAt file offset length result =>
        cases result with
        | ok => cases hcall
        | error fault => exact ⟨file, offset, length, fault, rfl⟩
    | _ => cases hcall
  have hrange := (List.mem_filterMap (f := Call.range?)).mpr ⟨_, hmem, rfl⟩
  rw [hranges, List.mem_singleton] at hrange
  obtain ⟨-, b, -, hoffset, -, -, -, hrestart⟩ :=
    read_restartable Memory.disk_tears trivial hreach hf rfl hmem
  have hblock : b = 1 := by
    have heq : b * 4096 = 4096 := hoffset.symm.trans (congrArg (·.2.1) hrange)
    omega
  subst hblock
  have hstored : (readHalf.callsSince halfRead).all (!·.isFailedWrite) = true := by decide +kernel
  have hfine : ∀ c ∈ [halfRead, readHalf], ((read ⟨0⟩ (Buffer.zero 2) c.repaired).2.callsSince
      c.repaired).all (fun call => !call.isFailedRead && !call.isFailedWrite) = true := by
    decide +kernel
  simp only [List.all_eq_true, Bool.and_eq_true, Bool.not_eq_true'] at hstored hfine
  obtain ⟨count, bytes, hbefore, hafter, -⟩ := hrestart.again hstored
  have hfirst := hbefore halfRead.repaired.storage (Buffer.zero 2) _ _ _ trivial rfl rfl
    (hfine halfRead (by simp))
  have hsecond := hafter readHalf.repaired.storage (Buffer.zero 2) _ _ _ trivial rfl rfl
    (hfine readHalf (by simp))
  have hdelivered : (read ⟨0⟩ (Buffer.zero 2) halfRead.repaired).1.1 = .ok 2 := by decide +kernel
  have hcount : count = 2 := Except.ok.inj (hfirst.1.symm.trans hdelivered)
  subst hcount
  refine ⟨by decide +kernel, hrestart.absent, ?_, hsecond.1, fun i hi =>
    (hsecond.2.1 i hi).trans (hfirst.2.1 i hi).symm⟩
  exact hrestart.got halfRead.repaired.storage _ 2 _ (Memory.mends_readable _)
    (Prod.ext (Prod.ext hdelivered rfl) rfl) 0 (by rw [hcursor]; decide)

end Cache

end BlockCache
