import BlockCache.Proofs.Visits

/-!
Transfers are split into blocks exactly. A transfer that succeeds looks up each block of its range
once, from the first to the last, and exchanges each of its bytes once, with the place in its file
that the byte belongs to. It asks the storage for the blocks that no slot holds when their turn
comes and, if it writes, only for those of which it leaves a part as it is.
-/

namespace BlockCache

namespace Cache

/-- The turns of a transfer cover the `n` bytes from `start` on exactly, and lead from one state to
another. -/
structure Splits {σ φ : Type} (f : OpenFile φ) (start n : Nat) (visits : List (Visit σ φ))
    (c c' : Cache σ φ) : Prop where
  /-- Each block of the range is looked up in one turn, in ascending order. -/
  blocks : visits.map (·.chunk.block) =
    List.range' (start / blockSize) ((start + n - 1) / blockSize - start / blockSize + 1)
  /-- There are no other look-ups. -/
  lookups : c'.pool.stats.accesses =
    c.pool.stats.accesses + ((start + n - 1) / blockSize - start / blockSize + 1)
  once : ∀ i < n, visits.countP (·.chunk.covers i) = 1
  place : ∀ v ∈ visits, ∀ i, v.chunk.covers i = true →
    i < n ∧ v.chunk.block = (start + i) / blockSize ∧
      v.chunk.start + (i - v.chunk.position) = (start + i) % blockSize
  /-- The bytes are exchanged with a slot that holds the block. -/
  holds : ∀ v ∈ visits, ∃ s, v.lodged.pool.slots[v.slot]? = some s ∧
    s.key = some ⟨f.descriptor, v.chunk.block⟩
  ends : ∀ v, visits.getLast? = some v → c'.pool = v.after.pool ∧ c'.storage = v.after.storage

/-- Whether a slot holds a block at the end of every turn. -/
def Stays {σ φ : Type} (visits : List (Visit σ φ)) (j : Nat) (key : BlockId) : Prop :=
  ∀ v ∈ visits, ∃ t, v.after.pool.slots[j]? = some t ∧ t.key = some key

/-- What a read of `n` bytes does in its turns: it copies each byte from its place, changes no byte
of a block that stays in its slot, and asks the storage for the blocks that were missed. -/
structure ReadSplits {σ φ : Type} {m : Nat} (f : OpenFile φ) (n : Nat)
    (visits : List (Visit (Traced σ φ) φ)) (buffer buffer' : Buffer m)
    (c c' : Cache (Traced σ φ) φ) : Prop extends Splits f f.cursor n visits c c' where
  copied : ∀ v ∈ visits, ∀ i, v.chunk.covers i = true →
    buffer'.byteAt i = (v.lodged.pool.blockAt v.slot).byteAt ((f.cursor + i) % blockSize)
  rest : ∀ i, n ≤ i → buffer'.byteAt i = buffer.byteAt i
  kept : ∀ {j : Nat} {s s' : Slot} {key : BlockId}, c.pool.slots[j]? = some s →
    s.key = some key → Stays visits j key → c'.pool.slots[j]? = some s' → s'.block = s.block
  asked : (c'.callsSince c).filterMap Call.range? = (visits.filter (isMiss f)).map (rangeOf f)

/-- What a write of `n` bytes from `start` on does in its turns: it copies each byte to its place,
changes no other byte of a block that stays in its slot, and asks the storage for the blocks that
were missed and are covered in part, which are no more than two. -/
structure WriteSplits {σ φ : Type} (f : OpenFile φ) (start n : Nat)
    (visits : List (Visit (Traced σ φ) φ)) (bytes : ByteArray) (c c' : Cache (Traced σ φ) φ) :
    Prop extends Splits f start n visits c c' where
  copied : ∀ v ∈ visits, ∀ i, v.chunk.covers i = true →
    (v.after.pool.blockAt v.slot).byteAt ((start + i) % blockSize) = Bytes.byteAt bytes i
  kept : ∀ {j : Nat} {s s' : Slot} {key : BlockId}, c.pool.slots[j]? = some s →
    s.key = some key → Stays visits j key → c'.pool.slots[j]? = some s' → ∀ p < blockSize,
      s'.block.byteAt p =
        if key.owner = f.descriptor ∧ start ≤ key.offset + p ∧ key.offset + p < start + n then
          Bytes.byteAt bytes (key.offset + p - start)
        else s.block.byteAt p
  asked : (c'.callsSince c).filterMap Call.range? =
    (visits.filter fun v => isMiss f v && v.chunk.length < blockSize).map (rangeOf f)
  asked_le : ((c'.callsSince c).filterMap Call.range?).length ≤ 2

/-- Of the chunks of a transfer no more than two are shorter than a block. -/
theorem length_partial_le {σ φ : Type} {f : OpenFile φ} {visits : List (Visit σ φ)} {start n : Nat}
    (hchunks : visits.map (·.chunk) = chunks start n) :
    (visits.filter fun v => isMiss f v && v.chunk.length < blockSize).length ≤ 2 := by
  calc (visits.filter fun v => isMiss f v && v.chunk.length < blockSize).length
      = visits.countP fun v => isMiss f v && v.chunk.length < blockSize :=
        List.countP_eq_length_filter.symm
    _ ≤ visits.countP (·.chunk.length < blockSize) :=
        List.countP_mono_left fun v _ hv => (Bool.and_eq_true_iff.mp hv).2
    _ = (chunks start n).countP (·.length < blockSize) := by
        rw [← hchunks, List.countP_map]
        rfl
    _ ≤ 2 := countP_partial_chunks start n

variable {σ φ : Type} [Storage σ φ] {h : Handle} {f : OpenFile φ} {data : Option ByteArray}

theorem Tour.splits {c c₁ c₂ c' : Cache σ φ} {visits : List (Visit σ φ)} {start n : Nat}
    (htour : Tour f data c₁ visits c₂) (hchunks : visits.map (·.chunk) = chunks start n)
    (hn : 0 < n) (hc : c₁.pool = c.pool) (hpool : c'.pool = c₂.pool)
    (hstorage : c'.storage = c₂.storage) : Splits f start n visits c c' := by
  have hblocks : visits.map (·.chunk.block) =
      List.range' (start / blockSize) ((start + n - 1) / blockSize - start / blockSize + 1) := by
    have hmap : (chunks start n).map (·.block) = _ := map_block_chunksFrom hn
    rw [← hchunks, List.map_map] at hmap
    exact hmap
  have hlength := congrArg List.length hblocks
  rw [List.length_map, List.length_range'] at hlength
  have hmem : ∀ v ∈ visits, v.chunk ∈ chunks start n := fun v hv =>
    hchunks ▸ List.mem_map_of_mem hv
  exact {
    blocks := hblocks
    lookups := by rw [hpool, htour.accesses_eq, hc, hlength]
    once := fun i hi => by
      have hcount := countP_covers_chunksFrom start 0 n i
      rw [← chunks, ← hchunks, List.countP_map, if_pos (by omega)] at hcount
      exact hcount
    place := fun v hv i hcovers => place_of_mem_chunks (hmem v hv) hcovers
    holds := fun v hv => (htour.isTurn hv).holds
    ends := fun v hv => by
      rw [htour.last_eq hv]
      exact ⟨hpool, hstorage⟩ }

variable {c : Cache (Traced σ φ) φ}

/-- A read that delivers something splits its range. -/
theorem read_splits (hc : c.Housed) (hf : c.table.get? h = some f) {m : Nat} (buffer : Buffer m)
    {n : Nat} (hread : (read h buffer c).1.1 = .ok n) (hn : 0 < n) :
    ReadSplits f n (readVisits f (chunks f.cursor n) c) buffer (read h buffer c).1.2 c
      (read h buffer c).2 := by
  have hlt : f.cursor < f.size := by
    by_contra hend
    rw [read_of_end hf (Nat.not_lt.mp hend)] at hread
    obtain rfl := Except.ok.inj hread
    exact absurd hn (Nat.lt_irrefl 0)
  rcases hcopy : copyOut f (readChunks f m) buffer c with ⟨⟨e | _, buffer'⟩, c₁⟩
  · rw [read_of_error hf hlt (by rw [hcopy])] at hread
    cases hread
  rw [read_of_ok hf hlt hcopy] at hread ⊢
  obtain rfl : min m (f.size - f.cursor) = n := Except.ok.inj hread
  obtain ⟨htour, hchunks⟩ := readVisits_tour hc hf hcopy
  obtain ⟨houtside, hbytes⟩ := byteAt_copyOut (by omega) hcopy
  have hmissed : ∀ v ∈ readVisits f (readChunks f m) c,
      (isMiss f v && !(touchFor f none v.chunk).covers) = isMiss f v := fun v _ => Bool.and_true _
  exact {
    toSplits := htour.splits hchunks hn rfl rfl rfl
    copied := fun v hv i hcovers => by
      have hmem : v.chunk ∈ readChunks f m := hchunks ▸ List.mem_map_of_mem hv
      have hplace : _ = (f.cursor + i) % blockSize := (place_of_mem_chunks hmem hcovers).2.2
      rw [← hplace]
      exact hbytes v hv i hcovers
    rest := fun i hi => houtside i (Or.inr (by omega))
    kept := htour.block_eq
    asked := by
      rw [show chunks _ _ = readChunks f m from rfl, ← List.filter_congr hmissed]
      exact filterMap_callsSince htour.asks }

/-- A write of something splits its range. -/
theorem write_splits (hc : c.Housed) (hf : c.table.get? h = some f) (bytes : ByteArray) {n : Nat}
    (hwrite : (write h bytes c).1 = .ok n) (hn : 0 < n) :
    WriteSplits f (writeStart f) n
      (writeVisits f bytes (chunks (writeStart f) n)
        { c with table := c.table.modify h (·.moveTo (writeStart f)) }) bytes c
      (write h bytes c).2 := by
  have hnear : writeStart f + bytes.size ≤ maxOffset := by
    by_contra hfar
    rw [write_of_far hf (Nat.not_le.mp hfar)] at hwrite
    cases hwrite
  have hsame : SameFiles c.table (c.table.modify h (·.moveTo (writeStart f))) :=
    sameFiles_of_modify c.table fun _ _ => ⟨rfl, rfl⟩
  have hmoved := hc.of_table hsame c.journal
  have hf₁ := c.table.get?_modify_self hf (·.moveTo (writeStart f))
  obtain ⟨htour, hchunks⟩ :=
    writeVisits_tour (f := f) bytes (chunks (writeStart f) bytes.size) hmoved hf₁ rfl
  rw [write_of_near hf hnear rfl] at hwrite ⊢
  obtain rfl : bytes.size = n := Except.ok.inj hwrite
  generalize writeVisits f bytes (chunks (writeStart f) bytes.size)
    { c with table := c.table.modify h (·.moveTo (writeStart f)) } = visits at htour hchunks ⊢
  generalize (copyIn f bytes (chunks (writeStart f) bytes.size)
    { c with table := c.table.modify h (·.moveTo (writeStart f)) }).2 = c₁ at htour ⊢
  have hmem : ∀ v ∈ visits, v.chunk ∈ chunks (writeStart f) bytes.size := fun v hv =>
    hchunks ▸ List.mem_map_of_mem hv
  have hpartly : ∀ v ∈ visits, (isMiss f v && !(touchFor f (some bytes) v.chunk).covers) =
      (isMiss f v && v.chunk.length < blockSize) := by
    intro v hv
    obtain ⟨hfits, -⟩ := mem_chunks (hmem v hv)
    have hwhole : (!decide (v.chunk.length = blockSize)) = decide (v.chunk.length < blockSize) := by
      rw [← decide_not, decide_eq_decide]
      omega
    exact congrArg (isMiss f v && ·) hwhole
  have hasked : (c₁.callsSince c).filterMap Call.range? =
      (visits.filter fun v => isMiss f v && v.chunk.length < blockSize).map (rangeOf f) := by
    rw [← List.filter_congr hpartly]
    exact filterMap_callsSince htour.asks
  exact {
    toSplits := htour.splits hchunks hn rfl rfl rfl
    copied := fun v hv i hcovers => by
      obtain ⟨hstart, -, hfits, -⟩ := mem_chunks (hmem v hv)
      have hplace : _ = (writeStart f + i) % blockSize :=
        (place_of_mem_chunks (hmem v hv) hcovers).2.2
      rw [← hplace]
      exact (htour.isTurn hv).byteAt_copied hstart hfits hcovers
    kept := fun hs hkey hstays hs' p hp => by
      have hwritten := htour.byteAt_written hchunks (by omega) hmoved hf₁ rfl hs hkey hstays hs' hp
      rwa [Nat.zero_add] at hwritten
    asked := hasked
    asked_le := by
      have hle := length_partial_le (f := f) hchunks
      rw [← List.length_map (f := rangeOf f), ← hasked] at hle
      exact hle }

/-- A transfer that succeeds and moves something is split into blocks exactly, whatever the storage
does and whatever was done before. -/
theorem transfers_split_exactly (storage : σ) (slotCount : Nat) (allocator : Allocator)
    (requests : List Request)
    {c : Cache (Traced σ φ) φ}
    (hreach : c = (session requests (Cache.new (Traced.new storage) slotCount allocator)).2)
    (hf : c.table.get? h = some f) :
    (∀ {m : Nat} (buffer : Buffer m) (n : Nat), (read h buffer c).1.1 = .ok n → 0 < n →
      ReadSplits f n (readVisits f (chunks f.cursor n) c) buffer (read h buffer c).1.2 c
        (read h buffer c).2) ∧
    ∀ (bytes : ByteArray) (n : Nat), (write h bytes c).1 = .ok n → 0 < n →
      let start := if f.flags.contains OpenFlags.append then f.size else f.cursor
      WriteSplits f start n
        (writeVisits f bytes (chunks start n)
          { c with table := c.table.modify h (·.moveTo start) }) bytes c (write h bytes c).2 := by
  have hc : c.Housed :=
    hreach ▸ (housed_new (Traced.new storage) slotCount allocator).session requests
  exact ⟨fun buffer n hread hn => read_splits hc hf buffer hread hn,
    fun bytes n hwrite hn => write_splits hc hf bytes hwrite hn⟩

/-- A file of which two bytes on either side of the edge between two blocks were written, with one
slot, and the cursor back before them. -/
def straddled : Cache (Traced Memory Memory.File) Memory.File :=
  (session
    [.openFile "a" OpenFlags.create 0, .seek ⟨0⟩ (.start (blockSize - 2)),
      .write ⟨0⟩ ⟨#[1, 2, 3, 4]⟩, .seek ⟨0⟩ (.start (blockSize - 2))]
    (Cache.new (Traced.new (Memory.ofFiles Catalog.empty)) 1)).2

theorem transfers_split_exactly_straddled :
    (read ⟨0⟩ (Buffer.zero 9) straddled).1.1 = .ok 4 ∧
      (read ⟨0⟩ (Buffer.zero 9) straddled).2.pool.stats.accesses =
        straddled.pool.stats.accesses + 2 ∧
      (∃ visits : List (Visit (Traced Memory Memory.File) Memory.File),
        visits.map (·.chunk.block) = [0, 1] ∧ visits.countP (·.chunk.covers 2) = 1) ∧
      (write ⟨0⟩ ⟨#[5, 6, 7]⟩ straddled).1 = .ok 3 ∧
      (((write ⟨0⟩ ⟨#[5, 6, 7]⟩ straddled).2.callsSince straddled).filterMap Call.range?).length ≤
        2 := by
  have hsome : (straddled.table.get? ⟨0⟩).map (·.cursor) = some 4094 := by decide +kernel
  obtain ⟨f, hf, hcursor⟩ := Option.map_eq_some_iff.mp hsome
  have hread : (read ⟨0⟩ (Buffer.zero 9) straddled).1.1 = .ok 4 := by decide +kernel
  have hwrite : (write ⟨0⟩ ⟨#[5, 6, 7]⟩ straddled).1 = .ok 3 := by decide +kernel
  obtain ⟨hreads, hwrites⟩ :=
    transfers_split_exactly (Memory.ofFiles Catalog.empty) 1 .addressable _ rfl hf
  have hsplit := hreads (Buffer.zero 9) 4 hread (by decide)
  have hlookups := hsplit.lookups
  have hturns := And.intro hsplit.blocks (hsplit.once 2 (by decide))
  rw [hcursor] at hlookups hturns
  exact ⟨hread, hlookups, ⟨_, hturns⟩, hwrite,
    (hwrites ⟨#[5, 6, 7]⟩ 3 hwrite (by decide)).asked_le⟩

end Cache

end BlockCache
