import BlockCache.Cache.Checked
import BlockCache.Proofs.Bounds
import BlockCache.Storage.Memory
import BlockCache.Storage.Scripted

/-!
Every check passes. In a state that is reached while the storage tells no size that is not a word, a
checked call does not stop, and does what the call does: no sum or product is too large, no
difference negative, no slot and no range missing, and the handle of a transfer stays open while
blocks are moved.
-/

namespace BlockCache

theorem lt_wordBound_iff {n : Nat} : n < wordBound ↔ n ≤ wordBound - 1 :=
  (Nat.le_sub_one_iff_lt (show 0 < wordBound by decide)).symm

namespace Cache

namespace Checked

variable {σ φ α β : Type} {c c' : Cache σ φ} {h : Handle} {f : OpenFile φ} {s : Slot} {i : Nat}
  {key : BlockId}

/-! ### Checks that pass -/

theorem bind_of_some {x : Checked σ φ α} {a : α} (hx : x c = some (a, c'))
    (next : α → Checked σ φ β) : (x >>= next) c = next a c' := by
  show (x c >>= fun result => next result.1 result.2) = _
  rw [hx]
  rfl

theorem map_of_some {x : Checked σ φ α} {a : α} (hx : x c = some (a, c')) (g : α → β) :
    (g <$> x) c = some (g a, c') := by
  show (x c >>= fun result => pure (g result.1, result.2)) = _
  rw [hx]
  rfl

theorem get_bind (next : Cache σ φ → Checked σ φ β) : (get >>= next) c = next c c := rfl

theorem exactly_bind (action : StateM (Cache σ φ) α) (next : α → Checked σ φ β) :
    (exactly action >>= next) c = next (action c).1 (action c).2 := rfl

theorem ensure_of {condition : Prop} [Decidable condition] (hcondition : condition) :
    ensure condition c = some ((), c) := if_pos hcondition

theorem add_of_lt {a b : Nat} (hlt : a + b < wordBound) :
    add a b c = some (⟨a + b, rfl⟩, c) := if_pos hlt

theorem sub_of_le {a b : Nat} (hle : b ≤ a) :
    sub a b c = some (⟨a - b, Nat.sub_add_cancel hle⟩, c) := dif_pos hle

theorem offsetOf_of_lt (hlt : key.offset < wordBound) :
    offsetOf key c = some (⟨key.offset, rfl⟩, c) := if_pos hlt

theorem slotAt_of_some (hs : c.pool.slots[i]? = some s) : slotAt i c = some (s, c) := by
  rw [slotAt, hs]
  rfl

theorem fileOf_of_some (hf : c.table.get? h = some f) : fileOf h c = some (f, c) := by
  rw [fileOf, hf]
  rfl

/-! ### Slots -/

/-- A block that is found is in a slot of the pool. -/
theorem find_eq (key : BlockId) (c : Cache σ φ) : find key c = some (Cache.find key c) := by
  rw [find, get_bind]
  cases hfind : Lookup.find c.pool.index c.pool.slots key with
  | none => rfl
  | some slot =>
      obtain ⟨hlt, -⟩ := Array.findIdx?_eq_some_iff_getElem.mp hfind
      exact bind_of_some (slotAt_of_some (Array.getElem?_eq_getElem hlt)) _

/-- What a storage says it has read is cut to a block, which leaves no bytes to be cleared if it is
more. -/
theorem cleared_eq (block : Block) (n : Nat) (c : Cache σ φ) :
    cleared block (min n blockSize) c = some (block.zeroFrom n, c) := by
  refine (bind_of_some (ensure_of ⟨Nat.min_le_right _ _, Nat.le_refl _⟩) _).trans ?_
  refine congrArg (fun block => some (block, c)) (Buffer.ext_byteAt fun i hi => ?_)
  rw [Buffer.byteAt_blit, Buffer.byteAt_zeroFrom, Bytes.byteAt_zeros, Bytes.size_zeros]
  by_cases hread : i < n
  · rw [if_neg (by omega), if_pos hread]
  · rw [if_pos (by omega), if_neg hread]

variable [Storage σ φ]

/-- The block that is put out of a slot is stored at a word. -/
theorem makeRoom_eq (hw : c.Within (wordBound - 1))
    (hs : c.pool.slots[c.pool.victim]? = some s) : makeRoom c = some (Cache.makeRoom c) := by
  rw [makeRoom, get_bind]
  refine (bind_of_some (slotAt_of_some hs) _).trans ?_
  split
  · rename_i block tenant
    have hle : tenant.key.offset ≤ wordBound - 1 := hw.blocks hs rfl
    exact bind_of_some (offsetOf_of_lt (lt_wordBound_iff.mpr hle)) _
  · rfl

theorem fetch_eq (hf : c.table.get? h = some f) (hs : c.pool.slots[i]? = some s)
    (hkey : key.offset < wordBound) :
    fetch h i key c = some ((fetchBlock f.file key s.block c.storage).1,
      { c with storage := (fetchBlock f.file key s.block c.storage).2 }) := by
  refine (bind_of_some (fileOf_of_some hf) _).trans ?_
  refine (bind_of_some (slotAt_of_some hs) _).trans ?_
  exact bind_of_some (offsetOf_of_lt hkey) _

omit [Storage σ φ] in
theorem settleIn_eq (hs : c.pool.slots[i]? = some s) (block : Block) :
    settleIn i key block c = some ((), { c with
      pool := ((c.pool.modifySlot i (·.setBlock block)).assign i key).count Stats.filled }) :=
  bind_of_some (slotAt_of_some hs) _

/-! ### Blocks of an open file -/

/-- A file is open at a handle, wherever its cursor is, and all that is in the cache is at words. -/
structure Serves (h : Handle) (f : OpenFile φ) (c : Cache σ φ) : Prop where
  housed : c.Housed
  within : c.Within (wordBound - 1)
  opened : ∃ f', c.table.get? h = some f' ∧ f'.file = f.file ∧ f'.descriptor = f.descriptor

namespace Serves

theorem capacity_pos (hc : Serves h f c) : 0 < c.pool.capacity := by
  obtain ⟨f', hf, -⟩ := hc.opened
  exact hc.housed.capacity_pos hf

theorem access {touch : Touch} {how : How} (hc : Serves h f c)
    (haccess : Access f.file touch c how i c') (howner : f.descriptor = touch.key.owner)
    (hkey : touch.key.offset < wordBound) : Serves h f c' where
  housed := by
    obtain ⟨f', hf, -, hdescriptor⟩ := hc.opened
    exact haccess.housed hc.housed hf (hdescriptor.trans howner)
  within := haccess.within hc.within (lt_wordBound_iff.mp hkey)
  opened := haccess.table_eq ▸ hc.opened

theorem write (hc : Serves h f c) (i start : Nat) (bytes : ByteArray) :
    Serves h f { c with pool := c.pool.write i start bytes } :=
  ⟨hc.housed.write i start bytes, hc.within.write i start bytes, hc.opened⟩

/-- Room is made for a block that is not found, and the block can be read into it. -/
theorem room (hc : Serves h f c) :
    ∃ (c₁ : Cache σ φ) (s : Slot),
      Cache.makeRoom { c with pool := c.pool.count Stats.miss } = (c.pool.victim, c₁) ∧
      makeRoom { c with pool := c.pool.count Stats.miss } = some (c.pool.victim, c₁) ∧
      c₁.pool.slots[c.pool.victim]? = some s ∧
      ∀ key : BlockId, key.offset < wordBound →
        fetch h c.pool.victim key c₁ = some ((fetchBlock f.file key s.block c₁.storage).1,
          { c₁ with storage := (fetchBlock f.file key s.block c₁.storage).2 }) := by
  obtain ⟨c₁, hmade, hroom⟩ := room_of_absent hc.housed hc.capacity_pos
  obtain ⟨s, hs, -⟩ := hroom.freed
  obtain ⟨f', hf, hfile, -⟩ := hc.opened
  have hvictim := Array.getElem?_eq_getElem (c.pool.victim_lt hc.capacity_pos)
  have hmissed : ({ c with pool := c.pool.count Stats.miss } : Cache σ φ).Within (wordBound - 1) :=
    hc.within.of_fewer hc.within.files fun ht hkey => ⟨_, _, ht, hkey⟩
  refine ⟨c₁, s, hmade, (makeRoom_eq hmissed hvictim).trans (congrArg some hmade), hs,
    fun key hkey => ?_⟩
  rw [← hfile]
  exact fetch_eq (hroom.table_eq ▸ hf) hs hkey

/-- A block is made ready for reading without a check that fails. -/
theorem slotToRead_eq (hc : Serves h f c) {block : Nat} (hblock : block * blockSize < wordBound) :
    slotToRead h ⟨f.descriptor, block⟩ c = some (Cache.slotToRead f block c) := by
  rcases find_cases c ⟨f.descriptor, block⟩ with
    ⟨i, s, journal, -, -, hfind⟩ | ⟨-, hfind⟩
  · rw [Cache.slotToRead_of_found hfind]
    exact bind_of_some ((find_eq _ c).trans (congrArg some hfind)) _
  refine (bind_of_some ((find_eq _ c).trans (congrArg some hfind)) _).trans ?_
  obtain ⟨c₁, s, hmade, hroom, hs, hfetch⟩ := hc.room
  refine (bind_of_some hroom _).trans ?_
  refine (bind_of_some (hfetch ⟨f.descriptor, block⟩ hblock) _).trans ?_
  have hslot := c₁.pool.blockAt_of_getElem? hs
  rcases hread : fetchBlock f.file ⟨f.descriptor, block⟩ s.block c₁.storage with
    ⟨⟨e | n, bytes⟩, storage⟩
  · rw [slotToRead_of_error hfind hmade (Pool.fill_of_error _ (hslot.symm ▸ hread))]
    exact bind_of_some (slotAt_of_some (c := { c₁ with storage }) hs) _
  · rw [slotToRead_of_ok hfind hmade (Pool.fill_of_ok _ (hslot.symm ▸ hread))]
    refine (bind_of_some (cleared_eq bytes n _) _).trans ?_
    exact bind_of_some (settleIn_eq (c := { c₁ with storage }) hs _) _

/-- A block is made ready for writing likewise. -/
theorem slotToWrite_eq (hc : Serves h f c) {block : Nat} (hblock : block * blockSize < wordBound)
    (whole : Bool) :
    slotToWrite h ⟨f.descriptor, block⟩ whole c = some (Cache.slotToWrite f block whole c) := by
  rcases find_cases c ⟨f.descriptor, block⟩ with
    ⟨i, s, journal, -, -, hfind⟩ | ⟨-, hfind⟩
  · rw [Cache.slotToWrite_of_found hfind]
    exact bind_of_some ((find_eq _ c).trans (congrArg some hfind)) _
  refine (bind_of_some ((find_eq _ c).trans (congrArg some hfind)) _).trans ?_
  obtain ⟨c₁, s, hmade, hroom, hs, hfetch⟩ := hc.room
  refine (bind_of_some hroom _).trans ?_
  cases whole with
  | true =>
      rw [slotToWrite_of_whole hfind hmade]
      exact bind_of_some (slotAt_of_some hs) _
  | false =>
      refine (bind_of_some (hfetch ⟨f.descriptor, block⟩ hblock) _).trans ?_
      have hslot := c₁.pool.blockAt_of_getElem? hs
      rcases hread : fetchBlock f.file ⟨f.descriptor, block⟩ s.block c₁.storage with
        ⟨⟨e | n, bytes⟩, storage⟩
      · rw [slotToWrite_of_part hfind hmade (Pool.fillOrZero_of_error _ (hslot.symm ▸ hread))]
        dsimp only
        rw [exactly_bind, report_apply]
        exact bind_of_some (settleIn_eq (c := { c₁ with storage, journal := _ }) hs _) _
      · rw [slotToWrite_of_part hfind hmade (Pool.fillOrZero_of_ok _ (hslot.symm ▸ hread))]
        refine (bind_of_some (cleared_eq bytes n _) _).trans ?_
        rw [Option.map_none, Option.toList_none, Array.appendList_nil]
        exact bind_of_some (settleIn_eq (c := { c₁ with storage }) hs _) _

end Serves

/-! ### Transfers -/

/-- The first chunk of what is left of a transfer, and what is left after it. -/
theorem chunksFrom_step {cursor count done : Nat} (hdone : done < count) :
    chunksFrom (cursor + done) done (count - done) =
      ⟨blockOf (cursor + done), placeInBlock (cursor + done), done,
          chunkLength (cursor + done) (count - done)⟩ ::
        chunksFrom (cursor + (done + chunkLength (cursor + done) (count - done)))
          (done + chunkLength (cursor + done) (count - done))
          (count - (done + chunkLength (cursor + done) (count - done))) := by
  rw [chunksFrom_of_pos (Nat.sub_pos_of_lt hdone), Nat.add_assoc, Nat.sub_sub]

/-- In each step of a transfer that ends at a word all sums are words, and the chunk lies in its
block and in the transfer, of which less is left afterwards. -/
theorem step_in_range {cursor count done : Nat} (hdone : done < count)
    (hend : cursor + count < wordBound) :
    let start := placeInBlock (cursor + done)
    let length := chunkLength (cursor + done) (count - done)
    cursor + done < wordBound ∧ blockOf (cursor + done) * blockSize < wordBound ∧
      (start + length < wordBound ∧ start ≤ start + length ∧ start + length ≤ blockSize) ∧
      (done + length < wordBound ∧ done ≤ done + length ∧ done + length ≤ count) ∧
      count - (done + length) < count - done := by
  intro start length
  have hstart : start < blockSize := placeInBlock_lt (cursor + done)
  have hoffset : blockOf (cursor + done) * blockSize + start = cursor + done :=
    blockOf_mul_add_placeInBlock (cursor + done)
  have hblock : length ≤ blockSize - start := Nat.min_le_left _ _
  have hpos : 0 < length := chunkLength_pos (Nat.sub_pos_of_lt hdone)
  have hle : length ≤ count - done := chunkLength_le _ _
  omega

/-- Bytes that end at a word are copied out without a check that fails. -/
theorem copyOut_eq {n count done : Nat} (hc : Serves h f c) (hend : f.cursor + count < wordBound)
    (hcount : count ≤ n) (buffer : Buffer n) :
    copyOut h f count done buffer c =
      some (Cache.copyOut f (chunksFrom (f.cursor + done) done (count - done)) buffer c) := by
  induction hleft : count - done using Nat.strongRecOn generalizing c done buffer with
  | ind left ih =>
      subst hleft
      rw [copyOut]
      by_cases hdone : done < count
      · obtain ⟨hoffset, hkey, ⟨hstop, hblock⟩, ⟨hnext, hrange⟩, hless⟩ :=
          step_in_range hdone hend
        rw [dif_pos hdone, chunksFrom_step hdone]
        refine (bind_of_some (add_of_lt hoffset) _).trans ?_
        refine (bind_of_some (sub_of_le (Nat.le_of_lt (placeInBlock_lt _))) _).trans ?_
        refine (bind_of_some (sub_of_le (Nat.le_of_lt hdone)) _).trans ?_
        have hslot := hc.slotToRead_eq hkey
        obtain ⟨how, i, c₁, haccess, ⟨hread, hhow⟩ | ⟨fault, hread, -⟩⟩ :=
          slotToRead_access hc.housed hc.capacity_pos f (blockOf (f.cursor + done))
        · rw [copyOut_of_ok ⟨blockOf (f.cursor + done), _, done, _⟩ hread]
          rw [hread] at hslot
          obtain ⟨s, hs, -⟩ := haccess.holds (by rintro rfl; simp at hhow)
          refine (bind_of_some hslot _).trans ?_
          refine (bind_of_some (slotAt_of_some hs) _).trans ?_
          refine (bind_of_some (add_of_lt hstop) _).trans ?_
          refine (bind_of_some (ensure_of hblock) _).trans ?_
          refine (bind_of_some (add_of_lt hnext) _).trans ?_
          refine (bind_of_some (ensure_of ⟨hrange.1, Nat.le_trans hrange.2 hcount⟩) _).trans ?_
          rw [c₁.pool.blockAt_of_getElem? hs]
          exact ih _ hless (hc.access haccess rfl hkey) _ rfl
        · rw [copyOut_of_error ⟨blockOf (f.cursor + done), _, done, _⟩ hread]
          rw [hread] at hslot
          exact bind_of_some hslot _
      · have hnone : count - done = 0 := Nat.sub_eq_zero_of_le (Nat.not_lt.mp hdone)
        rw [dif_neg hdone, hnone, chunksFrom_zero]
        rfl

/-- Bytes that end at a word are copied in likewise. -/
theorem copyIn_eq {data : ByteArray} {cursor done : Nat} (hc : Serves h f c)
    (hend : cursor + data.size < wordBound) :
    copyIn h f cursor data done c =
      some (Cache.copyIn f data (chunksFrom (cursor + done) done (data.size - done)) c) := by
  induction hleft : data.size - done using Nat.strongRecOn generalizing c done with
  | ind left ih =>
      subst hleft
      rw [copyIn]
      by_cases hdone : done < data.size
      · obtain ⟨hoffset, hkey, ⟨hstop, hblock⟩, ⟨hnext, hrange⟩, hless⟩ :=
          step_in_range hdone hend
        rw [dif_pos hdone, chunksFrom_step hdone, copyIn_cons]
        refine (bind_of_some (add_of_lt hoffset) _).trans ?_
        refine (bind_of_some (sub_of_le (Nat.le_of_lt (placeInBlock_lt _))) _).trans ?_
        refine (bind_of_some (sub_of_le (Nat.le_of_lt hdone)) _).trans ?_
        have hslot := hc.slotToWrite_eq hkey
          (chunkLength (cursor + done) (data.size - done) = blockSize)
        obtain ⟨how, i, c₁, haccess, hwrite, hhow⟩ :=
          slotToWrite_access hc.housed hc.capacity_pos f (blockOf (cursor + done))
            (chunkLength (cursor + done) (data.size - done) = blockSize)
        rw [@copyIn_single σ φ _ i c c₁ f data
          ⟨blockOf (cursor + done), _, done, chunkLength (cursor + done) (data.size - done)⟩ hwrite]
        rw [hwrite] at hslot
        obtain ⟨s, hs, -⟩ := haccess.holds hhow
        refine (bind_of_some hslot _).trans ?_
        refine (bind_of_some (slotAt_of_some hs) _).trans ?_
        refine (bind_of_some (add_of_lt hstop) _).trans ?_
        refine (bind_of_some (ensure_of hblock) _).trans ?_
        refine (bind_of_some (add_of_lt hnext) _).trans ?_
        refine (bind_of_some (ensure_of hrange) _).trans ?_
        rw [exactly_bind]
        exact ih _ hless ((hc.access haccess rfl hkey).write _ _ _) rfl
      · have hnone : data.size - done = 0 := Nat.sub_eq_zero_of_le (Nat.not_lt.mp hdone)
        rw [dif_neg hdone, hnone, chunksFrom_zero]
        rfl

omit [Storage σ φ] in
theorem advance_eq (hf : c.table.get? h = some f) {count : Nat}
    (hend : f.cursor + count < wordBound) (extend : Bool) :
    advance h count extend c =
      some ((), { c with table := c.table.modify h (·.moveBy count extend) }) := by
  refine (bind_of_some (fileOf_of_some hf) _).trans ?_
  exact bind_of_some (add_of_lt hend) _

/-! ### Calls -/

theorem serves_of_some (hc : c.Housed) (hw : c.Within (wordBound - 1))
    (hf : c.table.get? h = some f) : Serves h f c := ⟨hc, hw, f, hf, rfl, rfl⟩

theorem read_eq (hc : c.Housed) (hw : c.Within (wordBound - 1)) {n : Nat} (buffer : Buffer n) :
    read h buffer c = some (Cache.read h buffer c) := by
  rw [read, get_bind]
  cases hf : c.table.get? h with
  | none =>
      rw [c.table.get_of_none hf, read_of_none hf]
      rfl
  | some f =>
      rw [c.table.get_of_some hf]
      dsimp only
      by_cases hstop : f.size ≤ f.cursor
      · rw [if_pos hstop, read_of_end hf hstop]
        rfl
      rw [if_neg hstop]
      have hsize := lt_wordBound_iff.mpr (hw.files hf).2
      have hend : f.cursor + min n (f.size - f.cursor) < wordBound := by omega
      refine (bind_of_some (sub_of_le (Nat.le_of_not_le hstop)) _).trans ?_
      have hcopied : copyOut h f (min n (f.size - f.cursor)) 0 buffer c =
          some (Cache.copyOut f (readChunks f n) buffer c) :=
        copyOut_eq (serves_of_some hc hw hf) hend (Nat.min_le_left _ _) buffer
      rcases hcopy : Cache.copyOut f (readChunks f n) buffer c with ⟨⟨e | _, buffer'⟩, c₁⟩
      · rw [read_of_error hf (Nat.not_le.mp hstop) (by rw [hcopy]), hcopy]
        exact bind_of_some (hcopied.trans (congrArg some hcopy)) _
      · have htable := table_copyOut f (readChunks f n) buffer c
        rw [hcopy] at htable
        rw [read_of_ok hf (Nat.not_le.mp hstop) hcopy]
        refine (bind_of_some (hcopied.trans (congrArg some hcopy)) _).trans ?_
        exact bind_of_some (advance_eq (htable ▸ hf) hend false) _

theorem write_eq (hc : c.Housed) (hw : c.Within (wordBound - 1)) (data : ByteArray) :
    write h data c = some (Cache.write h data c) := by
  rw [write, get_bind]
  cases hf : c.table.get? h with
  | none =>
      rw [c.table.get_of_none hf, write_of_none hf]
      rfl
  | some f =>
      rw [c.table.get_of_some hf]
      dsimp only
      rw [exactly_bind, onTable_apply]
      by_cases hfar : maxOffset < writeStart f + data.size
      · rw [write_of_far hf hfar, if_neg fun hnear => Nat.not_le.mpr hfar hnear.2]
        rfl
      have hnear := Nat.not_lt.mp hfar
      have hend : writeStart f + data.size < wordBound := Nat.lt_of_le_of_lt hnear (by decide)
      rw [if_pos ⟨hend, hnear⟩]
      have hf' := c.table.get?_modify_self hf (·.moveTo (writeStart f))
      have hc' : Serves h f { c with table := c.table.modify h (·.moveTo (writeStart f)) } :=
        ⟨hc.moved h _, hw.moved hf, _, hf', rfl, rfl⟩
      have hcopied : copyIn h f (writeStart f) data 0 _ =
          some (Cache.copyIn f data (chunks (writeStart f) data.size) _) :=
        copyIn_eq hc' hend
      have htable := table_copyIn f data (chunks (writeStart f) data.size)
        { c with table := c.table.modify h (·.moveTo (writeStart f)) }
      rcases hcopy : Cache.copyIn f data (chunks (writeStart f) data.size)
        { c with table := c.table.modify h (·.moveTo (writeStart f)) } with ⟨_, c₁⟩
      rw [hcopy] at htable
      rw [write_of_near hf hnear hcopy]
      refine (bind_of_some (hcopied.trans (congrArg some hcopy)) _).trans ?_
      exact bind_of_some (advance_eq ((congrArg (·.get? h) htable).trans hf') hend true) _

omit [Storage σ φ] in
theorem seek_eq (hw : c.Within (wordBound - 1)) {target : SeekTarget}
    (hfits : Request.Fits (.seek h target)) :
    seek h target c = some (Cache.seek h target c) := by
  rw [seek, get_bind]
  cases hf : c.table.get? h with
  | none =>
      rw [c.table.get_of_none hf, seek_of_none hf]
      rfl
  | some f =>
      rw [c.table.get_of_some hf]
      dsimp only
      obtain ⟨hcursor, hsize⟩ := hw.files hf
      have hsum : fitsWide (f.targetOffset target) := by
        cases target <;>
          simp only [fitsWide, OpenFile.targetOffset, Request.Fits, wordBound, maxOffset] at * <;>
          omega
      refine (bind_of_some (ensure_of hsum) _).trans ?_
      cases hseek : f.seek target with
      | error e =>
          rw [seek_of_error hf hseek]
          rfl
      | ok f' =>
          obtain ⟨htarget, hle⟩ := OpenFile.targetOffset_of_seek hseek
          have hword : 0 ≤ f.targetOffset target ∧ f.targetOffset target < wordBound := by
            simp only [maxOffset, wordBound] at *
            omega
          rw [seek_of_ok hf hseek]
          exact bind_of_some (ensure_of hword) _

theorem sync_eq (hw : c.Within (wordBound - 1)) :
    sync h c = some (Cache.sync h c) := by
  rw [sync, get_bind]
  cases hf : c.table.get? h with
  | none =>
      rw [c.table.get_of_none hf, sync_of_none hf]
      rfl
  | some f =>
      rw [c.table.get_of_some hf]
      dsimp only
      rw [get_bind]
      refine bind_of_some (ensure_of fun dirty hmem => ?_) _
      obtain ⟨tenant, hs, hkey, -⟩ := c.pool.mem_dirtyBlocks.mp hmem
      exact lt_wordBound_iff.mpr (hw.blocks hs (congrArg some hkey))

theorem close_eq (hw : c.Within (wordBound - 1)) :
    close h c = some (Cache.close h c) := by
  rw [close, Cache.close, get_bind, bind_apply, get_apply]
  cases hf : c.table.get? h with
  | none =>
      rw [c.table.get_of_none hf]
      rfl
  | some f =>
      obtain ⟨-, -, -, -, htable⟩ := sync_steps_trim c h
      rw [c.table.get_of_some hf]
      dsimp only
      rw [bind_apply]
      rcases hsync : Cache.sync h c with ⟨e | _, c₁⟩ <;> rw [hsync] at htable <;>
        refine (bind_of_some ((sync_eq hw).trans (congrArg some hsync)) _).trans ?_
      · dsimp only
        rw [exactly_bind, report_apply]
        exact bind_of_some (fileOf_of_some (c := { c₁ with journal := _ }) (htable ▸ hf)) _
      · exact bind_of_some (fileOf_of_some (htable ▸ hf)) _

theorem openFile_eq (path : String) (flags : OpenFlags) (mode : Nat) (c : Cache σ φ) :
    openFile path flags mode c = some (Cache.openFile path flags mode c) := by
  rw [openFile, exactly_bind]
  rcases hopen : Cache.openFile path flags mode c with ⟨e | h, c₁⟩
  · rfl
  · obtain ⟨-, file, size, opened, sized, -, -, hget⟩ :=
      get?_openFile_of_ok (h := h) (by rw [hopen])
    have hf := (hget h).trans (if_pos rfl)
    rw [hopen] at hf
    have hlt : h.index < c₁.table.entries.size := by
      refine Nat.lt_of_not_le fun hle => ?_
      rw [FileTable.get?_of_size_le hle] at hf
      cases hf
    dsimp only
    rw [get_bind]
    exact bind_of_some (ensure_of hlt) _

theorem serve_eq (hc : c.Housed) (hw : c.Within (wordBound - 1)) {request : Request}
    (hfits : request.Fits) : serve request c = some (Cache.serve request c) := by
  cases request with
  | openFile path flags mode => exact map_of_some (openFile_eq path flags mode c) _
  | close h => exact map_of_some (close_eq hw) _
  | sync h => exact map_of_some (sync_eq hw) _
  | read h buffer => exact bind_of_some (read_eq hc hw (Buffer.ofBytes buffer)) _
  | write h data => exact map_of_some (write_eq hc hw data) _
  | seek h target => exact map_of_some (seek_eq hw hfits) _
  | position | length | flags | isResident => rfl

end Checked

/-! ### Reachable states -/

variable {σ φ : Type} [Storage σ φ] {c : Cache σ φ}

/-- No arithmetic of a cache goes wrong and no index of it is out of range. In every state that is
reached while the size of each file that is opened is a word, whatever the storage does else, a
request that fits the machine is served with all checks as it is without any, and every cursor and
every size is a word. If no file is larger than the largest offset when it is opened, then no cursor
and no size ever is. -/
theorem offsets_in_range (storage : σ) (slotCount : Nat) (allocator : Allocator)
    (hreach : Reachable (OpensWithin (wordBound - 1)) (Cache.new storage slotCount allocator) c) :
    (∀ request : Request, request.Fits → Checked.serve request c = some (serve request c)) ∧
      (∀ h f, c.table.get? h = some f → f.cursor < wordBound ∧ f.size < wordBound) ∧
      (Reachable (OpensWithin maxOffset) (Cache.new storage slotCount allocator) c →
        ∀ h f, c.table.get? h = some f → f.cursor ≤ maxOffset ∧ f.size ≤ maxOffset) := by
  have hw := hreach.within (by decide) fun _ _ hopens => hopens
  refine ⟨fun request hfits => Checked.serve_eq hreach.housed hw hfits, fun h f hf => ?_,
    fun hreach' h f hf => (hreach'.within (Nat.le_refl _) fun _ _ hopens => hopens).files hf⟩
  obtain ⟨hcursor, hsize⟩ := hw.files hf
  exact ⟨lt_wordBound_iff.mpr hcursor, lt_wordBound_iff.mpr hsize⟩

/-- A storage that tells one size of all files, and that all reads had two blocks of bytes. -/
def boasting (size : Nat) : Scripted Memory :=
  ⟨Memory.ofFiles Catalog.empty,
    [{ operation := .size, reported := some size },
      { operation := .read, reported := some (2 * blockSize) }]⟩

/-- A file is opened twice, and a write that appends has moved the first cursor to the end. -/
def atLastWord (size : Nat) : Cache (Scripted Memory) Memory.File :=
  (serve (.openFile "a" OpenFlags.create 0)
    (serve (.write ⟨0⟩ ⟨#[1]⟩)
      (serve (.openFile "a" (OpenFlags.append.union OpenFlags.create) 0)
        (Cache.new (boasting size) 1)).2).2).2

theorem offsets_in_range_atLastWord :
    ((atLastWord (wordBound - 1)).table.get? ⟨0⟩).map (·.cursor) = some (wordBound - 1) ∧
      Checked.serve (.seek ⟨0⟩ (.current maxOffset)) (atLastWord (wordBound - 1)) =
        some (serve (.seek ⟨0⟩ (.current maxOffset)) (atLastWord (wordBound - 1))) ∧
      Checked.serve (.read ⟨1⟩ (Bytes.zeros (blockSize + 1))) (atLastWord (wordBound - 1)) =
        some (serve (.read ⟨1⟩ (Bytes.zeros (blockSize + 1))) (atLastWord (wordBound - 1))) ∧
      ((atLastWord maxOffset).table.get? ⟨0⟩).map (·.cursor) = some maxOffset ∧
      ∀ h f, (atLastWord maxOffset).table.get? h = some f →
        f.cursor ≤ maxOffset ∧ f.size ≤ maxOffset := by
  have hopens : ∀ {bound : Nat} {c : Cache (Scripted Memory) Memory.File} {request : Request},
      ((serve request c).2.table.entries.all fun entry =>
        entry.all fun f => decide (f.size ≤ bound)) = true → OpensWithin bound c request :=
    fun hall _ _ _ hf => of_decide_eq_true (FileTable.of_all hall hf)
  have hwords : Reachable (OpensWithin (wordBound - 1)) (Cache.new (boasting (wordBound - 1)) 1)
      (atLastWord (wordBound - 1)) :=
    .serve _ (.serve _ (.serve _ .first (hopens (by decide +kernel))) (hopens (by decide +kernel)))
      (hopens (by decide +kernel))
  have hoffsets : ∀ bound, maxOffset ≤ bound → Reachable (OpensWithin bound)
      (Cache.new (boasting maxOffset) 1) (atLastWord maxOffset) := fun bound hle =>
    .serve _ (.serve _ (.serve _ .first ((hopens (by decide +kernel)).mono hle))
      ((hopens (by decide +kernel)).mono hle)) ((hopens (by decide +kernel)).mono hle)
  obtain ⟨hserve, -⟩ := offsets_in_range (boasting (wordBound - 1)) 1 .addressable hwords
  obtain ⟨-, -, hfiles⟩ :=
    offsets_in_range (boasting maxOffset) 1 .addressable (hoffsets (wordBound - 1) (by decide))
  exact ⟨by decide +kernel, hserve _ (by decide), hserve _ (by decide +kernel),
    by decide +kernel, hfiles (hoffsets maxOffset (Nat.le_refl _))⟩

end Cache

end BlockCache
