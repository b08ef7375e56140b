import BlockCache.Proofs.Chunks
import BlockCache.Proofs.Regular

/-!
Calls as steps. Each call of a cache that is in order is taken apart into steps: those that store
bytes, move a cursor, trim, bind or drop stand in the list of its actions, and all the others only
move blocks. For a call that can end in several ways there is one statement for each of them.
-/

namespace BlockCache

/-- Whether an action leaves the open files alone. -/
def Action.keepsTable : Action → Bool
  | .store .. | .trim _ | .visit _ => true
  | .move _ | .bind .. | .drop _ => false

/-- Whether an action leaves the bytes of the open files alone. -/
def Action.keepsBytes : Action → Bool
  | .move _ | .trim _ | .drop _ => true
  | .store .. | .visit _ | .bind .. => false

/-- The handle of the open file that an action does something to. -/
def Action.handle? : Action → Option Handle
  | .store h .. | .move h | .trim h | .drop h => some h
  | .visit _ | .bind .. => none

def Request.handle? : Request → Option Handle
  | .openFile .. => none
  | .close h | .sync h | .read h _ | .write h _ | .seek h _ | .position h | .length h | .flags h
  | .isResident h _ => some h

namespace Cache

variable {σ φ : Type} {c c' : Cache σ φ}

/-! ### Seeking -/

theorem seek_of_none {h : Handle} (hf : c.table.get? h = none) (target : SeekTarget) :
    seek h target c = (.error .notOpen, c) := by
  have hseek : c.table.seek h target = .error .notOpen := by
    rw [FileTable.seek, c.table.get_of_none hf]
    rfl
  rw [seek, bind_apply, get_apply]
  dsimp only
  rw [hseek]
  rfl

theorem seek_of_error {h : Handle} {f : OpenFile φ} (hf : c.table.get? h = some f)
    {target : SeekTarget} {e : Error} (he : f.seek target = .error e) :
    seek h target c = (.error e, c) := by
  have hseek : c.table.seek h target = .error e := by
    rw [FileTable.seek, c.table.get_of_some hf]
    show (f.seek target >>= _) = _
    rw [he]
    rfl
  rw [seek, bind_apply, get_apply]
  dsimp only
  rw [hseek]
  rfl

theorem seek_of_ok {h : Handle} {f f' : OpenFile φ} (hf : c.table.get? h = some f)
    {target : SeekTarget} (hok : f.seek target = .ok f') :
    seek h target c = (.ok f'.cursor, { c with table := c.table.modify h fun _ => f' }) := by
  have hseek : c.table.seek h target = .ok (f'.cursor, c.table.modify h fun _ => f') := by
    rw [FileTable.seek, c.table.get_of_some hf]
    show (f.seek target >>= _) = _
    rw [hok]
    rfl
  rw [seek, bind_apply, get_apply]
  dsimp only
  rw [hseek]
  rfl

/-- A seek that succeeds moves the cursor and changes nothing else. -/
theorem eq_moveTo_of_seek {f f' : OpenFile φ} {target : SeekTarget} (h : f.seek target = .ok f') :
    f' = f.moveTo f'.cursor := by
  unfold OpenFile.seek at h
  split at h
  · cases h
  · split at h
    · cases h
    · obtain rfl := Except.ok.inj h
      rfl

theorem length_of_some {h : Handle} {f : OpenFile φ} (hf : c.table.get? h = some f) :
    c.length h = .ok f.size := by
  rw [length, c.table.get_of_some hf]
  rfl

variable [Storage σ φ]

/-! ### What steps leave alone -/

/-- A step has one action at most. -/
theorem Step.actions {as : List Action} {new : List Event} (h : Step c as new c') :
    as = [] ∨ ∃ a, as = [a] := by
  cases h <;> first | exact Or.inl rfl | exact Or.inr ⟨_, rfl⟩

theorem Step.eq_of_mem {as : List Action} {new : List Event} (h : Step c as new c') {a : Action}
    (ha : a ∈ as) : as = [a] := by
  rcases h.actions with rfl | ⟨a', rfl⟩
  · cases ha
  · rw [List.mem_singleton.mp ha]

theorem Step.table_eq {as : List Action} {new : List Event} (h : Step c as new c')
    (hkeep : ∀ a ∈ as, a.keepsTable = true) : c'.table = c.table := by
  cases h with
  | move | bind | drop => exact absurd (hkeep _ List.mem_cons_self) Bool.false_ne_true
  | _ => rfl

theorem Steps.table_eq {as : List Action} {new : List Event} (h : Steps c as new c')
    (hkeep : ∀ a ∈ as, a.keepsTable = true) : c'.table = c.table := by
  induction h with
  | nil => rfl
  | cons hstep _ ih =>
      rw [ih fun a ha => hkeep a (List.mem_append_right _ ha)]
      exact hstep.table_eq fun a ha => hkeep a (List.mem_append_left _ ha)

/-- Steps without an action leave the open files alone. -/
theorem Steps.table_tend {new : List Event} (h : Steps c [] new c') : c'.table = c.table :=
  h.table_eq fun _ ha => nomatch ha

/-- An open file stays as it is in steps that do not do more to it than trim it. -/
theorem Step.get?_eq {as : List Action} {new : List Event} (hstep : Step c as new c') {h : Handle}
    {f : OpenFile φ} (hf : c.table.get? h = some f)
    (htrim : ∀ a ∈ as, a.handle? = some h → a = .trim h) : c'.table.get? h = some f := by
  cases hstep with
  | @move h' =>
      have hne : h' ≠ h := by
        rintro rfl
        cases htrim _ List.mem_cons_self rfl
      exact (c.table.get?_modify _ _ _).trans ((if_neg hne).trans hf)
  | @bind _ _ _ _ i _ _ _ _ hplace =>
      have hne : h ≠ ⟨i⟩ := by
        rintro rfl
        rw [c.table.get?_lowestFree hplace] at hf
        cases hf
      exact (c.table.get?_of_add hplace _ h).trans ((if_neg hne).trans hf)
  | @drop h' =>
      have hne : h' ≠ h := by
        rintro rfl
        cases htrim _ List.mem_cons_self rfl
      exact (c.table.get?_remove h' h).trans ((if_neg hne).trans hf)
  | _ => exact hf

theorem Step.slotCount_eq {as : List Action} {new : List Event} (h : Step c as new c') :
    c'.slotCount = c.slotCount := by
  cases h <;> rfl

theorem Step.allocator_eq {as : List Action} {new : List Event} (h : Step c as new c') :
    c'.allocator = c.allocator := by
  cases h <;> rfl

/-- No step changes how many places there are for open files. -/
theorem Step.places_eq {as : List Action} {new : List Event} (h : Step c as new c') :
    c'.table.entries.size = c.table.entries.size := by
  cases h with
  | move | bind | drop => exact Array.size_modify
  | _ => rfl

theorem Step.journal_eq {as : List Action} {new : List Event} (h : Step c as new c') :
    c'.journal.toList = c.journal.toList ++ new := by
  cases h <;> simp

theorem Steps.journal_eq {as : List Action} {new : List Event} (h : Steps c as new c') :
    c'.journal.toList = c.journal.toList ++ new := by
  induction h with
  | nil => rw [List.append_nil]
  | cons hstep _ ih => rw [ih, hstep.journal_eq, List.append_assoc]

/-- What was reported since another state. -/
def since (c' c : Cache σ φ) : List Event := c'.journal.toList.drop c.journal.size

theorem Steps.since_eq {as : List Action} {new : List Event} (h : Steps c as new c') :
    c'.since c = new := by
  rw [since, h.journal_eq, ← Array.length_toList, List.drop_left]

/-! ### Blocks -/

/-- Storing a block succeeds just if all of it was taken, and never fails for want of an owner. -/
theorem storeBlock_run {s s' : σ} {file : φ} {key : BlockId} {block : Block}
    {outcome : Except Error Unit} (hrun : storeBlock file key block s = (outcome, s')) :
    ∃ result, Storage.writeAt file block key.offset s = (result, s') ∧
      (outcome = .ok () ↔ result = .ok blockSize) ∧ outcome ≠ .error .noOwner := by
  rw [storeBlock, bind_apply] at hrun
  rcases hwrite : Storage.writeAt file block key.offset s with ⟨result, s₁⟩
  rw [hwrite] at hrun
  cases result with
  | ok n =>
      obtain ⟨rfl, rfl⟩ := Prod.mk.inj hrun
      by_cases hn : n = blockSize
      · rw [if_pos hn, hn]
        exact ⟨_, rfl, by simp, fun herr => nomatch herr⟩
      · rw [if_neg hn]
        exact ⟨_, rfl, by simp [hn], fun herr => nomatch herr⟩
  | error fault =>
      obtain ⟨rfl, rfl⟩ := Prod.mk.inj hrun
      exact ⟨_, rfl, by simp, fun herr => nomatch herr⟩

theorem find_spec (c : Cache σ φ) (key : BlockId) :
    (∃ i s new c', find key c = (some i, c') ∧ Steps c [] new c' ∧ c'.pool.slots[i]? = some s ∧
      s.key = some key) ∨
    (∃ c', find key c = (none, c') ∧ Steps c [] [] c' ∧ c'.Absent key) := by
  rcases Pool.lookup_cases c.pool key with ⟨i, s, hs, hkey, hlookup⟩ | ⟨habsent, hlookup⟩
  · have hstep := Steps.single (Step.hit hs hkey rfl)
    refine Or.inl ⟨i, s.bump, _, _, ?_, hstep, Pool.getElem?_modify_self hs, ?_⟩
    · rw [find, bind_apply, onPool_apply, pure_apply, hlookup]
      rfl
    · rw [Slot.key_bump, hkey]
  · refine Or.inr ⟨_, ?_, Steps.single (.miss habsent), habsent⟩
    rw [find, bind_apply, onPool_apply, pure_apply, hlookup]
    rfl

/-- A block is written back to the open file it belongs to. -/
theorem writeBack_eq (hreg : c.Regular) {h : Handle} {f : OpenFile φ} {key : BlockId}
    (hf : c.table.get? h = some f) (howner : f.descriptor = key.owner) (block : Block) :
    writeBack c.table key block = (storeBlock f.file key block : StateM σ _) := by
  rw [writeBack, ← howner, hreg.ownerOf_eq hf]

/-- Making room frees a slot and lets no block in. -/
theorem makeRoom_spec (hreg : c.Regular) (hpos : 0 < c.pool.capacity) :
    ∃ i s new c', makeRoom c = (i, c') ∧ Steps c [] new c' ∧ c'.pool.slots[i]? = some s ∧
      s.key = none ∧ ∀ key, c.Absent key → c'.Absent key := by
  have hlt := c.pool.victim_lt hpos
  obtain ⟨⟨block, dirty, tenant⟩, hs⟩ : ∃ s, c.pool.slots[c.pool.victim]? = some s :=
    ⟨_, Array.getElem?_eq_getElem hlt⟩
  have hvacated : ∀ eviction, (c.pool.evict c.pool.victim eviction).slots[c.pool.victim]? =
      some (Slot.vacated ⟨block, dirty, tenant⟩) := by
    intro eviction
    rw [Pool.slots_evict]
    exact Pool.getElem?_modify_self hs
  have habsent : ∀ eviction key, c.Absent key → ∀ (j : Nat) (t : Slot),
      (c.pool.evict c.pool.victim eviction).slots[j]? = some t → t.key ≠ some key := by
    intro eviction key habsent j t ht
    rw [Pool.slots_evict] at ht
    rcases Pool.getElem?_modify_cases ht with ⟨s₀, -, -, rfl⟩ | ⟨-, ht⟩
    · rw [Slot.key_vacated]
      exact (Option.some_ne_none key).symm
    · exact habsent j t ht
  cases tenant with
  | none =>
      refine ⟨c.pool.victim, _, [], _, ?_, Steps.single (.report [] ?_), hs, rfl, fun _ ha => ha⟩
      · rw [makeRoom, bind_apply, get_apply, bind_apply, onPool_apply,
          c.pool.makeRoom_of_free _ hs rfl]
        rfl
      · exact fun e he => nomatch he
  | some tenant =>
      cases dirty with
      | false =>
          refine ⟨c.pool.victim, _, _, _, ?_, Steps.single (.evictClean hs rfl), hvacated _,
            Slot.key_vacated _, habsent _⟩
          rw [makeRoom, bind_apply, get_apply, bind_apply, onPool_apply,
            c.pool.makeRoom_of_clean _ hs]
          rfl
      | true =>
          obtain ⟨h, f, hf, howner⟩ := hreg.owned hs rfl
          refine ⟨c.pool.victim, _, _, _, ?_, Steps.single (.evictDirty hs hf howner rfl rfl),
            hvacated _, Slot.key_vacated _, habsent _⟩
          rw [makeRoom, bind_apply, get_apply, bind_apply, onPool_apply,
            c.pool.makeRoom_of_dirty _ hs, writeBack_eq hreg hf howner]
          rfl

/-- A block of an open file is either found, or a slot can be made free for it. -/
theorem findOrRoom_spec (hreg : c.Regular) {h : Handle} {f : OpenFile φ}
    (hf : c.table.get? h = some f) (key : BlockId) :
    (∃ i s new c', find key c = (some i, c') ∧ Steps c [] new c' ∧ c'.pool.slots[i]? = some s ∧
      s.key = some key) ∨
    (∃ i s new c₁ c', find key c = (none, c₁) ∧ makeRoom c₁ = (i, c') ∧ Steps c [] new c' ∧
      c'.table.get? h = some f ∧ c'.pool.slots[i]? = some s ∧ s.key = none ∧ c'.Absent key) := by
  rcases find_spec c key with hfound | ⟨c₁, hfind, hsteps, habsent⟩
  · exact Or.inl hfound
  · have hreg₁ := hsteps.regular hreg
    have hf₁ : c₁.table.get? h = some f := by rw [hsteps.table_tend, hf]
    obtain ⟨i, s, new, c', hroom, hsteps', hs, hfree, hkept⟩ :=
      makeRoom_spec hreg₁ (hreg₁.capacity_pos hf₁)
    have hf' : c'.table.get? h = some f := by rw [hsteps'.table_tend, hf₁]
    exact Or.inr ⟨i, s, _, c₁, c', hfind, hroom, hsteps.append hsteps', hf', hs, hfree,
      hkept key habsent⟩

theorem fetchBlock_of_ok {file : φ} {key : BlockId} {block block' : Block} {n : Nat}
    {storage storage' : σ}
    (h : Storage.readAt file block key.offset storage = ((.ok n, block'), storage')) :
    fetchBlock file key block storage = ((.ok n, block'), storage') := by
  rw [fetchBlock, bind_apply, h]
  rfl

theorem fetchBlock_of_error {file : φ} {key : BlockId} {block block' : Block} {fault : Fault}
    {storage storage' : σ}
    (h : Storage.readAt file block key.offset storage = ((.error fault, block'), storage')) :
    fetchBlock file key block storage = ((.error (.storage fault), block'), storage') := by
  rw [fetchBlock, bind_apply, h]
  rfl

/-- A block that is to be read is in a slot afterwards, or it is reported that it cannot be had. -/
theorem slotToRead_spec (hreg : c.Regular) {h : Handle} {f : OpenFile φ}
    (hf : c.table.get? h = some f) (index : Nat) :
    (∃ i s new c', slotToRead f index c = (.ok i, c') ∧ Steps c [] new c' ∧
      c'.pool.slots[i]? = some s ∧ s.key = some ⟨f.descriptor, index⟩) ∨
    (∃ e new c', slotToRead f index c = (.error e, c') ∧ Steps c [] new c' ∧
      .readFailed ⟨f.descriptor, index⟩ e ∈ new) := by
  rcases findOrRoom_spec hreg hf ⟨f.descriptor, index⟩ with
    ⟨i, s, new, c', hfind, hsteps, hs, hkey⟩ |
      ⟨i, s, new, c₁, c₂, hfind, hroom, hsteps, hf₂, hs, hfree, habsent⟩
  · refine Or.inl ⟨i, s, new, c', ?_, hsteps, hs, hkey⟩
    rw [slotToRead, bind_apply, hfind]
    rfl
  · have hblock := c₂.pool.blockAt_of_getElem? hs
    rcases hread : Storage.readAt f.file s.block (BlockId.offset ⟨f.descriptor, index⟩)
      c₂.storage with ⟨⟨outcome, block⟩, storage⟩
    rw [← hblock] at hread
    cases outcome with
    | ok n =>
        have hstep := Steps.single (Step.fill hf₂ hs hfree habsent (hblock ▸ hread))
        refine Or.inl ⟨i, (s.setBlock (block.zeroFrom n)).assign ⟨f.descriptor, index⟩, _, _, ?_,
          hsteps.append hstep, ?_, Slot.key_assign _ _⟩
        · rw [slotToRead, bind_apply, hfind]
          dsimp only
          rw [bind_apply, hroom, bind_apply, onPool_apply,
            Pool.fill_of_ok _ (fetchBlock_of_ok hread)]
          rfl
        · rw [Pool.slots_take]
          exact Pool.getElem?_modify_self hs
    | error fault =>
        have hstep := Steps.single (Step.fillFailed hf₂ hs hfree habsent (hblock ▸ hread) rfl)
        refine Or.inr ⟨.storage fault, _, _, ?_, hsteps.append hstep, ?_⟩
        · rw [slotToRead, bind_apply, hfind]
          dsimp only
          rw [bind_apply, hroom, bind_apply, onPool_apply,
            Pool.fill_of_error _ (fetchBlock_of_error hread)]
          rfl
        · exact List.mem_append_right _ List.mem_cons_self

theorem slotToWrite_of_found {f : OpenFile φ} {index i : Nat} {c₁ : Cache σ φ}
    (hfind : find ⟨f.descriptor, index⟩ c = (some i, c₁)) (whole : Bool) :
    slotToWrite f index whole c = (i, c₁) := by
  rw [slotToWrite, bind_apply, hfind]
  rfl

theorem slotToWrite_of_whole {f : OpenFile φ} {index i : Nat} {c₁ c₂ : Cache σ φ}
    (hfind : find ⟨f.descriptor, index⟩ c = (none, c₁)) (hroom : makeRoom c₁ = (i, c₂)) :
    slotToWrite f index true c =
      (i, { c₂ with pool := c₂.pool.assign i ⟨f.descriptor, index⟩ }) := by
  rw [slotToWrite, bind_apply, hfind]
  dsimp only
  rw [bind_apply, hroom]
  rfl

/-- A block of which only a part is written is read in first. -/
theorem slotToWrite_of_part {f : OpenFile φ} {index i : Nat} {c₁ c₂ : Cache σ φ}
    (hfind : find ⟨f.descriptor, index⟩ c = (none, c₁)) (hroom : makeRoom c₁ = (i, c₂))
    {failure : Option Error} {pool : Pool Scan} {storage : σ}
    (hfill : c₂.pool.fillOrZero i ⟨f.descriptor, index⟩ (fetchBlock f.file ⟨f.descriptor, index⟩)
      c₂.storage = ((failure, pool), storage)) :
    slotToWrite f index false c =
      (i, { c₂ with
        storage
        pool
        journal := c₂.journal ++
          (failure.map (Event.preReadFailed ⟨f.descriptor, index⟩)).toList }) := by
  rw [slotToWrite, bind_apply, hfind]
  dsimp only
  rw [bind_apply, hroom]
  simp only [Bool.false_eq_true, if_false]
  rw [bind_apply, onPool_apply, hfill]
  cases failure with
  | none => simp only [Option.map_none, Option.toList_none, Array.appendList_nil]; rfl
  | some e => rfl

/-- Bytes that are written to a part of one block enter the pool as one action, which is the last
step: what has to be read or written back for it comes before. -/
theorem storeChunk_spec (hreg : c.Regular) {h : Handle} {f : OpenFile φ}
    (hf : c.table.get? h = some f) (index start : Nat) (bytes : ByteArray)
    (hfits : start + bytes.size ≤ blockSize) (whole : Bool)
    (hwhole : whole = true → bytes.size = blockSize) :
    ∃ i new c₀ new' c₁, slotToWrite f index whole c = (i, c₁) ∧ Steps c [] new c₀ ∧
      Step c₀ [.store h (index * blockSize + start) bytes] new'
        { c₁ with pool := c₁.pool.write i start bytes } := by
  rcases findOrRoom_spec hreg hf ⟨f.descriptor, index⟩ with
    ⟨i, s, new, c', hfind, hsteps, hs, hkey⟩ |
      ⟨i, s, new, c₁, c₂, hfind, hroom, hsteps, hf₂, hs, hfree, habsent⟩
  · have hf' : c'.table.get? h = some f := by rw [hsteps.table_tend, hf]
    exact ⟨i, new, c', _, c', slotToWrite_of_found hfind whole, hsteps,
      .overwrite hf' hs hkey hfits⟩
  · cases whole with
    | true =>
        have hsize := hwhole rfl
        obtain rfl : start = 0 := by omega
        rw [Nat.add_zero]
        exact ⟨i, new, c₂, _, _, slotToWrite_of_whole hfind hroom, hsteps,
          .replace hf₂ hs hfree habsent hsize⟩
    | false =>
        have hblock := c₂.pool.blockAt_of_getElem? hs
        rcases hread : Storage.readAt f.file s.block (BlockId.offset ⟨f.descriptor, index⟩)
          c₂.storage with ⟨⟨outcome, block⟩, storage⟩
        rw [← hblock] at hread
        cases outcome with
        | ok n =>
            have hfill := Steps.single (Step.fill hf₂ hs hfree habsent (hblock ▸ hread))
            have hslot : (((c₂.pool.modifySlot i (·.setBlock (block.zeroFrom n))).assign i
                ⟨f.descriptor, index⟩).count Stats.filled).slots[i]? =
                some ((s.setBlock (block.zeroFrom n)).assign ⟨f.descriptor, index⟩) := by
              rw [Pool.slots_take]
              exact Pool.getElem?_modify_self hs
            have hrun := slotToWrite_of_part hfind hroom
              (Pool.fillOrZero_of_ok _ (fetchBlock_of_ok hread))
            rw [Option.map_none, Option.toList_none, Array.appendList_nil] at hrun
            exact ⟨i, _, _, _, _, hrun, hsteps.append hfill,
              .overwrite hf₂ hslot (Slot.key_assign _ _) hfits⟩
        | error fault =>
            exact ⟨i, new, c₂, _, _, slotToWrite_of_part hfind hroom
                (Pool.fillOrZero_of_error _ (fetchBlock_of_error hread)), hsteps,
              .overwriteZeros hf₂ hs hfree habsent hfits (hblock ▸ hread) rfl⟩

/-- Copying out moves blocks only; if it fails it was reported why. -/
theorem copyOut_spec {n : Nat} {h : Handle} {f : OpenFile φ} (cs : List Chunk) (buffer : Buffer n)
    (hreg : c.Regular) (hf : c.table.get? h = some f) :
    ∃ new, Steps c [] new (copyOut f cs buffer c).2 ∧
      ∀ e, (copyOut f cs buffer c).1.1 = .error e → ∃ key, .readFailed key e ∈ new := by
  induction cs generalizing c buffer with
  | nil => exact ⟨[], .nil c, fun e he => nomatch he⟩
  | cons chunk rest ih =>
      rcases slotToRead_spec hreg hf chunk.block with
        ⟨i, s, new, c₁, hslot, hsteps, -, -⟩ | ⟨e, new, c₁, hslot, hsteps, hreport⟩
      · have hf₁ : c₁.table.get? h = some f := by rw [hsteps.table_tend, hf]
        obtain ⟨news, hrest, hfail⟩ := ih (buffer.blit chunk.position
          (Bytes.slice (c₁.pool.blockAt i).bytes chunk.start chunk.length))
          (hsteps.regular hreg) hf₁
        refine ⟨new ++ news, ?_, fun e he => ?_⟩
        · rw [copyOut, bind_apply, hslot]
          exact hsteps.append hrest
        · rw [copyOut, bind_apply, hslot] at he
          obtain ⟨key, hkey⟩ := hfail e he
          exact ⟨key, List.mem_append_right _ hkey⟩
      · refine ⟨new, ?_, fun e' he => ?_⟩
        · rw [copyOut, bind_apply, hslot]
          exact hsteps
        · rw [copyOut, bind_apply, hslot] at he
          obtain rfl : e = e' := Except.error.inj he
          exact ⟨_, hreport⟩

/-- What a chunk of a byte string stores in its file. -/
def storeOf (h : Handle) (data : ByteArray) (chunk : Chunk) : Action :=
  .store h (chunk.block * blockSize + chunk.start)
    (Bytes.slice data chunk.position chunk.length)

/-- Copying in a chunk stores it, after what has to be done for it. -/
theorem copyChunk_spec (hreg : c.Regular) {h : Handle} {f : OpenFile φ}
    (hf : c.table.get? h = some f) {data : ByteArray} {chunk : Chunk}
    (hstart : chunk.start + chunk.length ≤ blockSize)
    (hposition : chunk.position + chunk.length ≤ data.size) :
    ∃ new c₀ new', Steps c [] new c₀ ∧
      Step c₀ [storeOf h data chunk] new' (copyIn f data [chunk] c).2 := by
  have hsize : (Bytes.slice data chunk.position chunk.length).size = chunk.length := by
    rw [Bytes.size_slice]
    omega
  obtain ⟨i, new, c₀, new', c₁, hslot, hbefore, hstore⟩ := storeChunk_spec hreg hf chunk.block
    chunk.start (Bytes.slice data chunk.position chunk.length) (by omega)
    (chunk.length = blockSize) fun hwhole => hsize.trans (of_decide_eq_true hwhole)
  refine ⟨new, c₀, new', hbefore, ?_⟩
  rw [copyIn, bind_apply, hslot]
  exact hstore

theorem copyIn_cons (f : OpenFile φ) (data : ByteArray) (chunk : Chunk) (rest : List Chunk)
    (c : Cache σ φ) :
    copyIn f data (chunk :: rest) c = copyIn f data rest (copyIn f data [chunk] c).2 := rfl

/-- Copying in stores one chunk after the other. -/
theorem copyIn_spec {h : Handle} {f : OpenFile φ} {data : ByteArray} {cs : List Chunk}
    (hfits : ∀ chunk ∈ cs, chunk.start + chunk.length ≤ blockSize ∧
      chunk.position + chunk.length ≤ data.size)
    (hreg : c.Regular) (hf : c.table.get? h = some f) :
    ∃ new, Steps c (cs.map (storeOf h data)) new (copyIn f data cs c).2 := by
  induction cs generalizing c with
  | nil => exact ⟨[], .nil c⟩
  | cons chunk rest ih =>
      obtain ⟨hstart, hposition⟩ := hfits chunk List.mem_cons_self
      obtain ⟨new, c₀, new', hbefore, hstore⟩ := copyChunk_spec hreg hf hstart hposition
      have hsteps := hbefore.append (.single hstore)
      have hf₁ := (congrArg (·.get? h)
        (hsteps.table_eq (by simp [storeOf, Action.keepsTable]))).trans hf
      obtain ⟨news, hrest⟩ := ih (fun ch hch => hfits ch (List.mem_cons_of_mem _ hch))
        (hsteps.regular hreg) hf₁
      rw [copyIn_cons]
      exact ⟨(new ++ new') ++ news, hsteps.append hrest⟩

/-! ### Writing back -/

/-- Writing dirty blocks of an open file back takes one step for each of them. -/
theorem writeAll_steps {h : Handle} {f : OpenFile φ} (hf : c.table.get? h = some f)
    {dirty : List Pool.DirtyBlock} (hdistinct : dirty.Pairwise fun d d' => d.slot ≠ d'.slot)
    (hdirty : ∀ d ∈ dirty, ∃ tenant, c.pool.slots[d.slot]? = some ⟨d.block, true, some tenant⟩ ∧
      tenant.key = d.key ∧ d.key.owner = f.descriptor) :
    Steps c [] []
      { c with
        storage := (Pool.writeAll (storeBlock f.file) dirty c.storage).2
        pool :=
          (Pool.writeAll (storeBlock f.file) dirty c.storage).1.foldl Pool.settle c.pool } := by
  induction dirty generalizing c with
  | nil => exact .nil c
  | cons d rest ih =>
      obtain ⟨hfirst, hdistinct⟩ := List.pairwise_cons.mp hdistinct
      obtain ⟨tenant, hs, hkey, howner⟩ := hdirty d List.mem_cons_self
      rcases hstore : storeBlock f.file d.key d.block c.storage with ⟨outcome, storage⟩
      have hstep := Step.flush hs hf (hkey ▸ howner.symm) (hkey ▸ hstore)
      rw [hkey] at hstep
      rw [Pool.writeAll_cons, hstore]
      refine Steps.cons hstep (ih hf hdistinct fun d' hd' => ?_)
      obtain ⟨tenant', hs', hkey', howner'⟩ := hdirty d' (List.mem_cons_of_mem _ hd')
      have hother := c.pool.getElem?_settle_other ⟨d.slot, d.key, outcome⟩ (hfirst d' hd').symm
      exact ⟨tenant', hother.trans hs', hkey', howner'⟩

/-- The cache after the dirty blocks of an open file were written back. -/
def flushed (c : Cache σ φ) (f : OpenFile φ) : Cache σ φ :=
  { c with
    storage := (c.pool.flush f.descriptor (storeBlock f.file) c.storage).2
    pool := (c.pool.flush f.descriptor (storeBlock f.file) c.storage).1.2
    journal := c.journal ++
      (c.pool.flush f.descriptor (storeBlock f.file) c.storage).1.1.events }

/-- Whether all the dirty blocks of an open file can be written back. -/
def flushOutcome (c : Cache σ φ) (f : OpenFile φ) : Except Error Unit :=
  if 0 < (c.pool.flush f.descriptor (storeBlock f.file) c.storage).1.1.failed then
    .error .blocksNotWritten
  else .ok ()

theorem events_flush_isNote (flush : Pool.Flush) : ∀ e ∈ flush.events, e.isNote = true := by
  intro e he
  rcases List.mem_append.mp he with he | he
  · obtain ⟨a, -, ha⟩ := List.mem_filterMap.mp he
    split at ha
    · cases ha
    · obtain rfl := Option.some.inj ha
      rfl
  · obtain rfl := List.mem_singleton.mp he
    rfl

theorem flushed_steps {h : Handle} {f : OpenFile φ} (hf : c.table.get? h = some f) :
    ∃ new, Steps c [] new (c.flushed f) ∧ ∀ e ∈ new, e.isNote = true := by
  have hwrite : Steps c [] []
      { c with
        storage := (c.pool.flush f.descriptor (storeBlock f.file) c.storage).2
        pool := (c.pool.flush f.descriptor (storeBlock f.file) c.storage).1.2 } := by
    refine writeAll_steps hf (c.pool.pairwise_dirtyBlocks _) fun d hd => ?_
    obtain ⟨tenant, hs, hkey, howner⟩ := c.pool.mem_dirtyBlocks.mp hd
    exact ⟨tenant, hs, hkey, howner⟩
  exact ⟨_, hwrite.append (.single (.report _ (events_flush_isNote _))), events_flush_isNote _⟩

/-- A file of which all blocks were written back has no dirty block. -/
theorem flushed_clean {f : OpenFile φ} (hok : flushOutcome c f = .ok ()) {i : Nat} {s : Slot}
    (hs : (c.flushed f).pool.slots[i]? = some s) {key : BlockId} (hkey : s.key = some key)
    (howner : key.owner = f.descriptor) : s.dirty = false := by
  refine c.pool.flush_clean ?_ hs hkey howner
  unfold flushOutcome at hok
  split at hok
  · cases hok
  · omega

theorem sync_of_none {h : Handle} (hf : c.table.get? h = none) :
    sync h c = (.error .notOpen, c) := by
  rw [sync, bind_apply, get_apply, c.table.get_of_none hf]
  rfl

theorem close_of_none {h : Handle} (hf : c.table.get? h = none) :
    close h c = (.error .notOpen, c) := by
  rw [close, bind_apply, get_apply, c.table.get_of_none hf]
  rfl

theorem sync_of_error {h : Handle} {f : OpenFile φ} (hf : c.table.get? h = some f) {fault : Fault}
    {storage : σ} (hsync : Storage.sync f.file (c.flushed f).storage = (.error fault, storage)) :
    sync h c = (.error (.storage fault), { c.flushed f with storage }) := by
  rw [sync, bind_apply, get_apply, c.table.get_of_some hf]
  dsimp only
  rw [bind_apply, onPool_apply, bind_apply, report_apply, bind_apply, onStorage_apply]
  dsimp only [flushed] at hsync ⊢
  rw [hsync]
  rfl

theorem sync_of_ok {h : Handle} {f : OpenFile φ} (hf : c.table.get? h = some f) {storage : σ}
    (hsync : Storage.sync f.file (c.flushed f).storage = (.ok (), storage)) :
    sync h c = (flushOutcome c f, (trim f { c.flushed f with storage }).2) := by
  rw [sync, bind_apply, get_apply, c.table.get_of_some hf]
  dsimp only
  rw [bind_apply, onPool_apply, bind_apply, report_apply, bind_apply, onStorage_apply]
  dsimp only [flushed] at hsync ⊢
  rw [hsync]
  rfl

/-- The storage after the dirty blocks of an open file were written back and made durable. -/
def durable (c : Cache σ φ) (f : OpenFile φ) : σ :=
  (Storage.sync f.file (c.flushed f).storage).2

theorem trim_of_ok {f : OpenFile φ} {storage : σ}
    (hset : Storage.setLen f.file f.size c.storage = (.ok (), storage)) :
    trim f c = ((), { c with storage }) := by
  rw [trim, bind_apply, onStorage_apply, hset]
  rfl

theorem trim_of_error {f : OpenFile φ} {fault : Fault} {storage : σ}
    (hset : Storage.setLen f.file f.size c.storage = (.error fault, storage)) :
    trim f c =
      ((), { c with
        storage
        journal := c.journal ++ [Event.resizeFailed f.descriptor f.size (.storage fault)] }) := by
  rw [trim, bind_apply, onStorage_apply, hset]
  rfl

/-- A sync that succeeds, and cuts the file, has written back all dirty blocks before that. -/
theorem sync_of_cut {h : Handle} {f : OpenFile φ} (hf : c.table.get? h = some f)
    (hsync : sync h c = (.ok (), c'))
    (hcut : (Storage.setLen f.file f.size (c.durable f)).1 = .ok ()) :
    flushOutcome c f = .ok () ∧
      Storage.sync f.file (c.flushed f).storage = (.ok (), c.durable f) ∧
      c' = { c.flushed f with storage := (Storage.setLen f.file f.size (c.durable f)).2 } := by
  rcases hdurable : Storage.sync f.file (c.flushed f).storage with ⟨outcome, storage⟩
  have hstorage : c.durable f = storage := by rw [durable, hdurable]
  cases outcome with
  | error fault =>
      rw [sync_of_error hf hdurable] at hsync
      cases hsync
  | ok _ =>
      rw [sync_of_ok hf hdurable] at hsync
      obtain ⟨houtcome, rfl⟩ := Prod.mk.inj hsync
      rw [hstorage] at hcut ⊢
      have htrim : trim f { c.flushed f with storage } = _ := trim_of_ok (Prod.ext hcut rfl)
      exact ⟨houtcome, rfl, by rw [htrim]⟩

/-- After a sync that succeeds the file has no dirty block. -/
theorem sync_clean {h : Handle} {f : OpenFile φ} (hf : c.table.get? h = some f)
    (hok : (sync h c).1 = .ok ()) : (sync h c).2.pool.dirtyBlocks f.descriptor = [] := by
  have hflushed : flushOutcome c f = .ok () ∧ (sync h c).2.pool = (c.flushed f).pool := by
    rcases hsync : Storage.sync f.file (c.flushed f).storage with ⟨outcome, storage⟩
    cases outcome with
    | error fault =>
        rw [sync_of_error hf hsync] at hok
        cases hok
    | ok _ =>
        rw [sync_of_ok hf hsync] at hok ⊢
        refine ⟨hok, ?_⟩
        rcases hset : Storage.setLen f.file f.size storage with ⟨outcome, trimmed⟩
        cases outcome with
        | ok _ => rw [trim_of_ok hset]
        | error fault => rw [trim_of_error hset]
  rw [hflushed.2]
  refine (Pool.dirtyBlocks_eq_nil _).mpr fun i s key hs hkey howner => ?_
  exact flushed_clean hflushed.1 hs hkey howner

/-- Writing a file back that has no dirty block makes no call. -/
theorem storage_flushed_of_clean {f : OpenFile φ} (hclean : c.pool.dirtyBlocks f.descriptor = []) :
    (c.flushed f).storage = c.storage := by
  rw [flushed, Pool.flush_apply, hclean]
  rfl

/-- Syncing writes back first, and fails if the storage does. Otherwise it ends as writing back did
and trims the file; that trimming failed is only reported. -/
theorem sync_spec {h : Handle} {f : OpenFile φ} (hf : c.table.get? h = some f) :
    ∃ new c₁, Steps c [] new c₁ ∧ (∀ e ∈ new, e.isNote = true) ∧ c₁.table = c.table ∧
      c₁.pool = (c.flushed f).pool ∧
      ((∃ fault, sync h c = (.error (.storage fault), c₁)) ∨
        (∃ c', Step c₁ [.trim h] [] c' ∧ c'.pool = c₁.pool ∧ sync h c = (flushOutcome c f, c')) ∨
        (∃ fault c', Step c₁ [] [.resizeFailed f.descriptor f.size (.storage fault)] c' ∧
          sync h c = (flushOutcome c f, c'))) := by
  obtain ⟨new, hflush, hnote⟩ := flushed_steps hf
  rcases hsync : Storage.sync f.file (c.flushed f).storage with ⟨outcome, storage⟩
  have hsteps := hflush.append (.single (.sync hf hsync))
  simp only [List.append_nil] at hsteps
  refine ⟨_, _, hsteps, hnote, rfl, rfl, ?_⟩
  cases outcome with
  | error fault => exact Or.inl ⟨fault, sync_of_error hf hsync⟩
  | ok _ =>
      apply Or.inr
      rw [sync_of_ok hf hsync]
      rcases hset : Storage.setLen f.file f.size storage with ⟨outcome, trimmed⟩
      cases outcome with
      | ok _ =>
          have htrim : Step { c.flushed f with storage } [.trim h] [] _ := .trim hf hset
          refine Or.inl ⟨_, htrim, rfl, ?_⟩
          rw [trim_of_ok hset]
      | error fault =>
          have htrim : Step { c.flushed f with storage } [] _ _ := .trimFailed hf hset rfl
          refine Or.inr ⟨fault, _, htrim, ?_⟩
          rw [trim_of_error hset]

/-- Closing drops the handle after syncing it, whether or not that succeeded. -/
theorem close_spec {h : Handle} {f : OpenFile φ} (hf : c.table.get? h = some f)
    (hf' : (sync h c).2.table.get? h = some f) :
    ∃ new c₁ c', Steps (sync h c).2 [] new c₁ ∧ c₁.storage = (sync h c).2.storage ∧
      c₁.table = (sync h c).2.table ∧ Step c₁ [.drop h]
        [.closed h.index f.descriptor (c₁.pool.forget f.descriptor).1] c' ∧
      c'.storage = (Storage.close f.file c₁.storage).2 ∧ c'.table = c₁.table.remove h ∧
      close h c = ((sync h c).1, c') := by
  rcases hsync : sync h c with ⟨outcome, c₁⟩
  rw [hsync] at hf'
  cases outcome with
  | ok _ =>
      refine ⟨_, c₁, _, .nil c₁, rfl, rfl, .drop hf' rfl, rfl, rfl, ?_⟩
      rw [close, bind_apply, get_apply, c.table.get_of_some hf]
      dsimp only
      rw [bind_apply, hsync]
      rfl
  | error e =>
      have hnote : ∀ e' ∈ [Event.closeSyncFailed h.index e], e'.isNote = true := by
        simp [Event.isNote]
      refine ⟨_, _, _, .single (.report _ hnote), rfl, rfl, .drop hf' rfl, rfl, rfl, ?_⟩
      rw [close, bind_apply, get_apply, c.table.get_of_some hf]
      dsimp only
      rw [bind_apply, hsync]
      rfl

/-! ### Opening -/

/-- Either the pool has its slots then, or they cannot be allocated. -/
theorem allocate_spec (c : Cache σ φ) :
    ∃ new c', Steps c [] new c' ∧ c'.storage = c.storage ∧ c'.table = c.table ∧
      ((allocate c = (.ok (), c') ∧ c'.isAllocated = true) ∨
        (allocate c = (.error .poolUnavailable, c') ∧
          ∃ e, Pool.create c.slotCount Scan.mk c.allocator = .error e)) := by
  cases hall : c.isAllocated with
  | true =>
      refine ⟨[], c, .nil c, rfl, rfl, Or.inl ⟨?_, hall⟩⟩
      rw [allocate, bind_apply, get_apply]
      dsimp only
      rw [hall]
      rfl
  | false =>
      cases hpool : Pool.create c.slotCount Scan.mk c.allocator with
      | ok pool =>
          refine ⟨_, _, .single (.allocate hall hpool rfl), rfl, rfl, Or.inl ⟨?_, ?_⟩⟩
          · rw [allocate, bind_apply, get_apply]
            dsimp only
            rw [hall, hpool]
            rfl
          · obtain ⟨hpos, hslots⟩ := Pool.slots_create hpool
            apply decide_eq_true
            rw [Pool.capacity, hslots, Array.size_replicate]
            exact hpos
      | error e =>
          have hnote : ∀ e' ∈ [Event.poolFailed e], e'.isNote = true := by simp [Event.isNote]
          refine ⟨_, _, .single (.report _ hnote), rfl, rfl, Or.inr ⟨?_, e, rfl⟩⟩
          rw [allocate, bind_apply, get_apply]
          dsimp only
          rw [hall, hpool]
          rfl

/-- What is asked of a storage that opens a file: no open file has its descriptor. -/
def FreshDescriptor (c : Cache σ φ) (path : String) (flags : OpenFlags) (mode : Nat) : Prop :=
  ∀ file, (Storage.openFile path flags mode c.storage).1 = .ok file →
    ∀ h f, c.table.get? h = some f → f.descriptor ≠ Storage.descriptor σ file

/-- The cache after a file was bound to a place. -/
def bound (c : Cache σ φ) (path : String) (flags : OpenFlags) (place : Nat) (file : φ) (size : Nat)
    (storage : σ) : Cache σ φ :=
  { c with
    storage
    table := ⟨c.table.entries.modify place fun _ =>
      some (OpenFile.fresh file (Storage.descriptor σ file) size flags)⟩
    journal := c.journal ++ [Event.opened path place (Storage.descriptor σ file) size] }

theorem openFile_of_allocated (path : String) (flags : OpenFlags) (mode : Nat)
    (hall : allocate c = (.ok (), c')) :
    openFile path flags mode c =
      if c'.table.lowestFree.isNone then
        (.error .tableFull, { c' with journal := c'.journal ++ [Event.tableFull path] })
      else
        match Storage.openFile path flags mode c'.storage with
        | (.error fault, storage) => (.error (.storage fault), { c' with storage })
        | (.ok file, storage) => bindFile path flags file { c' with storage } := by
  rw [openFile, bind_apply, hall]
  dsimp only
  rw [bind_apply, get_apply]
  dsimp only
  split
  · rfl
  · rw [bind_apply, onStorage_apply]
    rcases Storage.openFile path flags mode c'.storage with ⟨outcome, storage⟩
    cases outcome <;> rfl

theorem bindFile_of_error {path : String} {flags : OpenFlags} {file : φ} {fault : Fault}
    {storage : σ} (hsize : Storage.size file c.storage = (.error fault, storage)) :
    bindFile path flags file c =
      (.error (.storage fault), { c with storage := (Storage.close file storage).2 }) := by
  rw [bindFile, bind_apply, onStorage_apply, hsize]
  rfl

theorem bindFile_of_ok {path : String} {flags : OpenFlags} {file : φ} {size i : Nat} {storage : σ}
    (hsize : Storage.size file c.storage = (.ok size, storage))
    (hplace : c.table.lowestFree = some i) :
    bindFile path flags file c = (.ok ⟨i⟩, c.bound path flags i file size storage) := by
  rw [bindFile, bind_apply, onStorage_apply, hsize]
  dsimp only
  rw [bind_apply, get_apply, c.table.add_of_lowestFree hplace]
  rfl

/-- Opening fails before the storage is asked, or with the storage, or it binds the file to the
first free place. -/
theorem openFile_spec {path : String} {flags : OpenFlags} {mode : Nat}
    (hfresh : FreshDescriptor c path flags mode) :
    ∃ new c₁, Steps c [] new c₁ ∧ c₁.storage = c.storage ∧ c₁.table = c.table ∧
      ((∃ e, openFile path flags mode c = (.error e, c₁) ∧
          (c.table.lowestFree = none ∧ e = .tableFull ∨
            e = .poolUnavailable ∧ ∃ e', Pool.create c.slotCount Scan.mk c.allocator = .error e')) ∨
        (∃ i fault c', c.table.lowestFree = some i ∧ Step c₁ [.visit path] [] c' ∧
          openFile path flags mode c = (.error (.storage fault), c') ∧ c'.table = c.table ∧
          (Storage.openFile path flags mode c.storage = (.error fault, c'.storage) ∨
            ∃ file opened sized, Storage.openFile path flags mode c.storage = (.ok file, opened) ∧
              Storage.size file opened = (.error fault, sized))) ∨
        (∃ i file size opened sized, c₁.table.lowestFree = some i ∧ c₁.isAllocated = true ∧
          Storage.openFile path flags mode c₁.storage = (.ok file, opened) ∧
          Storage.size file opened = (.ok size, sized) ∧
          (∀ h f, c₁.table.get? h = some f → f.descriptor ≠ Storage.descriptor σ file) ∧
          openFile path flags mode c = (.ok ⟨i⟩, c₁.bound path flags i file size sized))) := by
  obtain ⟨new, c₁, hsteps, hstorage, htable, ⟨hall, hallocated⟩ | ⟨hall, hcreate⟩⟩ :=
    allocate_spec c
  · have hopen := openFile_of_allocated path flags mode hall
    rw [← htable, ← hstorage]
    cases hplace : c₁.table.lowestFree with
    | none =>
        have hnote : ∀ e ∈ [Event.tableFull path], e.isNote = true := by simp [Event.isNote]
        rw [hplace, if_pos Option.isNone_none] at hopen
        exact ⟨_, _, hsteps.append (.single (.report _ hnote)), rfl, rfl,
          Or.inl ⟨_, hopen, Or.inl ⟨rfl, rfl⟩⟩⟩
    | some i =>
        rw [hplace, if_neg (by simp)] at hopen
        refine ⟨new, c₁, hsteps, rfl, rfl, Or.inr ?_⟩
        rcases hrun : Storage.openFile path flags mode c₁.storage with ⟨outcome, opened⟩
        rw [hrun] at hopen
        cases outcome with
        | error fault =>
            exact Or.inl ⟨i, fault, _, rfl, .refuse hrun, hopen, rfl, Or.inl rfl⟩
        | ok file =>
            dsimp only at hopen
            rcases hsize : Storage.size file opened with ⟨outcome, sized⟩
            cases outcome with
            | error fault =>
                have hgone := hopen.trans (bindFile_of_error hsize)
                exact Or.inl ⟨i, fault, _, rfl, .abandon hrun hsize, hgone, rfl,
                  Or.inr ⟨file, opened, sized, rfl, hsize⟩⟩
            | ok size =>
                have hbound := hopen.trans (bindFile_of_ok hsize hplace)
                have hfresh₁ : ∀ h f, c₁.table.get? h = some f →
                    f.descriptor ≠ Storage.descriptor σ file := by
                  rw [htable]
                  exact hfresh file (by rw [← hstorage, hrun])
                exact Or.inr ⟨i, file, size, opened, sized, hplace, hallocated, rfl, hsize, hfresh₁,
                  hbound⟩
  · refine ⟨new, c₁, hsteps, hstorage, htable, Or.inl ⟨.poolUnavailable, ?_, Or.inr ⟨rfl, hcreate⟩⟩⟩
    rw [openFile, bind_apply, hall]
    rfl

/-! ### Reading and writing -/

theorem read_of_none {n : Nat} {h : Handle} (hf : c.table.get? h = none) (buffer : Buffer n) :
    read h buffer c = ((.error .notOpen, buffer), c) := by
  rw [read, bind_apply, get_apply, c.table.get_of_none hf]
  rfl

theorem read_of_end {n : Nat} {h : Handle} {f : OpenFile φ} (hf : c.table.get? h = some f)
    (hend : f.size ≤ f.cursor) (buffer : Buffer n) :
    read h buffer c = ((.ok 0, buffer), c) := by
  rw [read, bind_apply, get_apply, c.table.get_of_some hf]
  dsimp only
  rw [if_pos hend]
  rfl

def readChunks (f : OpenFile φ) (n : Nat) : List Chunk :=
  chunks f.cursor (min n (f.size - f.cursor))

theorem read_of_error {n : Nat} {h : Handle} {f : OpenFile φ} (hf : c.table.get? h = some f)
    (hlt : f.cursor < f.size) {buffer : Buffer n} {e : Error}
    (hcopy : (copyOut f (readChunks f n) buffer c).1.1 = .error e) :
    read h buffer c =
      ((.error e, (copyOut f (readChunks f n) buffer c).1.2),
        (copyOut f (readChunks f n) buffer c).2) := by
  rw [read, bind_apply, get_apply, c.table.get_of_some hf]
  dsimp only
  rw [if_neg (Nat.not_le.mpr hlt), bind_apply]
  dsimp only [readChunks] at hcopy ⊢
  rw [hcopy]
  rfl

theorem read_of_ok {n : Nat} {h : Handle} {f : OpenFile φ} (hf : c.table.get? h = some f)
    (hlt : f.cursor < f.size) {buffer buffer' : Buffer n}
    (hcopy : copyOut f (readChunks f n) buffer c = ((.ok (), buffer'), c')) :
    read h buffer c =
      ((.ok (min n (f.size - f.cursor)), buffer'),
        { c' with
          table := c'.table.modify h (·.moveBy (min n (f.size - f.cursor)) false)
          journal := c'.journal ++
            [Event.hasRead f.descriptor f.cursor (min n (f.size - f.cursor))] }) := by
  rw [read, bind_apply, get_apply, c.table.get_of_some hf]
  dsimp only
  rw [if_neg (Nat.not_le.mpr hlt), bind_apply, show copyOut f (chunks _ _) _ _ = _ from hcopy]
  rfl

/-- A read delivers as many bytes as there are, or it was reported which block could not be read. -/
theorem read_outcome {n : Nat} (hreg : c.Regular) {h : Handle} {f : OpenFile φ}
    (hf : c.table.get? h = some f) (buffer : Buffer n) :
    (∃ e key, (read h buffer c).1.1 = .error e ∧ .readFailed key e ∈ (read h buffer c).2.since c) ∨
      (read h buffer c).1.1 = .ok (min n (f.size - f.cursor)) := by
  by_cases hend : f.size ≤ f.cursor
  · rw [read_of_end hf hend, Nat.sub_eq_zero_of_le hend, Nat.min_zero]
    exact Or.inr rfl
  have hlt := Nat.not_le.mp hend
  obtain ⟨new, hsteps, hreport⟩ := copyOut_spec (readChunks f n) buffer hreg hf
  rcases hcopy : copyOut f (readChunks f n) buffer c with ⟨⟨outcome, buffer'⟩, c₁⟩
  rw [hcopy] at hsteps hreport
  cases outcome with
  | error e =>
      obtain ⟨key, hkey⟩ := hreport e rfl
      rw [read_of_error hf hlt (by rw [hcopy]), hcopy]
      refine Or.inl ⟨e, key, rfl, ?_⟩
      rw [hsteps.since_eq]
      exact hkey
  | ok _ =>
      rw [read_of_ok hf hlt hcopy]
      exact Or.inr rfl

/-- A read that succeeds moves the cursor past what it delivered. -/
theorem get?_read {n count : Nat} (hreg : c.Regular) {h : Handle} {f : OpenFile φ}
    (hf : c.table.get? h = some f) {buffer : Buffer n}
    (hok : (read h buffer c).1.1 = .ok count) (h' : Handle) :
    (read h buffer c).2.table.get? h' =
      if h' = h then some (f.moveTo (f.cursor + count)) else c.table.get? h' := by
  by_cases hend : f.size ≤ f.cursor
  · rw [read_of_end hf hend] at hok ⊢
    obtain rfl := Except.ok.inj hok
    split
    · rename_i hh
      rw [hh, hf]
      rfl
    · rfl
  have hlt := Nat.not_le.mp hend
  obtain ⟨new, hsteps, -⟩ := copyOut_spec (readChunks f n) buffer hreg hf
  rcases hcopy : copyOut f (readChunks f n) buffer c with ⟨⟨outcome, buffer'⟩, c₁⟩
  rw [hcopy] at hsteps
  cases outcome with
  | error e =>
      rw [read_of_error hf hlt (by rw [hcopy])] at hok
      cases hok
  | ok _ =>
      rw [read_of_ok hf hlt hcopy] at hok ⊢
      obtain rfl := Except.ok.inj hok
      dsimp only
      rw [hsteps.table_tend, FileTable.get?_modify]
      by_cases hh : h = h'
      · rw [if_pos hh, if_pos hh.symm, ← hh, hf]
        rfl
      · rw [if_neg hh, if_neg (Ne.symm hh)]

theorem write_of_none {h : Handle} (hf : c.table.get? h = none) (data : ByteArray) :
    write h data c = (.error .notOpen, c) := by
  rw [write, bind_apply, get_apply, c.table.get_of_none hf]
  rfl

/-- Where a write starts. -/
def writeStart (f : OpenFile φ) : Nat :=
  if f.flags.contains OpenFlags.append then f.size else f.cursor

/-- A write that fails moves the cursor all the same. -/
theorem write_of_far {h : Handle} {f : OpenFile φ} (hf : c.table.get? h = some f) {data : ByteArray}
    (hfar : maxOffset < writeStart f + data.size) :
    write h data c =
      (.error .writeTooFar, { c with table := c.table.modify h (·.moveTo (writeStart f)) }) := by
  rw [write, bind_apply, get_apply, c.table.get_of_some hf]
  dsimp only
  rw [bind_apply, onTable_apply]
  unfold writeStart at hfar ⊢
  dsimp only
  rw [if_pos hfar]
  rfl

theorem write_of_near {h : Handle} {f : OpenFile φ} (hf : c.table.get? h = some f)
    {data : ByteArray} (hnear : writeStart f + data.size ≤ maxOffset)
    (hcopy : copyIn f data (chunks (writeStart f) data.size)
      { c with table := c.table.modify h (·.moveTo (writeStart f)) } = ((), c')) :
    write h data c =
      (.ok data.size,
        { c' with
          table := c'.table.modify h (·.moveBy data.size true)
          journal := c'.journal ++
            [Event.hasWritten f.descriptor (writeStart f) data.size] }) := by
  rw [write, bind_apply, get_apply, c.table.get_of_some hf]
  dsimp only
  rw [bind_apply, onTable_apply]
  unfold writeStart at hnear hcopy ⊢
  dsimp only
  rw [if_neg (Nat.not_lt.mpr hnear), bind_apply, hcopy]
  rfl

/-- Where the cursor is does not matter for copying in. -/
theorem copyIn_moveTo (f : OpenFile φ) (offset : Nat) (data : ByteArray) (cs : List Chunk)
    (c : Cache σ φ) : copyIn (f.moveTo offset) data cs c = copyIn f data cs c := by
  induction cs generalizing c with
  | nil => rfl
  | cons chunk rest ih =>
      rw [copyIn, copyIn, bind_apply, bind_apply, bind_apply, bind_apply, ih]
      rfl

/-- A write that does not reach too far moves the cursor to where it starts, stores the data, and
moves the cursor past it. -/
theorem write_spec (hreg : c.Regular) {h : Handle} {f : OpenFile φ}
    (hf : c.table.get? h = some f) {data : ByteArray}
    (hnear : writeStart f + data.size ≤ maxOffset) :
    ∃ c₁ new c₂ c₃ c', Step c [.move h] [] c₁ ∧
      c₁ = { c with table := c.table.modify h (·.moveTo (writeStart f)) } ∧
      Steps c₁ ((chunks (writeStart f) data.size).map (storeOf h data)) new c₂ ∧
      c₂.table = c₁.table ∧ Step c₂ [.move h] [] c₃ ∧
      c₃ = { c₂ with table := c₂.table.modify h (·.moveBy data.size true) } ∧
      Steps c₃ [] [.hasWritten f.descriptor (writeStart f) data.size] c' ∧ c'.table = c₃.table ∧
      write h data c = (.ok data.size, c') := by
  have hmove : Step c [.move h] [] _ :=
    .move (·.moveTo (writeStart f)) hf rfl rfl rfl (Nat.le_refl _)
  have hreg₁ := hmove.regular hreg
  have hf₁ := c.table.get?_modify_self hf (·.moveTo (writeStart f))
  have hfits : ∀ chunk ∈ chunks (writeStart f) data.size, chunk.start + chunk.length ≤ blockSize ∧
      chunk.position + chunk.length ≤ data.size := by
    intro chunk hchunk
    have hspec := mem_chunks hchunk
    exact ⟨hspec.1, hspec.2.2.1⟩
  obtain ⟨new, hsteps⟩ := copyIn_spec hfits hreg₁ hf₁
  have htable := hsteps.table_eq fun a ha => by
    obtain ⟨chunk, -, rfl⟩ := List.mem_map.mp ha
    rfl
  rw [copyIn_moveTo] at hsteps htable
  rcases hcopy : copyIn f data (chunks (writeStart f) data.size)
    { c with table := c.table.modify h (·.moveTo (writeStart f)) } with ⟨_, c₂⟩
  rw [hcopy] at hsteps htable
  have hf₂ : c₂.table.get? h = some (f.moveTo (writeStart f)) := by
    rw [htable]
    exact hf₁
  have hmove₂ : Step c₂ [.move h] [] _ :=
    .move (·.moveBy data.size true) hf₂ rfl rfl rfl (Nat.le_max_left _ _)
  have hnote : ∀ e ∈ [Event.hasWritten f.descriptor (writeStart f) data.size],
      e.isNote = true := by simp [Event.isNote]
  exact ⟨_, new, c₂, _, _, hmove, rfl, hsteps, htable, hmove₂, rfl, .single (.report _ hnote), rfl,
    write_of_near hf hnear hcopy⟩

/-- A write that does not reach too far succeeds, whatever the storage does. -/
theorem outcome_write (hreg : c.Regular) {h : Handle} {f : OpenFile φ}
    (hf : c.table.get? h = some f) {data : ByteArray}
    (hnear : writeStart f + data.size ≤ maxOffset) : (write h data c).1 = .ok data.size := by
  obtain ⟨_, _, _, _, _, -, -, -, -, -, -, -, -, hwrite⟩ := write_spec hreg hf hnear
  rw [hwrite]

/-- A write moves the cursor past what it wrote, and the file reaches at least as far then. -/
theorem get?_write (hreg : c.Regular) {h : Handle} {f : OpenFile φ}
    (hf : c.table.get? h = some f) {data : ByteArray}
    (hnear : writeStart f + data.size ≤ maxOffset) (h' : Handle) :
    (write h data c).2.table.get? h' =
      if h' = h then some ((f.moveTo (writeStart f)).moveBy data.size true)
      else c.table.get? h' := by
  obtain ⟨c₁, new, c₂, c₃, c', -, heq₁, -, htable, -, heq₃, -, htable', hwrite⟩ :=
    write_spec hreg hf hnear
  rw [hwrite]
  dsimp only
  rw [htable', heq₃]
  dsimp only
  rw [htable, heq₁]
  dsimp only
  rw [FileTable.get?_modify, FileTable.get?_modify]
  by_cases hh : h = h'
  · rw [if_pos hh, if_pos hh, if_pos hh.symm, ← hh, hf]
    rfl
  · rw [if_neg hh, if_neg hh, if_neg (Ne.symm hh)]

/-! ### Any call -/

/-- What a request asks of the storage: a file that it opens has a descriptor of its own. -/
def IsFresh (c : Cache σ φ) : Request → Prop
  | .openFile path flags mode => FreshDescriptor c path flags mode
  | _ => True

theorem freshDescriptor_iff {path : String} {flags : OpenFlags} {mode : Nat} :
    FreshDescriptor c path flags mode ↔
      ((Storage.openFile path flags mode c.storage).1.toOption.all fun file =>
        (c.table.ownerOf (Storage.descriptor σ file)).isNone) = true := by
  unfold FreshDescriptor
  cases (Storage.openFile path flags mode c.storage).1 with
  | error fault => simp [Except.toOption]
  | ok file =>
      rw [Except.toOption, Option.all_some, Option.isNone_iff_eq_none,
        c.table.ownerOf_eq_none_iff]
      exact ⟨fun hall => hall file rfl, fun hfile file' hok => Except.ok.inj hok ▸ hfile⟩

instance decFreshDescriptor (c : Cache σ φ) (path : String) (flags : OpenFlags) (mode : Nat) :
    Decidable (FreshDescriptor c path flags mode) :=
  decidable_of_iff _ freshDescriptor_iff.symm

instance decIsFresh (c : Cache σ φ) : (request : Request) → Decidable (c.IsFresh request)
  | .openFile path flags mode => inferInstanceAs (Decidable (FreshDescriptor c path flags mode))
  | .close _ | .sync _ | .read .. | .write .. | .seek .. | .position _ | .length _ | .flags _
  | .isResident .. => isTrue trivial

/-- Whether every file that is opened in a session has a descriptor that no open file has. -/
def AllFresh : List Request → Cache σ φ → Prop
  | [], _ => True
  | request :: rest, c => c.IsFresh request ∧ AllFresh rest (serve request c).2

instance decAllFresh : (requests : List Request) → (c : Cache σ φ) → Decidable (AllFresh requests c)
  | [], _ => isTrue trivial
  | request :: rest, c =>
      have := decAllFresh rest (serve request c).2
      inferInstanceAs (Decidable (c.IsFresh request ∧ AllFresh rest (serve request c).2))

theorem openFile_steps {path : String} {flags : OpenFlags} {mode : Nat}
    (hfresh : FreshDescriptor c path flags mode) :
    ∃ as new, Steps c as new (openFile path flags mode c).2 ∧ ∀ a ∈ as, a.handle? = none := by
  obtain ⟨new, c₁, hsteps, -, -, ⟨e, hopen, -⟩ | ⟨_, _, c', -, hstep, hopen, -⟩ |
    ⟨_, _, _, _, _, hplace, hallocated, hrun, hsize, hfresh₁, hopen⟩⟩ := openFile_spec hfresh
  · rw [hopen]
    exact ⟨_, _, hsteps, fun _ ha => nomatch ha⟩
  · rw [hopen]
    exact ⟨_, _, hsteps.append (.single hstep), by simp [Action.handle?]⟩
  · rw [hopen]
    exact ⟨_, _, hsteps.append (.single (.bind hplace hallocated hrun hsize hfresh₁ rfl)),
      by simp [Action.handle?]⟩

/-- A sync does nothing but trim. -/
theorem sync_steps_trim (c : Cache σ φ) (h : Handle) :
    ∃ as new, Steps c as new (sync h c).2 ∧ (∀ a ∈ as, a = .trim h) ∧
      (sync h c).2.table = c.table := by
  cases hf : c.table.get? h with
  | none =>
      rw [sync_of_none hf]
      exact ⟨[], [], .nil c, fun _ ha => (nomatch ha), rfl⟩
  | some f =>
      obtain ⟨new, c₁, hsteps, -, htable, -, ⟨fault, hsync⟩ | ⟨c', hstep, -, hsync⟩ |
        ⟨fault, c', hstep, hsync⟩⟩ := sync_spec hf
      · rw [hsync]
        exact ⟨_, _, hsteps, fun _ ha => (nomatch ha), htable⟩
      · rw [hsync, ← htable]
        exact ⟨_, _, hsteps.append (.single hstep), by simp,
          hstep.table_eq (by simp [Action.keepsTable])⟩
      · rw [hsync, ← htable]
        exact ⟨_, _, hsteps.append (.single hstep), by simp,
          hstep.table_eq fun _ ha => nomatch ha⟩

theorem sync_steps (c : Cache σ φ) (h : Handle) :
    ∃ as new, Steps c as new (sync h c).2 ∧ (∀ a ∈ as, a.keepsBytes = true) ∧
      (sync h c).2.table = c.table := by
  obtain ⟨as, new, hsteps, hkeep, htable⟩ := sync_steps_trim c h
  refine ⟨as, new, hsteps, fun a ha => ?_, htable⟩
  rw [hkeep a ha]
  rfl

/-- A close does nothing but trim and drop. -/
theorem close_steps_drop (c : Cache σ φ) (h : Handle) :
    ∃ as new, Steps c as new (close h c).2 ∧ ∀ a ∈ as, a = .trim h ∨ a = .drop h := by
  cases hf : c.table.get? h with
  | none =>
      rw [close_of_none hf]
      exact ⟨[], [], .nil c, fun _ ha => nomatch ha⟩
  | some f =>
      obtain ⟨as, new, hsync, hkeep, htable⟩ := sync_steps_trim c h
      obtain ⟨news, c₁, c', hsteps, -, -, hdrop, -, -, hclose⟩ := close_spec hf (by rw [htable, hf])
      rw [hclose]
      refine ⟨_, _, (hsync.append hsteps).append (.single hdrop), fun a ha => ?_⟩
      rw [List.append_nil, List.mem_append] at ha
      rcases ha with ha | ha
      · exact Or.inl (hkeep a ha)
      · exact Or.inr (List.mem_singleton.mp ha)

theorem close_steps (c : Cache σ φ) (h : Handle) :
    ∃ as new, Steps c as new (close h c).2 ∧ ∀ a ∈ as, a.keepsBytes = true := by
  obtain ⟨as, new, hsteps, hkeep⟩ := close_steps_drop c h
  refine ⟨as, new, hsteps, fun a ha => ?_⟩
  rcases hkeep a ha with rfl | rfl <;> rfl

/-- A read does nothing but move the cursor. -/
theorem read_steps_move {n : Nat} (hreg : c.Regular) (h : Handle) (buffer : Buffer n) :
    ∃ as new, Steps c as new (read h buffer c).2 ∧ ∀ a ∈ as, a = .move h := by
  cases hf : c.table.get? h with
  | none =>
      rw [read_of_none hf]
      exact ⟨[], [], .nil c, fun _ ha => nomatch ha⟩
  | some f =>
      by_cases hend : f.size ≤ f.cursor
      · rw [read_of_end hf hend]
        exact ⟨[], [], .nil c, fun _ ha => nomatch ha⟩
      have hlt := Nat.not_le.mp hend
      obtain ⟨new, hsteps, -⟩ := copyOut_spec (readChunks f n) buffer hreg hf
      rcases hcopy : copyOut f (readChunks f n) buffer c with ⟨⟨outcome, buffer'⟩, c₁⟩
      rw [hcopy] at hsteps
      cases outcome with
      | error e =>
          rw [read_of_error hf hlt (by rw [hcopy]), hcopy]
          exact ⟨_, _, hsteps, fun _ ha => nomatch ha⟩
      | ok _ =>
          have hf₁ : c₁.table.get? h = some f := by rw [hsteps.table_tend, hf]
          have hmove : Step c₁ [.move h] [] _ :=
            .move (·.moveBy (min n (f.size - f.cursor)) false) hf₁ rfl rfl rfl (Nat.le_refl _)
          have hnote : ∀ e ∈ [Event.hasRead f.descriptor f.cursor (min n (f.size - f.cursor))],
              e.isNote = true := by simp [Event.isNote]
          rw [read_of_ok hf hlt hcopy]
          exact ⟨_, _, (hsteps.append (.single hmove)).append (.single (.report _ hnote)),
            by simp⟩

theorem read_steps {n : Nat} (hreg : c.Regular) (h : Handle) (buffer : Buffer n) :
    ∃ as new, Steps c as new (read h buffer c).2 ∧ ∀ a ∈ as, a.keepsBytes = true := by
  obtain ⟨as, new, hsteps, hkeep⟩ := read_steps_move hreg h buffer
  refine ⟨as, new, hsteps, fun a ha => ?_⟩
  rw [hkeep a ha]
  rfl

/-- A write does nothing to the files of other handles. -/
theorem write_steps (hreg : c.Regular) (h : Handle) (data : ByteArray) :
    ∃ as new, Steps c as new (write h data c).2 ∧ ∀ a ∈ as, a.handle? = some h := by
  cases hf : c.table.get? h with
  | none =>
      rw [write_of_none hf]
      exact ⟨[], [], .nil c, fun _ ha => nomatch ha⟩
  | some f =>
      by_cases hfar : maxOffset < writeStart f + data.size
      · rw [write_of_far hf hfar]
        exact ⟨_, _, .single (.move (·.moveTo (writeStart f)) hf rfl rfl rfl (Nat.le_refl _)),
          by simp [Action.handle?]⟩
      · obtain ⟨c₁, new, c₂, c₃, c', hmove, -, hsteps, -, hmove', -, hreport, -, hwrite⟩ :=
          write_spec hreg hf (Nat.not_lt.mp hfar)
        rw [hwrite]
        refine ⟨_, _, (((Steps.single hmove).append hsteps).append (.single hmove')).append hreport,
          fun a ha => ?_⟩
        simp only [List.append_nil, List.mem_append, List.mem_singleton, List.mem_map] at ha
        rcases ha with (rfl | ⟨chunk, -, rfl⟩) | rfl <;> rfl

/-- A seek does nothing but move the cursor. -/
theorem seek_steps_move (c : Cache σ φ) (h : Handle) (target : SeekTarget) :
    ∃ as, Steps c as [] (seek h target c).2 ∧ ∀ a ∈ as, a = .move h := by
  cases hf : c.table.get? h with
  | none =>
      rw [seek_of_none hf]
      exact ⟨[], .nil c, fun _ ha => nomatch ha⟩
  | some f =>
      cases hseek : f.seek target with
      | error e =>
          rw [seek_of_error hf hseek]
          exact ⟨[], .nil c, fun _ ha => nomatch ha⟩
      | ok f' =>
          have hmoved := eq_moveTo_of_seek hseek
          have hmove : Step c [.move h] [] _ := .move (fun _ => f') hf (by rw [hmoved]; rfl)
            (by rw [hmoved]; rfl) (by rw [hmoved]; rfl) (by rw [hmoved]; exact Nat.le_refl _)
          rw [seek_of_ok hf hseek]
          exact ⟨_, .single hmove, by simp⟩

theorem seek_steps (c : Cache σ φ) (h : Handle) (target : SeekTarget) :
    ∃ as, Steps c as [] (seek h target c).2 ∧ ∀ a ∈ as, a.keepsBytes = true := by
  obtain ⟨as, hsteps, hkeep⟩ := seek_steps_move c h target
  refine ⟨as, hsteps, fun a ha => ?_⟩
  rw [hkeep a ha]
  rfl

/-- Whatever is asked of a cache, it takes steps, and does nothing to the files of other handles. -/
theorem serve_steps (hreg : c.Regular) (request : Request) (hfresh : c.IsFresh request) :
    ∃ as new, Steps c as new (serve request c).2 ∧ ∀ a ∈ as, a.handle? = request.handle? := by
  cases request with
  | openFile path flags mode => exact openFile_steps hfresh
  | close h =>
      obtain ⟨as, new, hsteps, hkeep⟩ := close_steps_drop c h
      refine ⟨as, new, hsteps, fun a ha => ?_⟩
      rcases hkeep a ha with rfl | rfl <;> rfl
  | sync h =>
      obtain ⟨as, new, hsteps, hkeep, -⟩ := sync_steps_trim c h
      exact ⟨as, new, hsteps, fun a ha => hkeep a ha ▸ rfl⟩
  | read h buffer =>
      obtain ⟨as, new, hsteps, hkeep⟩ := read_steps_move hreg h (Buffer.ofBytes buffer)
      exact ⟨as, new, hsteps, fun a ha => hkeep a ha ▸ rfl⟩
  | write h data => exact write_steps hreg h data
  | seek h target =>
      obtain ⟨as, hsteps, hkeep⟩ := seek_steps_move c h target
      exact ⟨as, [], hsteps, fun a ha => hkeep a ha ▸ rfl⟩
  | position | length | flags | isResident => exact ⟨[], [], .nil c, fun _ ha => nomatch ha⟩

end Cache

end BlockCache
