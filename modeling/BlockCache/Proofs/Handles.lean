import BlockCache.Proofs.Calls

/-!
What calls do to the handles, whatever the storage answers and whatever the pool holds. Moving
blocks leaves the open files alone; a call changes no open file but that of its own handle; and a
handle that is not open stays so until a file is opened that gets it.
-/

namespace BlockCache

def Reply.failure? : Reply → Option Error
  | .opened (.error e) | .done (.error e) | .number (.error e) | .bytes (.error e) _
  | .flags (.error e) | .truth (.error e) => some e
  | _ => none

namespace Cache

variable {σ φ : Type} {h : Handle}

/-- A seek leaves the open files alone, or moves the cursor of its own. -/
theorem table_seek (h : Handle) (target : SeekTarget) (c : Cache σ φ) :
    (seek h target c).2.table = c.table ∨
      ∃ f cursor, c.table.get? h = some f ∧
        (seek h target c).2.table = c.table.modify h fun _ => f.moveTo cursor := by
  cases hf : c.table.get? h with
  | none =>
      rw [seek_of_none hf]
      exact Or.inl rfl
  | some f =>
      cases hseek : f.seek target with
      | error e =>
          rw [seek_of_error hf hseek]
          exact Or.inl rfl
      | ok f' =>
          rw [seek_of_ok hf hseek]
          refine Or.inr ⟨f, f'.cursor, rfl, ?_⟩
          rw [← eq_moveTo_of_seek hseek]

/-! ### Moving blocks -/

theorem table_find (key : BlockId) (c : Cache σ φ) : (find key c).2.table = c.table := by
  rw [find, bind_apply, onPool_apply, pure_apply]
  rcases c.pool.lookup key with ⟨_ | hit, pool⟩ <;> rfl

variable [Storage σ φ]

theorem table_makeRoom (c : Cache σ φ) : (makeRoom c).2.table = c.table := rfl

theorem table_slotToRead (f : OpenFile φ) (block : Nat) (c : Cache σ φ) :
    (slotToRead f block c).2.table = c.table := by
  have hfind := table_find ⟨f.descriptor, block⟩ c
  rw [slotToRead, bind_apply]
  rcases hfound : find ⟨f.descriptor, block⟩ c with ⟨_ | slot, c₁⟩ <;> rw [hfound] at hfind
  · have hroom := table_makeRoom c₁
    dsimp only
    rw [bind_apply]
    rcases hmade : makeRoom c₁ with ⟨slot, c₂⟩
    rw [hmade] at hroom
    rw [bind_apply, onPool_apply]
    rcases c₂.pool.fill slot ⟨f.descriptor, block⟩ (fetchBlock f.file ⟨f.descriptor, block⟩)
      c₂.storage with ⟨⟨_ | _, pool⟩, storage⟩ <;> exact hroom.trans hfind
  · exact hfind

theorem table_copyOut {n : Nat} (f : OpenFile φ) (cs : List Chunk) (buffer : Buffer n)
    (c : Cache σ φ) : (copyOut f cs buffer c).2.table = c.table := by
  induction cs generalizing buffer c with
  | nil => rfl
  | cons chunk rest ih =>
      have hslot := table_slotToRead f chunk.block c
      rw [copyOut, bind_apply]
      rcases hrun : slotToRead f chunk.block c with ⟨_ | slot, c₁⟩ <;> rw [hrun] at hslot
      · exact hslot
      · exact (ih _ c₁).trans hslot

theorem table_slotToWrite (f : OpenFile φ) (block : Nat) (whole : Bool) (c : Cache σ φ) :
    (slotToWrite f block whole c).2.table = c.table := by
  have hfind := table_find ⟨f.descriptor, block⟩ c
  rcases hfound : find ⟨f.descriptor, block⟩ c with ⟨_ | slot, c₁⟩
  · rw [hfound] at hfind
    have hroom := table_makeRoom c₁
    rcases hmade : makeRoom c₁ with ⟨slot, c₂⟩
    rw [hmade] at hroom
    cases whole with
    | true =>
        rw [slotToWrite_of_whole hfound hmade]
        exact hroom.trans hfind
    | false =>
        rw [slotToWrite_of_part hfound hmade rfl]
        exact hroom.trans hfind
  · rw [slotToWrite_of_found hfound]
    rw [hfound] at hfind
    exact hfind

theorem table_copyIn (f : OpenFile φ) (data : ByteArray) (cs : List Chunk) (c : Cache σ φ) :
    (copyIn f data cs c).2.table = c.table := by
  induction cs generalizing c with
  | nil => rfl
  | cons chunk rest ih =>
      rw [copyIn_cons, ih]
      exact table_slotToWrite f chunk.block _ c

/-! ### One call -/

/-- A file that is opened takes a handle that is not open, with the size that the storage tells. -/
theorem get?_openFile_of_ok {path : String} {flags : OpenFlags} {mode : Nat} {c : Cache σ φ}
    (hopen : (openFile path flags mode c).1 = .ok h) :
    c.table.get? h = none ∧ ∃ file size opened sized,
      Storage.openFile path flags mode c.storage = (.ok file, opened) ∧
      Storage.size file opened = (.ok size, sized) ∧
      ∀ h', (openFile path flags mode c).2.table.get? h' =
        if h' = h then some (OpenFile.fresh file (Storage.descriptor σ file) size flags)
        else c.table.get? h' := by
  obtain ⟨new, c₁, -, hstorage, htable, ⟨hall, -⟩ | ⟨hall, -⟩⟩ := allocate_spec c
  · have hrun := openFile_of_allocated path flags mode hall
    rw [hstorage] at hrun
    cases hplace : c₁.table.lowestFree with
    | none =>
        rw [hplace, if_pos Option.isNone_none] at hrun
        rw [hrun] at hopen
        cases hopen
    | some i =>
        rw [hplace, if_neg (by simp)] at hrun
        rcases hfile : Storage.openFile path flags mode c.storage with ⟨_ | file, opened⟩
        · rw [hrun, hfile] at hopen
          cases hopen
        rw [hfile] at hrun
        dsimp only at hrun
        rcases hsize : Storage.size file opened with ⟨_ | size, sized⟩
        · rw [hrun, bindFile_of_error hsize] at hopen
          cases hopen
        have hbound := hrun.trans (bindFile_of_ok hsize hplace)
        rw [hbound] at hopen ⊢
        obtain rfl := Except.ok.inj hopen
        rw [← htable]
        exact ⟨c₁.table.get?_lowestFree hplace, file, size, opened, sized, rfl, hsize,
          c₁.table.get?_of_add hplace _⟩
  · rw [openFile, bind_apply, hall] at hopen
    cases hopen

theorem table_openFile_of_error {path : String} {flags : OpenFlags} {mode : Nat} {c : Cache σ φ}
    {e : Error} (hopen : (openFile path flags mode c).1 = .error e) :
    (openFile path flags mode c).2.table = c.table := by
  obtain ⟨new, c₁, -, -, htable, ⟨hall, -⟩ | ⟨hall, -⟩⟩ := allocate_spec c
  · have hrun := openFile_of_allocated path flags mode hall
    cases hplace : c₁.table.lowestFree with
    | none =>
        rw [hplace, if_pos Option.isNone_none] at hrun
        rw [hrun]
        exact htable
    | some i =>
        rw [hplace, if_neg (by simp)] at hrun
        rcases hfile : Storage.openFile path flags mode c₁.storage with ⟨_ | file, opened⟩
        · rw [hrun, hfile]
          exact htable
        rw [hfile] at hrun
        dsimp only at hrun
        rcases hsize : Storage.size file opened with ⟨_ | size, sized⟩
        · rw [hrun, bindFile_of_error hsize]
          exact htable
        · rw [hrun.trans (bindFile_of_ok hsize hplace)] at hopen
          cases hopen
  · rw [openFile, bind_apply, hall]
    exact htable

/-- What a close does: it syncs, gives up the handle and the blocks, and closes the file. -/
theorem close_of_some {c : Cache σ φ} {f : OpenFile φ} (hf : c.table.get? h = some f) :
    (close h c).1 = (sync h c).1 ∧
      (close h c).2.storage = (Storage.close f.file (sync h c).2.storage).2 ∧
      (close h c).2.pool = ((sync h c).2.pool.forget f.descriptor).2 ∧
      (close h c).2.table = c.table.remove h := by
  obtain ⟨-, -, -, -, htable⟩ := sync_steps_trim c h
  rw [← htable, close, bind_apply, get_apply, c.table.get_of_some hf]
  dsimp only
  rw [bind_apply]
  rcases sync h c with ⟨_ | _, c₁⟩ <;> exact ⟨rfl, rfl, rfl, rfl⟩

/-- A read leaves the open files alone, or moves the cursor of its own. -/
theorem table_read {n : Nat} (h : Handle) (buffer : Buffer n) (c : Cache σ φ) :
    (read h buffer c).2.table = c.table ∨
      ∃ count, (read h buffer c).2.table = c.table.modify h (·.moveBy count false) := by
  cases hf : c.table.get? h with
  | none =>
      rw [read_of_none hf]
      exact Or.inl rfl
  | some f =>
      by_cases hend : f.size ≤ f.cursor
      · rw [read_of_end hf hend]
        exact Or.inl rfl
      have hcopied := table_copyOut f (readChunks f n) buffer c
      rcases hcopy : copyOut f (readChunks f n) buffer c with ⟨⟨_ | _, buffer'⟩, c₁⟩
      · rw [read_of_error hf (Nat.not_le.mp hend) (by rw [hcopy])]
        exact Or.inl hcopied
      · rw [hcopy] at hcopied
        rw [read_of_ok hf (Nat.not_le.mp hend) hcopy, ← hcopied]
        exact Or.inr ⟨_, rfl⟩

/-- A write that reaches too far fails, and any other one succeeds and moves the cursor past what it
wrote; both have moved it to where the write starts. -/
theorem write_of_some {c : Cache σ φ} {f : OpenFile φ} (hf : c.table.get? h = some f)
    (data : ByteArray) :
    (maxOffset < writeStart f + data.size ∧ (write h data c).1 = .error .writeTooFar ∧
        (write h data c).2.table = c.table.modify h (·.moveTo (writeStart f))) ∨
      (writeStart f + data.size ≤ maxOffset ∧ (write h data c).1 = .ok data.size ∧
        (write h data c).2.table =
          (c.table.modify h (·.moveTo (writeStart f))).modify h (·.moveBy data.size true)) := by
  by_cases hfar : maxOffset < writeStart f + data.size
  · rw [write_of_far hf hfar]
    exact Or.inl ⟨hfar, rfl, rfl⟩
  have hnear := Nat.not_lt.mp hfar
  have hcopied := table_copyIn f data (chunks (writeStart f) data.size)
    { c with table := c.table.modify h (·.moveTo (writeStart f)) }
  rcases hcopy : copyIn f data (chunks (writeStart f) data.size)
    { c with table := c.table.modify h (·.moveTo (writeStart f)) } with ⟨_, c'⟩
  rw [hcopy] at hcopied
  rw [write_of_near hf hnear hcopy, hcopied]
  exact Or.inr ⟨hnear, rfl, rfl⟩

/-! ### Any call -/

/-- A request about a handle that is not open fails, and changes nothing. -/
theorem serve_of_none {c : Cache σ φ} (hf : c.table.get? h = none) {request : Request}
    (hhandle : request.handle? = some h) :
    (serve request c).1.failure? = some .notOpen ∧ (serve request c).2 = c := by
  cases request with
  | openFile => cases hhandle
  | close _ =>
      obtain rfl := Option.some.inj hhandle
      rw [serve, map_apply, close_of_none hf]
      exact ⟨rfl, rfl⟩
  | sync _ =>
      obtain rfl := Option.some.inj hhandle
      rw [serve, map_apply, sync_of_none hf]
      exact ⟨rfl, rfl⟩
  | read _ buffer =>
      obtain rfl := Option.some.inj hhandle
      rw [serve, bind_apply, read_of_none hf]
      exact ⟨rfl, rfl⟩
  | write _ data =>
      obtain rfl := Option.some.inj hhandle
      rw [serve, map_apply, write_of_none hf]
      exact ⟨rfl, rfl⟩
  | seek _ target =>
      obtain rfl := Option.some.inj hhandle
      rw [serve, map_apply, seek_of_none hf]
      exact ⟨rfl, rfl⟩
  | position | length | flags | isResident =>
      obtain rfl := Option.some.inj hhandle
      have hget := c.table.get_of_none hf
      simp only [serve, bind_apply, get_apply, pure_apply, position, length, Cache.flags,
        isResident, hget, and_true]
      rfl

/-- An open file is left alone by requests about other handles. -/
theorem get?_serve_other {c : Cache σ φ} {request : Request} (hhandle : request.handle? ≠ some h)
    (hopen : (serve request c).1 ≠ .opened (.ok h)) :
    (serve request c).2.table.get? h = c.table.get? h := by
  have hmodify : ∀ (t : FileTable φ) (g : OpenFile φ → OpenFile φ) {h' : Handle}, h' ≠ h →
      (t.modify h' g).get? h = t.get? h := by
    intro t g h' hne
    rw [t.get?_modify, if_neg hne]
  cases request with
  | openFile path flags mode =>
      rw [serve, map_apply] at hopen ⊢
      cases hrun : (openFile path flags mode c).1 with
      | error e => rw [table_openFile_of_error hrun]
      | ok h' =>
          obtain ⟨-, file, size, opened, sized, -, -, hget⟩ := get?_openFile_of_ok hrun
          rw [hrun] at hopen
          have hne : h ≠ h' := fun hh => hopen (by rw [hh])
          rw [hget, if_neg hne]
  | close h' =>
      have hne : h' ≠ h := fun hh => hhandle (congrArg some hh)
      rw [serve, map_apply]
      cases hf : c.table.get? h' with
      | none => rw [close_of_none hf]
      | some f =>
          obtain ⟨-, -, -, htable⟩ := close_of_some hf
          rw [htable, c.table.get?_remove, if_neg hne]
  | sync h' =>
      obtain ⟨-, -, -, -, htable⟩ := sync_steps_trim c h'
      rw [serve, map_apply, htable]
  | read h' buffer =>
      have hne : h' ≠ h := fun hh => hhandle (congrArg some hh)
      show (read h' (Buffer.ofBytes buffer) c).2.table.get? h = _
      rcases table_read h' (Buffer.ofBytes buffer) c with htable | ⟨count, htable⟩
      · rw [htable]
      · rw [htable, hmodify _ _ hne]
  | write h' data =>
      have hne : h' ≠ h := fun hh => hhandle (congrArg some hh)
      rw [serve, map_apply]
      cases hf : c.table.get? h' with
      | none => rw [write_of_none hf]
      | some f =>
          rcases write_of_some hf data with ⟨-, -, htable⟩ | ⟨-, -, htable⟩
          · rw [htable, hmodify _ _ hne]
          · rw [htable, hmodify _ _ hne, hmodify _ _ hne]
  | seek h' target =>
      have hne : h' ≠ h := fun hh => hhandle (congrArg some hh)
      rw [serve, map_apply]
      rcases table_seek h' target c with htable | ⟨f, cursor, -, htable⟩
      · rw [htable]
      · rw [htable, hmodify _ _ hne]
  | position | length | flags | isResident => rfl

/-- A request that opens a file gets a handle that was not open. -/
theorem get?_of_opened {c : Cache σ φ} {request : Request}
    (hopen : (serve request c).1 = .opened (.ok h)) :
    c.table.get? h = none ∧ ∃ path flags mode, request = .openFile path flags mode := by
  cases request with
  | openFile path flags mode =>
      exact ⟨(get?_openFile_of_ok (Reply.opened.inj hopen)).1, path, flags, mode, rfl⟩
  | _ => cases hopen

theorem session_cons (request : Request) (rest : List Request) (c : Cache σ φ) :
    session (request :: rest) c =
      ((serve request c).1 :: (session rest (serve request c).2).1,
        (session rest (serve request c).2).2) := rfl

theorem session_append (requests requests' : List Request) (c : Cache σ φ) :
    (session (requests ++ requests') c).2 = (session requests' (session requests c).2).2 := by
  induction requests generalizing c with
  | nil => rfl
  | cons request rest ih => exact ih (serve request c).2

/-- A handle that is not open is opened by no request but one that opens a file, and is told so. -/
theorem get?_session_of_none {requests : List Request} {c : Cache σ φ}
    (hf : c.table.get? h = none) (hopen : .opened (.ok h) ∉ (session requests c).1) :
    (session requests c).2.table.get? h = none := by
  induction requests generalizing c with
  | nil => exact hf
  | cons request rest ih =>
      rw [session_cons] at hopen ⊢
      rw [List.mem_cons, not_or] at hopen
      refine ih ?_ hopen.2
      by_cases hhandle : request.handle? = some h
      · rw [(serve_of_none hf hhandle).2, hf]
      · rw [get?_serve_other hhandle (Ne.symm hopen.1), hf]

end Cache

end BlockCache
