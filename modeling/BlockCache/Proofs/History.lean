import BlockCache.Proofs.Dirty
import BlockCache.Proofs.Past
import BlockCache.Proofs.Reachable
import BlockCache.Storage.Scripted

/-!
What the history of a session says about its calls of the storage: all of them are proper when they
are made, and what else happens can happen then.

The past of a cache explains it if it tells the files of the handles and, for every dirty block, a
change since the block was last written. Steps lead from an explained cache to another one: most of
them make calls only, those that store bytes change a block, and a handle is opened or closed by one
step.
-/

namespace BlockCache

/-! ### Traced storages -/

namespace Traced

variable {σ φ α : Type} {s s' : Traced σ φ}

theorem calls_record {call : StateM σ α} {a : α} (entry : α → Call φ)
    (h : record call entry s = (a, s')) : s'.calls.toList = s.calls.toList ++ [entry a] := by
  obtain ⟨rfl, rfl⟩ := Prod.mk.inj h
  exact Array.toList_push

variable [Storage σ φ] {file : φ}

theorem calls_readAt {n offset : Nat} {buffer : Buffer n} {outcome : Except Fault Nat × Buffer n}
    (h : Storage.readAt file buffer offset s = (outcome, s')) :
    s'.calls.toList = s.calls.toList ++ [.readAt file offset n outcome.1] :=
  calls_record (fun outcome : Except Fault Nat × Buffer n => .readAt file offset n outcome.1) h

theorem calls_writeAt {n offset : Nat} {buffer : Buffer n} {outcome : Except Fault Nat}
    (h : Storage.writeAt file buffer offset s = (outcome, s')) :
    s'.calls.toList = s.calls.toList ++ [.writeAt file offset buffer.bytes outcome] :=
  calls_record (fun outcome => .writeAt file offset buffer.bytes outcome) h

theorem calls_close (file : φ) :
    (Storage.close file s).2.calls.toList = s.calls.toList ++ [.close file] :=
  calls_record (fun _ : Unit => .close file) rfl

end Traced

open Moment

/-- Whether an action changes no block, and neither opens nor closes a handle. -/
def Action.isQuiet : Action → Bool
  | .move _ | .trim _ | .visit _ => true
  | .store .. | .bind .. | .drop _ => false

namespace Cache

variable {σ φ : Type} {c c' c'' : Cache (Traced σ φ) φ} {past moments moments' : List (Moment φ)}

variable [Storage σ φ]

/-- Whether the past of a cache tells the files of its handles, and a change of every dirty block
since the block was last written. -/
structure Explained (past : List (Moment φ)) (c : Cache (Traced σ φ) φ) : Prop where
  regular : c.Regular
  fileOf_eq : ∀ h, fileOf past h = (c.table.get? h).map (·.file)
  descriptor_eq : ∀ {h : Handle} {f : OpenFile φ}, c.table.get? h = some f →
    f.descriptor = Storage.descriptor (Traced σ φ) f.file
  changed : ∀ {h : Handle} {f : OpenFile φ} {i b : Nat} {s : Slot}, c.table.get? h = some f →
    c.pool.slots[i]? = some s → s.key = some ⟨f.descriptor, b⟩ → s.dirty = true →
    ChangedSince past h f.file b

/-- Whether something happens on the way from one cache to another, and explains the other. -/
structure Leads (past : List (Moment φ)) (c : Cache (Traced σ φ) φ) (moments : List (Moment φ))
    (c' : Cache (Traced σ φ) φ) : Prop where
  calls_eq : c'.storage.calls.toList = c.storage.calls.toList ++ moments.filterMap call?
  proper : AllProper past moments
  explained : Explained (past ++ moments) c'

theorem Leads.trans (h : Leads past c moments c') (h' : Leads (past ++ moments) c' moments' c'') :
    Leads past c (moments ++ moments') c'' where
  calls_eq := by rw [h'.calls_eq, h.calls_eq, List.filterMap_append, List.append_assoc]
  proper := allProper_append.mpr ⟨h.proper, h'.proper⟩
  explained := by
    rw [← List.append_assoc]
    exact h'.explained

theorem Leads.callsSince_eq (h : Leads past c moments c') :
    c'.callsSince c = moments.filterMap call? :=
  callsSince_of_append h.calls_eq

namespace Explained

theorem fileOf_of_some (hexp : Explained past c) {h : Handle} {f : OpenFile φ}
    (hf : c.table.get? h = some f) : fileOf past h = some f.file := by
  rw [hexp.fileOf_eq, hf]
  rfl

/-- No two handles have one file. -/
theorem eq_of_file (hexp : Explained past c) {h : Handle} {f : OpenFile φ}
    (hf : c.table.get? h = some f) {h' : Handle} (hfile : fileOf past h' = some f.file) :
    h' = h := by
  rw [hexp.fileOf_eq] at hfile
  obtain ⟨f', hf', hsame⟩ := Option.map_eq_some_iff.mp hfile
  exact hexp.regular.apart hf' hf
    (by rw [hexp.descriptor_eq hf', hexp.descriptor_eq hf, hsame])

/-- A block that is dirty may be written to the file of its handle. -/
theorem isProper_write (hexp : Explained past c) {h : Handle} {f : OpenFile φ} {i : Nat} {s : Slot}
    {key : BlockId} (hf : c.table.get? h = some f) (howner : f.descriptor = key.owner)
    (hs : c.pool.slots[i]? = some s) (hkey : s.key = some key) (hdirty : s.dirty = true)
    (outcome : Except Fault Nat) :
    (Call.writeAt f.file key.offset s.block.bytes outcome).IsProper past := by
  refine ⟨⟨h, hexp.fileOf_of_some hf⟩, s.block.size_bytes, key.index, rfl, fun h' hfile => ?_⟩
  rw [hexp.eq_of_file hf hfile]
  exact hexp.changed hf hs (hkey.trans (by rw [howner])) hdirty

/-- What is left to show of a step that makes calls of the storage and changes no block: the blocks
that are dirty afterwards were so before and are not among those that were written. -/
theorem leads (hexp : Explained past c) (hreg : c'.Regular) (htable : c'.table = c.table)
    {calls : List (Call φ)} (hcalls : c'.storage.calls.toList = c.storage.calls.toList ++ calls)
    (hproper : AllProper past (calls.map .call)) (hdirty : DirtyWithin c' c)
    (hunwritten : ∀ {j : Nat} {t : Slot} {key : BlockId} {h : Handle} {f : OpenFile φ},
      c'.pool.slots[j]? = some t → t.key = some key → t.dirty = true → c.table.get? h = some f →
      f.descriptor = key.owner →
      ∀ bytes, .writeAt f.file (key.index * blockSize) bytes (.ok blockSize) ∉ calls) :
    Leads past c (calls.map .call) c' where
  calls_eq := by rw [filterMap_calls, hcalls]
  proper := hproper
  explained := {
    regular := hreg
    fileOf_eq := fun h => by rw [fileOf_calls, htable, hexp.fileOf_eq]
    descriptor_eq := fun hf => hexp.descriptor_eq (by rw [← htable, hf])
    changed := by
      intro h f i b t hf ht hkey hd
      rw [htable] at hf
      obtain ⟨s, hs, hkey', hd'⟩ := hdirty ht hkey hd
      refine (hexp.changed hf hs hkey' hd').append (fun _ => opened_notMem_calls) ?_
      exact fun bytes hmem => hunwritten ht hkey hd hf rfl bytes (call_mem_calls hmem) }

theorem leads_nil (hexp : Explained past c) (hreg : c'.Regular) (htable : c'.table = c.table)
    (hstorage : c'.storage = c.storage) (hdirty : DirtyWithin c' c) : Leads past c [] c' := by
  have hcalls : c'.storage.calls.toList = c.storage.calls.toList ++ [] := by
    rw [hstorage, List.append_nil]
  exact hexp.leads hreg htable hcalls trivial hdirty fun _ _ _ _ _ _ hmem => nomatch hmem

/-- A step that makes one call, and writes nothing, leads to where it goes. -/
theorem leads_call (hexp : Explained past c) (hreg : c'.Regular) (htable : c'.table = c.table)
    {made : Call φ} (hcalls : c'.storage.calls.toList = c.storage.calls.toList ++ [made])
    (hproper : made.IsProper past)
    (hwrite : ∀ file offset bytes outcome, made ≠ .writeAt file offset bytes outcome)
    (hdirty : DirtyWithin c' c) : Leads past c [.call made] c' :=
  hexp.leads hreg htable hcalls (allProper_single hproper) hdirty
    fun _ _ _ _ _ _ hmem => hwrite _ _ _ _ (List.mem_singleton.mp hmem).symm

/-- A step that writes a dirty block leads to where it goes, if every block that is dirty then was
so before, and is another one if the write was complete. -/
theorem leads_write (hexp : Explained past c) (hreg : c'.Regular) (htable : c'.table = c.table)
    {h : Handle} {f : OpenFile φ} {i : Nat} {s : Slot} {key : BlockId}
    {outcome : Except Fault Nat} (hf : c.table.get? h = some f)
    (howner : f.descriptor = key.owner) (hs : c.pool.slots[i]? = some s) (hkey : s.key = some key)
    (hd : s.dirty = true)
    (hcalls : c'.storage.calls.toList =
      c.storage.calls.toList ++ [.writeAt f.file key.offset s.block.bytes outcome])
    (hdirty : DirtyWithin c' c)
    (hother : outcome = .ok blockSize → ∀ {t : Slot}, c'.pool.slots[i]? = some t →
      t.dirty = false) :
    Leads past c [.call (.writeAt f.file key.offset s.block.bytes outcome)] c' := by
  refine hexp.leads hreg htable hcalls
    (allProper_single (hexp.isProper_write hf howner hs hkey hd outcome)) hdirty ?_
  intro j t key' h' f' ht hkey' hd' hf' howner' bytes hmem
  obtain ⟨hfile, hoffset, -, rfl⟩ := Call.writeAt.inj (List.mem_singleton.mp hmem)
  obtain rfl := hexp.eq_of_file hf (hfile ▸ hexp.fileOf_of_some hf')
  obtain rfl := Option.some.inj (hf.symm.trans hf')
  have hindex : key'.index = key.index := Nat.eq_of_mul_eq_mul_right blockSize_pos hoffset
  have hsame : key' = key := by
    cases key
    cases key'
    exact congr (congrArg BlockId.mk (howner'.symm.trans howner)) hindex
  obtain ⟨s', hs', hkey'', -⟩ := hdirty ht hkey' hd'
  obtain rfl := hexp.regular.distinct hs' hs hkey'' (hkey.trans (by rw [hsame]))
  rw [hother rfl ht] at hd'
  cases hd'

/-- A step that changes an open file, but not which file it is, is no part of the history. -/
theorem leads_move (hexp : Explained past c) {h : Handle} {f : OpenFile φ}
    {g : OpenFile φ → OpenFile φ} (hf : c.table.get? h = some f) (hfile : (g f).file = f.file)
    (hdescriptor : (g f).descriptor = f.descriptor) :
    Leads past c [] { c with table := c.table.modify h g } where
  calls_eq := by
    rw [List.filterMap_nil, List.append_nil]
  proper := trivial
  explained := by
    rw [List.append_nil]
    have hback : ∀ {h' f'}, (c.table.modify h g).get? h' = some f' →
        ∃ f₀, c.table.get? h' = some f₀ ∧ f₀.file = f'.file ∧ f₀.descriptor = f'.descriptor := by
      intro h' f' hf'
      rcases c.table.get?_modify_cases hf' with ⟨f₀, hf₀, rfl, rfl⟩ | ⟨-, hf₀⟩
      · obtain rfl := Option.some.inj (hf.symm.trans hf₀)
        exact ⟨f, hf, hfile.symm, hdescriptor.symm⟩
      · exact ⟨f', hf₀, rfl, rfl⟩
    exact {
      regular := hexp.regular.of_move hf hdescriptor
      fileOf_eq := by
        intro h'
        rw [hexp.fileOf_eq, FileTable.get?_modify]
        split
        · rename_i hh
          rw [← hh, hf]
          exact congrArg some hfile.symm
        · rfl
      descriptor_eq := by
        intro h' f' hf'
        obtain ⟨f₀, hf₀, hfile₀, hd⟩ := hback hf'
        rw [← hfile₀, ← hd, hexp.descriptor_eq hf₀]
      changed := by
        intro h' f' i b s hf' hs hkey hd
        obtain ⟨f₀, hf₀, hfile₀, hd₀⟩ := hback hf'
        rw [← hfile₀]
        exact hexp.changed hf₀ hs (by rw [hkey, hd₀]) hd }

/-- A step that makes one block of a handle dirty changes that block. -/
theorem leads_changed (hexp : Explained past c) (hreg : c'.Regular) (htable : c'.table = c.table)
    (hstorage : c'.storage = c.storage) {h : Handle} {f : OpenFile φ} {block : Nat}
    (hf : c.table.get? h = some f)
    (hdirty : ∀ {j : Nat} {t : Slot} {key : BlockId}, c'.pool.slots[j]? = some t →
      t.key = some key → t.dirty = true → key = ⟨f.descriptor, block⟩ ∨
        ∃ s, c.pool.slots[j]? = some s ∧ s.key = some key ∧ s.dirty = true) :
    Leads past c [.changed h block] c' where
  calls_eq := by
    rw [hstorage]
    exact (List.append_nil _).symm
  proper := allProper_single ⟨f.file, hexp.fileOf_of_some hf⟩
  explained := {
    regular := hreg
    fileOf_eq := by
      intro h'
      rw [fileOf_append, htable, ← hexp.fileOf_eq]
      rfl
    descriptor_eq := fun hf' => hexp.descriptor_eq (by rw [← htable, hf'])
    changed := by
      intro h' f' i b t hf' ht hkey hd
      rw [htable] at hf'
      rcases hdirty ht hkey hd with hsame | ⟨s, hs, hkey', hd'⟩
      · obtain ⟨hdescriptor, rfl⟩ := BlockId.mk.inj hsame
        obtain rfl := hexp.regular.apart hf' hf hdescriptor
        exact changedSince_changed
      · exact (hexp.changed hf' hs hkey' hd').append (by simp) (by simp) }

/-- A handle that is bound to a file opens it. -/
theorem leads_opened (hexp : Explained past c) (hreg : c'.Regular) {i size : Nat} {file : φ}
    {flags : OpenFlags} (hplace : c.table.lowestFree = some i)
    (hfresh : ∀ h f, c.table.get? h = some f →
      f.descriptor ≠ Storage.descriptor (Traced σ φ) file)
    (htable : c'.table = ⟨c.table.entries.modify i fun _ =>
      some (OpenFile.fresh file (Storage.descriptor (Traced σ φ) file) size flags)⟩)
    (hstorage : c'.storage = c.storage) (hpool : c'.pool = c.pool) :
    Leads past c [.opened ⟨i⟩ file] c' where
  calls_eq := by
    rw [hstorage]
    exact (List.append_nil _).symm
  proper := by
    refine allProper_single ?_
    rw [Moment.IsProper, hexp.fileOf_eq, c.table.get?_lowestFree hplace]
    rfl
  explained := {
    regular := hreg
    fileOf_eq := by
      intro h
      rw [fileOf_append, fileOfNext, htable, c.table.get?_of_add hplace, hexp.fileOf_eq]
      split <;> rfl
    descriptor_eq := by
      intro h f hf
      rw [htable] at hf
      obtain ⟨-, rfl⟩ | ⟨-, hf⟩ := c.table.get?_of_add_cases hplace hf
      · rfl
      · exact hexp.descriptor_eq hf
    changed := by
      intro h f j b s hf hs hkey hd
      rw [hpool] at hs
      rw [htable] at hf
      obtain ⟨rfl, rfl⟩ | ⟨hh, hf⟩ := c.table.get?_of_add_cases hplace hf
      · obtain ⟨h', f', hf', howner⟩ := hexp.regular.owned hs hkey
        exact absurd howner (hfresh h' f' hf')
      · exact (hexp.changed hf hs hkey hd).append (by simp [hh]) (by simp) }

/-- A handle whose file and blocks are given up is closed. -/
theorem leads_closed (hexp : Explained past c) (hreg : c'.Regular) {h : Handle} {f : OpenFile φ}
    (hf : c.table.get? h = some f) (htable : c'.table = c.table.remove h)
    (hstorage : c'.storage = c.storage) (hpool : c'.pool = (c.pool.forget f.descriptor).2) :
    Leads past c [.closed h] c' where
  calls_eq := by
    rw [hstorage]
    exact (List.append_nil _).symm
  proper := allProper_single ⟨f.file, hexp.fileOf_of_some hf⟩
  explained := {
    regular := hreg
    fileOf_eq := by
      intro h'
      rw [fileOf_append, fileOfNext, htable, FileTable.get?_remove, hexp.fileOf_eq]
      by_cases hh : h' = h
      · rw [if_pos hh, if_pos hh.symm]
        rfl
      · rw [if_neg hh, if_neg (Ne.symm hh)]
    descriptor_eq := by
      intro h' f' hf'
      rw [htable] at hf'
      exact hexp.descriptor_eq (c.table.get?_of_remove hf').2
    changed := by
      intro h' f' i b t hf' ht hkey hd
      rw [htable] at hf'
      rw [hpool, Pool.slots_forget, Array.getElem?_map] at ht
      obtain ⟨s, hs, rfl⟩ := Option.map_eq_some_iff.mp ht
      split at hkey
      · cases hkey
      · rename_i hkept
        rw [if_neg hkept] at hd
        exact (hexp.changed (c.table.get?_of_remove hf').2 hs hkey hd).append (by simp) (by simp) }

end Explained

/-! ### Steps -/

/-- Whether a cache gets to another one with nothing in between but calls of the storage. -/
def Quiet (past : List (Moment φ)) (c c' : Cache (Traced σ φ) φ) : Prop :=
  ∃ calls : List (Call φ), Leads past c (calls.map .call) c'

/-- The steps that change no block, and neither open nor close a handle, make calls only. -/
theorem Step.quiet {as : List Action} {new : List Event} (h : Step c as new c')
    (hquiet : ∀ a ∈ as, a.isQuiet = true) (hexp : Explained past c) : Quiet past c c' := by
  have hreg := h.regular hexp.regular
  have hdirty := h.dirtyWithin fun _ _ _ hstore => Bool.false_ne_true (hquiet _ hstore)
  cases h with
  | allocate | report | hit | miss | evictClean => exact ⟨[], hexp.leads_nil hreg rfl rfl hdirty⟩
  | evictDirty hs hf howner hstore =>
      obtain ⟨result, hwrite, -⟩ := storeBlock_run hstore
      refine ⟨[_], hexp.leads_write hreg rfl hf howner hs rfl rfl (Traced.calls_writeAt hwrite)
        hdirty fun _ t ht => ?_⟩
      rw [Pool.slots_evict, Pool.getElem?_modify_self hs] at ht
      obtain rfl := Option.some.inj ht
      rfl
  | fill hf hs hfree habsent hread | fillFailed hf hs hfree habsent hread =>
      exact ⟨[_], hexp.leads_call hreg rfl (Traced.calls_readAt hread)
        ⟨⟨_, hexp.fileOf_of_some hf⟩, rfl, Nat.dvd_mul_left _ _⟩ (fun _ _ _ _ h => nomatch h)
        hdirty⟩
  | flush hs hf howner hstore =>
      obtain ⟨result, hwrite, hresult, -⟩ := storeBlock_run hstore
      refine ⟨[_], hexp.leads_write hreg rfl hf howner hs rfl rfl (Traced.calls_writeAt hwrite)
        hdirty fun hok t ht => ?_⟩
      rw [hresult.mpr hok] at ht
      obtain rfl := Option.some.inj (ht.symm.trans (Pool.getElem?_modify_self hs))
      rfl
  | sync hf hsync =>
      exact ⟨[_], hexp.leads_call hreg rfl
        (Traced.calls_record (fun outcome : Except Fault Unit => .sync _ outcome) hsync) trivial
        (fun _ _ _ _ h => nomatch h) hdirty⟩
  | trim hf hset | trimFailed hf hset =>
      exact ⟨[_], hexp.leads_call hreg rfl
        (Traced.calls_record (fun outcome : Except Fault Unit => .setLen _ _ outcome) hset) trivial
        (fun _ _ _ _ h => nomatch h) hdirty⟩
  | move g hf hfile hdescriptor => exact ⟨[], hexp.leads_move hf hfile hdescriptor⟩
  | refuse hopen =>
      exact ⟨[_], hexp.leads_call hreg rfl
        (Traced.calls_record (fun outcome => .openFile _ _ _ outcome) hopen) trivial
        (fun _ _ _ _ h => nomatch h) hdirty⟩
  | @abandon path flags mode file fault _ sized hopen hsize =>
      have hopened := Traced.calls_record (fun outcome => .openFile _ _ _ outcome) hopen
      have hsized := Traced.calls_record (fun outcome => .size _ outcome) hsize
      have hcalls : (Storage.close file sized).2.calls.toList = c.storage.calls.toList ++
          [.openFile path flags mode (.ok file), .size file (.error fault), .close file] := by
        rw [Traced.calls_close, hsized, hopened, List.append_assoc, List.append_assoc]
        rfl
      refine ⟨_, hexp.leads hreg rfl hcalls ⟨trivial, trivial, trivial, trivial⟩ hdirty ?_⟩
      intro j t key h f _ _ _ _ _ bytes hmem
      simp at hmem
  | overwrite | replace | overwriteZeros | bind | drop =>
      exact absurd (hquiet _ List.mem_cons_self) Bool.false_ne_true

theorem Steps.quiet {as : List Action} {new : List Event} (h : Steps c as new c')
    (hquiet : ∀ a ∈ as, a.isQuiet = true) (hexp : Explained past c) : Quiet past c c' := by
  induction h generalizing past with
  | nil => exact ⟨[], hexp.leads_nil hexp.regular rfl rfl (dirtyWithin_of_same rfl)⟩
  | cons hstep _ ih =>
      obtain ⟨calls, hfirst⟩ :=
        hstep.quiet (fun a ha => hquiet a (List.mem_append_left _ ha)) hexp
      obtain ⟨calls', hrest⟩ :=
        ih (fun a ha => hquiet a (List.mem_append_right _ ha)) hfirst.explained
      refine ⟨calls ++ calls', ?_⟩
      rw [List.map_append]
      exact hfirst.trans hrest

/-- Storing bytes changes the block they are in. -/
theorem Step.leads_store {h : Handle} {offset : Nat} {bytes : ByteArray} {new : List Event}
    (hstep : Step c [.store h offset bytes] new c') (hpos : 0 < bytes.size)
    (hexp : Explained past c) :
    ∃ calls : List (Call φ),
      Leads past c (calls.map .call ++ [.changed h (blockOf offset)]) c' := by
  have hreg := hstep.regular hexp.regular
  obtain ⟨f, hf, hstored⟩ := hstep.dirty_store
  have hdirty : ∀ {j : Nat} {t : Slot} {key : BlockId}, c'.pool.slots[j]? = some t →
      t.key = some key → t.dirty = true → key = ⟨f.descriptor, blockOf offset⟩ ∨
        ∃ s, c.pool.slots[j]? = some s ∧ s.key = some key ∧ s.dirty = true := by
    intro j t key ht hkey hd
    refine (hstored ht hkey hd).imp_left fun ⟨howner, hindex⟩ => ?_
    rw [← howner, ← hindex hpos]
  cases hstep with
  | overwrite | replace => exact ⟨[], hexp.leads_changed hreg rfl rfl hf hdirty⟩
  | @overwriteZeros _ _ _ _ _ _ _ _ _ storage _ hf' _ _ _ _ hread =>
      have hreg₁ : ({ c with storage } : Cache (Traced σ φ) φ).Regular :=
        hexp.regular.of_same rfl rfl rfl
      have hfirst := hexp.leads_call hreg₁ rfl (Traced.calls_readAt hread)
        ⟨⟨_, hexp.fileOf_of_some hf'⟩, rfl, Nat.dvd_mul_left _ _⟩ (fun _ _ _ _ h => nomatch h)
        (dirtyWithin_of_same rfl)
      exact ⟨[_], hfirst.trans (hfirst.explained.leads_changed hreg rfl rfl hf hdirty)⟩

/-- A file that is bound to a handle was opened by the storage, and its size asked for. -/
theorem Explained.leads_bound (hexp : Explained past c) {path : String} {flags : OpenFlags}
    {mode i size : Nat} {file : φ} {opened sized : Traced σ φ}
    (hplace : c.table.lowestFree = some i)
    (hallocated : c.isAllocated = true)
    (hopen : Storage.openFile path flags mode c.storage = (.ok file, opened))
    (hsize : Storage.size file opened = (.ok size, sized))
    (hfresh : ∀ h f, c.table.get? h = some f →
      f.descriptor ≠ Storage.descriptor (Traced σ φ) file) :
    Leads past c
      ([.openFile path flags mode (.ok file), .size file (.ok size)].map .call ++
        [.opened ⟨i⟩ file])
      (c.bound path flags i file size sized) := by
  have hreg := (Step.bind hplace hallocated hopen hsize hfresh rfl).regular hexp.regular
  have hreg₁ : ({ c with storage := sized } : Cache (Traced σ φ) φ).Regular :=
    hexp.regular.of_same rfl rfl rfl
  have hopened := Traced.calls_record (fun outcome => .openFile path flags mode outcome) hopen
  have hsized := Traced.calls_record (fun outcome => .size file outcome) hsize
  have hcalls : sized.calls.toList = c.storage.calls.toList ++
      [.openFile path flags mode (.ok file), .size file (.ok size)] := by
    rw [hsized, hopened, List.append_assoc]
    rfl
  have hfirst := hexp.leads hreg₁ rfl hcalls ⟨trivial, trivial, trivial⟩
    (dirtyWithin_of_same rfl) fun _ _ _ _ _ _ hmem => by simp at hmem
  exact hfirst.trans (hfirst.explained.leads_opened hreg hplace hfresh rfl rfl rfl)

/-- A handle that is dropped has its file closed by the storage. -/
theorem Step.leads_drop {h : Handle} {f : OpenFile φ} {new : List Event}
    (hstep : Step c [.drop h] new c') (hf : c.table.get? h = some f) (hexp : Explained past c) :
    Leads past c ([.close f.file].map .call ++ [.closed h]) c' := by
  have hreg := hstep.regular hexp.regular
  cases hstep with
  | drop hf' =>
      obtain rfl := Option.some.inj (hf.symm.trans hf')
      have hreg₁ : ({ c with storage := (Storage.close f.file c.storage).2 } :
          Cache (Traced σ φ) φ).Regular := hexp.regular.of_same rfl rfl rfl
      have hfirst := hexp.leads_call hreg₁ rfl (Traced.calls_close f.file) trivial
        (fun _ _ _ _ h => nomatch h) (dirtyWithin_of_same rfl)
      exact hfirst.trans (hfirst.explained.leads_closed hreg hf rfl rfl rfl)

/-! ### Requests -/

theorem Quiet.leads (h : Quiet past c c') : Leads past c ((c'.callsSince c).map .call) c' := by
  obtain ⟨calls, hleads⟩ := h
  rwa [hleads.callsSince_eq, filterMap_calls]

/-- The calls that led to a cache are told apart from what came of them at the end. -/
theorem Leads.callsSince_map {calls : List (Call φ)} {moment : Moment φ}
    (h : Leads past c (calls.map .call ++ [moment]) c') (hmoment : moment.call? = none) :
    (c'.callsSince c).map .call ++ [moment] = calls.map .call ++ [moment] := by
  rw [h.callsSince_eq, List.filterMap_append, filterMap_calls, List.filterMap_cons, hmoment,
    List.filterMap_nil, List.append_nil]

theorem leads_openFile (hexp : Explained past c) {path : String} {flags : OpenFlags} {mode : Nat}
    (hfresh : FreshDescriptor c path flags mode) :
    Leads past c (c.moments (.openFile path flags mode)) (openFile path flags mode c).2 := by
  have hserve : (serve (.openFile path flags mode) c).2 = (openFile path flags mode c).2 := rfl
  rw [moments, hserve]
  obtain ⟨new, c₁, hsteps, -, -, ⟨e, hopen, -⟩ | ⟨_, _, c', -, hstep, hopen, -⟩ |
    ⟨i, file, size, _, _, hplace, hallocated, hrun, hsize, hfresh₁, hopen⟩⟩ := openFile_spec hfresh
  · rw [hopen]
    dsimp only
    rw [List.append_nil]
    exact (hsteps.quiet (by simp) hexp).leads
  · rw [hopen]
    dsimp only
    rw [List.append_nil]
    exact ((hsteps.append (.single hstep)).quiet (by simp [Action.isQuiet]) hexp).leads
  · obtain ⟨calls, hfirst⟩ := hsteps.quiet (by simp) hexp
    have hleads := hfirst.trans
      (hfirst.explained.leads_bound hplace hallocated hrun hsize hfresh₁)
    rw [← List.append_assoc, ← List.map_append] at hleads
    have hget := c₁.table.get?_of_add hplace
      (OpenFile.fresh file (Storage.descriptor (Traced σ φ) file) size flags) ⟨i⟩
    rw [if_pos rfl] at hget
    rw [hopen]
    dsimp only [bound]
    rw [hget]
    have hmap := hleads.callsSince_map rfl
    dsimp only [bound] at hmap
    rw [Option.map_some, Option.toList_some]
    rw [← hmap] at hleads
    exact hleads

theorem leads_close (hexp : Explained past c) (h : Handle) :
    Leads past c (c.moments (.close h)) (close h c).2 := by
  have hmoments : c.moments (.close h) = ((close h c).2.callsSince c).map .call ++
      ((c.table.get? h).map fun _ => .closed h).toList := rfl
  rw [hmoments]
  cases hf : c.table.get? h with
  | none =>
      rw [close_of_none hf, Option.map_none, Option.toList_none, List.append_nil]
      exact ((Steps.nil c).quiet (fun _ ha => nomatch ha) hexp).leads
  | some f =>
      obtain ⟨as, new, hsync, hkeep, htable⟩ := sync_steps_trim c h
      obtain ⟨news, c₁, c', hsteps, -, htable₁, hdrop, -, -, hclose⟩ :=
        close_spec hf (by rw [htable, hf])
      obtain ⟨calls, hfirst⟩ := (hsync.append hsteps).quiet (fun a ha => by
        rw [List.append_nil] at ha
        rw [hkeep a ha]
        rfl) hexp
      have hf₁ : c₁.table.get? h = some f := by rw [htable₁, htable, hf]
      have hleads := hfirst.trans (hdrop.leads_drop hf₁ hfirst.explained)
      rw [← List.append_assoc, ← List.map_append] at hleads
      rw [hclose, Option.map_some, Option.toList_some, hleads.callsSince_map rfl]
      exact hleads

theorem leads_copyIn {h : Handle} {f : OpenFile φ} {data : ByteArray} {cs : List Chunk}
    (hfits : ∀ chunk ∈ cs, chunk.start + chunk.length ≤ blockSize ∧ 0 < chunk.length ∧
      chunk.position + chunk.length ≤ data.size)
    (hexp : Explained past c) (hf : c.table.get? h = some f) :
    Leads past c (chunkMoments h f data cs c) (copyIn f data cs c).2 := by
  induction cs generalizing past c with
  | nil => exact hexp.leads_nil hexp.regular rfl rfl (dirtyWithin_of_same rfl)
  | cons chunk rest ih =>
      obtain ⟨hstart, hlength, hposition⟩ := hfits chunk List.mem_cons_self
      obtain ⟨new, c₀, new', hbefore, hstore⟩ := copyChunk_spec hexp.regular hf hstart hposition
      have hsize : (Bytes.slice data chunk.position chunk.length).size = chunk.length := by
        rw [Bytes.size_slice]
        omega
      obtain ⟨calls, hfirst⟩ := hbefore.quiet (fun _ ha => nomatch ha) hexp
      obtain ⟨calls', hlast⟩ := hstore.leads_store (by omega) hfirst.explained
      rw [blockOf_mul_add (by omega)] at hlast
      have hleads := hfirst.trans hlast
      rw [← List.append_assoc, ← List.map_append] at hleads
      have htable := (hbefore.append (.single hstore)).table_eq
        (by simp [storeOf, Action.keepsTable])
      have hrest := ih (fun ch hch => hfits ch (List.mem_cons_of_mem _ hch)) hleads.explained
        ((congrArg (·.get? h) htable).trans hf)
      rw [copyIn_cons, chunkMoments, List.append_cons, hleads.callsSince_map rfl]
      exact hleads.trans hrest

/-- Where the cursor is does not matter for what happens. -/
theorem chunkMoments_moveTo (h : Handle) (f : OpenFile φ) (offset : Nat) (data : ByteArray)
    (cs : List Chunk) (c : Cache (Traced σ φ) φ) :
    chunkMoments h (f.moveTo offset) data cs c = chunkMoments h f data cs c := by
  induction cs generalizing c with
  | nil => rfl
  | cons chunk rest ih => rw [chunkMoments, chunkMoments, ih, copyIn_moveTo]

/-- The chunks of a write that does not reach too far are all that happens in it. -/
theorem leads_write_near (hexp : Explained past c) {h : Handle} {f : OpenFile φ}
    (hf : c.table.get? h = some f) {data : ByteArray}
    (hnear : writeStart f + data.size ≤ maxOffset) :
    Leads past c
      (chunkMoments h f data (chunks (writeStart f) data.size)
        { c with table := c.table.modify h (·.moveTo (writeStart f)) })
      (write h data c).2 := by
  have hfits : ∀ chunk ∈ chunks (writeStart f) data.size,
      chunk.start + chunk.length ≤ blockSize ∧ 0 < chunk.length ∧
        chunk.position + chunk.length ≤ data.size := by
    intro chunk hchunk
    obtain ⟨hstart, hlength, hposition, -⟩ := mem_chunks hchunk
    exact ⟨hstart, hlength, hposition⟩
  have hf₁ := c.table.get?_modify_self hf (·.moveTo (writeStart f))
  have hmove : Leads past c [] { c with table := c.table.modify h (·.moveTo (writeStart f)) } :=
    hexp.leads_move hf rfl rfl
  have hcopy := leads_copyIn hfits hmove.explained hf₁
  obtain ⟨new, hsteps⟩ := copyIn_spec (fun chunk hchunk =>
    ⟨(hfits chunk hchunk).1, (hfits chunk hchunk).2.2⟩) hmove.explained.regular hf₁
  rw [chunkMoments_moveTo, copyIn_moveTo] at hcopy
  rw [copyIn_moveTo] at hsteps
  have htable := hsteps.table_eq fun a ha => by
    obtain ⟨chunk, -, rfl⟩ := List.mem_map.mp ha
    rfl
  rcases hcopied : copyIn f data (chunks (writeStart f) data.size)
    { c with table := c.table.modify h (·.moveTo (writeStart f)) } with ⟨_, c₂⟩
  rw [hcopied] at hcopy htable
  have hf₂ := (congrArg (·.get? h) htable).trans hf₁
  have hmove' : Leads _ c₂ [] { c₂ with table := c₂.table.modify h (·.moveBy data.size true) } :=
    hcopy.explained.leads_move hf₂ rfl rfl
  rw [write_of_near hf hnear hcopied]
  have hreport : Leads _ _ []
      { c₂ with
        table := c₂.table.modify h (·.moveBy data.size true)
        journal := c₂.journal ++ [Event.hasWritten f.descriptor (writeStart f) data.size] } :=
    hmove'.explained.leads_nil (hmove'.explained.regular.of_same rfl rfl rfl) rfl rfl
      (dirtyWithin_of_same rfl)
  have hall := hmove.trans (hcopy.trans (hmove'.trans hreport))
  rwa [List.append_nil, List.append_nil, List.nil_append] at hall

theorem leads_write (hexp : Explained past c) (h : Handle) (data : ByteArray) :
    Leads past c (c.moments (.write h data)) (write h data c).2 := by
  cases hf : c.table.get? h with
  | none =>
      rw [write_of_none hf, moments]
      dsimp only
      rw [hf]
      exact hexp.leads_nil hexp.regular rfl rfl (dirtyWithin_of_same rfl)
  | some f =>
      have hmoments : c.moments (.write h data) =
          if maxOffset < writeStart f + data.size then []
          else chunkMoments h f data (chunks (writeStart f) data.size)
            { c with table := c.table.modify h (·.moveTo (writeStart f)) } := by
        rw [moments]
        dsimp only
        rw [hf]
        rfl
      rw [hmoments]
      split
      · rename_i hfar
        rw [write_of_far hf hfar]
        exact hexp.leads_move hf rfl rfl
      · rename_i hnear
        exact leads_write_near hexp hf (Nat.not_lt.mp hnear)

/-- What happens while a request is served leads to the cache that served it. -/
theorem leads_serve (hexp : Explained past c) (request : Request) (hfresh : c.IsFresh request) :
    Leads past c (c.moments request) (serve request c).2 := by
  cases request with
  | openFile path flags mode => exact leads_openFile hexp hfresh
  | close h => exact leads_close hexp h
  | write h data => exact leads_write hexp h data
  | sync h =>
      obtain ⟨as, new, hsteps, hkeep, -⟩ := sync_steps_trim c h
      refine (hsteps.quiet (fun a ha => ?_) hexp).leads
      rw [hkeep a ha]
      rfl
  | read h buffer =>
      obtain ⟨as, new, hsteps, hkeep⟩ := read_steps_move hexp.regular h (Buffer.ofBytes buffer)
      refine (hsteps.quiet (fun a ha => ?_) hexp).leads
      rw [hkeep a ha]
      rfl
  | seek h target =>
      obtain ⟨as, hsteps, hkeep⟩ := seek_steps_move c h target
      refine (hsteps.quiet (fun a ha => ?_) hexp).leads
      rw [hkeep a ha]
      rfl
  | position | length | flags | isResident =>
      exact ((Steps.nil c).quiet (fun _ ha => nomatch ha) hexp).leads

theorem leads_session {requests : List Request} (hexp : Explained past c)
    (hfresh : AllFresh requests c) :
    Leads past c (history requests c) (session requests c).2 := by
  induction requests generalizing past c with
  | nil => exact hexp.leads_nil hexp.regular rfl rfl (dirtyWithin_of_same rfl)
  | cons request rest ih =>
      have hfirst := leads_serve hexp request hfresh.1
      exact hfirst.trans (ih hfirst.explained hfresh.2)

theorem explained_new (storage : Traced σ φ) (slotCount : Nat) (allocator : Allocator) :
    Explained [] (Cache.new storage slotCount allocator) where
  regular := regular_new storage slotCount allocator
  fileOf_eq := by
    intro h
    cases hf : (Cache.new storage slotCount allocator : Cache (Traced σ φ) φ).table.get? h with
    | none => rfl
    | some f => exact absurd hf (get?_new storage slotCount allocator)
  descriptor_eq := fun hf => absurd hf (get?_new storage slotCount allocator)
  changed := fun hf => absurd hf (get?_new storage slotCount allocator)

/-- A sync of a file without dirty blocks writes nothing. -/
theorem writeAt_notMem_sync {h : Handle} {f : OpenFile φ} (hf : c.table.get? h = some f)
    (hclean : c.pool.dirtyBlocks f.descriptor = []) (file : φ) (offset : Nat) (bytes : ByteArray)
    (outcome : Except Fault Nat) :
    .call (.writeAt file offset bytes outcome) ∉ c.moments (.sync h) := by
  have hmoments : c.moments (.sync h) = ((sync h c).2.callsSince c).map .call := rfl
  have hstorage := storage_flushed_of_clean hclean
  rcases hsync : Storage.sync f.file (c.flushed f).storage with ⟨synced, storage⟩
  have hfirst := Traced.calls_record (fun outcome => .sync f.file outcome) hsync
  rw [hstorage] at hfirst
  have hcalls : ∃ calls : List (Call φ), (sync h c).2.storage.calls.toList =
      c.storage.calls.toList ++ calls ∧ .writeAt file offset bytes outcome ∉ calls := by
    cases synced with
    | error fault =>
        rw [sync_of_error hf hsync]
        exact ⟨_, hfirst, by simp⟩
    | ok _ =>
        rw [sync_of_ok hf hsync]
        rcases hset : Storage.setLen f.file f.size storage with ⟨cut, trimmed⟩
        have hlast := Traced.calls_record (fun outcome => .setLen f.file f.size outcome) hset
        rw [hfirst, List.append_assoc] at hlast
        cases cut with
        | ok _ =>
            rw [trim_of_ok hset]
            exact ⟨_, hlast, by simp⟩
        | error fault =>
            rw [trim_of_error hset]
            exact ⟨_, hlast, by simp⟩
  obtain ⟨calls, heq, hnone⟩ := hcalls
  intro hmem
  rw [hmoments, callsSince_of_append heq] at hmem
  exact hnone (call_mem_calls hmem)

/-- The history of a session has all calls of the storage. Each of them is proper when it is made;
through a handle by which nothing was changed nothing is written; and a sync right after one that
succeeded writes nothing. -/
theorem history_isProper (storage : σ) (slotCount : Nat) (allocator : Allocator)
    (requests : List Request)
    (hfresh : AllFresh requests
      (Cache.new (Traced.new storage) slotCount allocator : Cache (Traced σ φ) φ)) :
    let first : Cache (Traced σ φ) φ := Cache.new (Traced.new storage) slotCount allocator
    let last := (session requests first).2
    last.storage.calls.toList = (history requests first).filterMap call? ∧
      AllProper [] (history requests first) ∧
      (∀ earlier h file later rest,
        history requests first = earlier ++ .opened h file :: (later ++ rest) →
        .closed h ∉ later → (∀ block, .changed h block ∉ later) →
        ∀ offset bytes outcome, .call (.writeAt file offset bytes outcome) ∉ later) ∧
      ∀ h, (sync h last).1 = .ok () → ∀ file offset bytes outcome,
        .call (.writeAt file offset bytes outcome) ∉ (sync h last).2.moments (.sync h) := by
  intro first last
  have hleads : Leads [] first (history requests first) last :=
    leads_session (explained_new _ _ _) hfresh
  refine ⟨hleads.calls_eq, hleads.proper, ?_, ?_⟩
  · intro earlier h file later rest hsplit hclosed hunchanged
    have hproper := hleads.proper
    rw [hsplit] at hproper
    exact (allProper_append.mp hproper).2.unwritten hclosed hunchanged
  · intro h hok
    cases hf : last.table.get? h with
    | none =>
        rw [sync_of_none hf] at hok
        cases hok
    | some f =>
        obtain ⟨-, -, -, -, htable⟩ := sync_steps last h
        exact writeAt_notMem_sync (htable ▸ hf) (sync_clean hf hok)

/-- Files in memory whose first write fails, under a cache of one slot. -/
def balky : Cache (Traced (Scripted Memory) Memory.File) Memory.File :=
  Cache.new (Traced.new ⟨Memory.ofFiles Catalog.empty,
    [{ operation := .write, uses := some 1, fault := some Memory.failure }]⟩) 1

/-- A block whose first write fails in a sync is written when another file takes its slot. -/
def evictAfterSync : List Request :=
  [.openFile "a" OpenFlags.create 0, .openFile "b" OpenFlags.create 0, .write ⟨0⟩ ⟨#[1]⟩, .sync ⟨0⟩,
    .read ⟨1⟩ ⟨#[0]⟩, .write ⟨1⟩ ⟨#[2]⟩, .sync ⟨0⟩]

/-- The writes among what happens: their files and offsets, and whether they were complete. -/
def writesOf (moments : List (Moment Memory.File)) : List (Descriptor × Nat × Bool) :=
  moments.filterMap fun
    | .call (.writeAt file offset _ outcome) =>
        some (file.descriptor, offset, outcome.toOption == some blockSize)
    | _ => none

theorem history_isProper_balky :
    AllFresh evictAfterSync balky ∧
      writesOf (history evictAfterSync balky) = [(3, 0, false), (3, 0, true)] ∧
      AllProper [] (history evictAfterSync balky) ∧
      ∀ file offset bytes outcome, .call (.writeAt file offset bytes outcome) ∉
        (sync ⟨0⟩ (session evictAfterSync balky).2).2.moments (.sync ⟨0⟩) := by
  have hfresh : AllFresh evictAfterSync balky := by decide +kernel
  obtain ⟨-, hproper, -, hagain⟩ := history_isProper _ 1 .addressable evictAfterSync hfresh
  exact ⟨hfresh, by decide +kernel, hproper, hagain ⟨0⟩ (by decide +kernel)⟩

end Cache

end BlockCache
