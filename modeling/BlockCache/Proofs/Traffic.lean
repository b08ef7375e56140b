import BlockCache.Proofs.Serving

/-!
The calls of the storage that a cache makes for a request. Opening a file moves no block, a sync and
a close only write some, and a transfer that ends at a block that is refused has made a read that
failed. No call that was made is ever taken back.
-/

namespace BlockCache

namespace Call

variable {φ : Type}

def isRead : Call φ → Bool
  | readAt .. => true
  | _ => false

def isWrite : Call φ → Bool
  | writeAt .. => true
  | _ => false

def isFailedRead : Call φ → Bool
  | readAt _ _ _ (.error _) => true
  | _ => false

/-- Whether a call was to write a block and did not write all of it. -/
def isFailedWrite : Call φ → Bool
  | writeAt _ _ _ (.ok n) => n != blockSize
  | writeAt _ _ _ (.error _) => true
  | _ => false

end Call

namespace Traced

variable {σ φ : Type} {p q : Call φ → Prop} {s s' s'' : Traced σ φ}

/-- Whether every call on the way from one state of a storage to another has a property. -/
def Adds (p : Call φ → Prop) (s s' : Traced σ φ) : Prop :=
  ∃ calls, s'.calls.toList = s.calls.toList ++ calls ∧ ∀ call ∈ calls, p call

namespace Adds

theorem refl (p : Call φ → Prop) (s : Traced σ φ) : Adds p s s :=
  ⟨[], (List.append_nil _).symm, fun _ hmem => nomatch hmem⟩

theorem single {call : Call φ} (hcall : p call)
    (heq : s'.calls.toList = s.calls.toList ++ [call]) : Adds p s s' :=
  ⟨[call], heq, fun _ hmem => List.mem_singleton.mp hmem ▸ hcall⟩

theorem trans (h : Adds p s s') (h' : Adds p s' s'') : Adds p s s'' := by
  obtain ⟨calls, heq, hall⟩ := h
  obtain ⟨calls', heq', hall'⟩ := h'
  refine ⟨calls ++ calls', by rw [heq', heq, List.append_assoc], fun call hmem => ?_⟩
  exact (List.mem_append.mp hmem).elim (hall call) (hall' call)

theorem mono (h : Adds p s s') (hpq : ∀ call, p call → q call) : Adds q s s' := by
  obtain ⟨calls, heq, hall⟩ := h
  exact ⟨calls, heq, fun call hmem => hpq call (hall call hmem)⟩

theorem mem (h : Adds p s s') {call : Call φ} (hmem : call ∈ s.calls.toList) :
    call ∈ s'.calls.toList := by
  obtain ⟨calls, heq, -⟩ := h
  rw [heq]
  exact List.mem_append_left _ hmem

theorem countP_eq (h : Adds p s s') (count : Call φ → Bool)
    (hnone : ∀ call, p call → count call = false) :
    s'.calls.toList.countP count = s.calls.toList.countP count := by
  obtain ⟨calls, heq, hall⟩ := h
  have hzero : calls.countP count = 0 :=
    List.countP_eq_zero.mpr fun call hmem => by simp [hnone call (hall call hmem)]
  rw [heq, List.countP_append, hzero, Nat.add_zero]

end Adds

/-- Whether no block is read or written on the way from one state of a storage to another. -/
def MovesNone (s s' : Traced σ φ) : Prop :=
  Adds (fun call => call.isRead = false ∧ call.isWrite = false) s s'

theorem movesNone_record {α : Type} {call : StateM σ α} {a : α} (entry : α → Call φ)
    (hrun : record call entry s = (a, s'))
    (hentry : (entry a).isRead = false ∧ (entry a).isWrite = false) : MovesNone s s' :=
  .single hentry (calls_record entry hrun)

variable [Storage σ φ] {file : φ}

theorem movesNone_openFile {path : String} {flags : OpenFlags} {mode : Nat}
    {outcome : Except Fault φ} (hrun : Storage.openFile path flags mode s = (outcome, s')) :
    MovesNone s s' :=
  movesNone_record (fun outcome => .openFile path flags mode outcome) hrun ⟨rfl, rfl⟩

theorem movesNone_size {outcome : Except Fault Nat}
    (hrun : Storage.size file s = (outcome, s')) : MovesNone s s' :=
  movesNone_record (fun outcome => .size file outcome) hrun ⟨rfl, rfl⟩

theorem movesNone_sync {outcome : Except Fault Unit}
    (hrun : Storage.sync file s = (outcome, s')) : MovesNone s s' :=
  movesNone_record (fun outcome => .sync file outcome) hrun ⟨rfl, rfl⟩

theorem movesNone_setLen {size : Nat} {outcome : Except Fault Unit}
    (hrun : Storage.setLen file size s = (outcome, s')) : MovesNone s s' :=
  movesNone_record (fun outcome => .setLen file size outcome) hrun ⟨rfl, rfl⟩

theorem movesNone_close (file : φ) (s : Traced σ φ) : MovesNone s (Storage.close file s).2 :=
  .single ⟨rfl, rfl⟩ (calls_close file)

/-- A block that is asked of the storage is one read. -/
theorem countP_readAt {n offset : Nat} {buffer : Buffer n} {outcome : Except Fault Nat × Buffer n}
    (hrun : Storage.readAt file buffer offset s = (outcome, s')) :
    s'.calls.toList.countP Call.isRead = s.calls.toList.countP Call.isRead + 1 ∧
      s'.calls.toList.countP Call.isWrite = s.calls.toList.countP Call.isWrite := by
  rw [calls_readAt hrun]
  simp [Call.isRead, Call.isWrite]

end Traced

namespace Cache

variable {σ φ : Type} [Storage σ φ] {c c' : Cache (Traced σ φ) φ} {file : φ} {f : OpenFile φ}
  {h : Handle} {touch : Touch} {how : How} {i : Nat}

/-! ### Blocks that are written back -/

/-- A block that is stored is one write. -/
theorem countP_storeBlock {key : BlockId} {block : Block} {s s' : Traced σ φ}
    {outcome : Except Error Unit} (hrun : storeBlock file key block s = (outcome, s')) :
    s'.calls.toList.countP Call.isRead = s.calls.toList.countP Call.isRead ∧
      s'.calls.toList.countP Call.isWrite = s.calls.toList.countP Call.isWrite + 1 := by
  obtain ⟨result, hwrite, -⟩ := storeBlock_run hrun
  rw [Traced.calls_writeAt hwrite]
  simp [Call.isRead, Call.isWrite]

theorem adds_storeBlock (file : φ) (key : BlockId) (block : Block) (s : Traced σ φ) :
    Traced.Adds (·.isRead = false) s (storeBlock file key block s).2 := by
  obtain ⟨result, hwrite, -⟩ := storeBlock_run (Prod.eta (storeBlock file key block s))
  exact .single rfl (Traced.calls_writeAt hwrite)

theorem adds_writeAll (file : φ) (dirty : List Pool.DirtyBlock) (s : Traced σ φ) :
    Traced.Adds (·.isRead = false) s (Pool.writeAll (storeBlock file) dirty s).2 := by
  induction dirty generalizing s with
  | nil => exact .refl _ s
  | cons d rest ih =>
      rw [Pool.writeAll_cons]
      exact (adds_storeBlock file d.key d.block s).trans (ih _)

/-- A sync moves no block but those that it writes back. -/
theorem movesNone_sync (hf : c.table.get? h = some f) :
    Traced.MovesNone (c.flushed f).storage (sync h c).2.storage := by
  rcases hsync : Storage.sync f.file (c.flushed f).storage with ⟨_ | _, storage⟩
  · rw [sync_of_error hf hsync]
    exact Traced.movesNone_sync hsync
  · rw [sync_of_ok hf hsync]
    rcases hset : Storage.setLen f.file f.size storage with ⟨_ | _, cut⟩
    · rw [trim_of_error hset]
      exact (Traced.movesNone_sync hsync).trans (Traced.movesNone_setLen hset)
    · rw [trim_of_ok hset]
      exact (Traced.movesNone_sync hsync).trans (Traced.movesNone_setLen hset)

theorem adds_sync (hf : c.table.get? h = some f) :
    Traced.Adds (·.isRead = false) c.storage (sync h c).2.storage :=
  (adds_writeAll f.file (c.pool.dirtyBlocks f.descriptor) c.storage).trans
    ((movesNone_sync hf).mono fun _ hcall => hcall.1)

theorem adds_close (hf : c.table.get? h = some f) :
    Traced.Adds (·.isRead = false) c.storage (close h c).2.storage := by
  obtain ⟨-, hstorage, -⟩ := close_of_some hf
  rw [hstorage]
  exact (adds_sync hf).trans ((Traced.movesNone_close _ _).mono fun _ hcall => hcall.1)

/-! ### Blocks that are read in -/

/-- Opening a file moves no block. -/
theorem Opening.movesNone {path : String} {flags : OpenFlags} {mode : Nat}
    {outcome : Except Error Handle} (hopening : Opening path flags mode c outcome c') :
    Traced.MovesNone c.storage c'.storage := by
  cases hopening with
  | unavailable => exact .refl _ _
  | full hready =>
      rw [hready.storage_eq]
      exact .refl _ _
  | refused _ _ hopen => exact Traced.movesNone_openFile hopen
  | abandoned _ _ hopen hsize =>
      exact ((Traced.movesNone_openFile hopen).trans (Traced.movesNone_size hsize)).trans
        (Traced.movesNone_close _ _)
  | bound _ _ hopen hsize =>
      exact (Traced.movesNone_openFile hopen).trans (Traced.movesNone_size hsize)

/-- To make room blocks are written at most. -/
theorem MadeRoom.adds (hroom : MadeRoom c c') :
    Traced.Adds (·.isFailedRead = false) c.storage c'.storage := by
  cases hroom with
  | free | clean => exact .refl _ _
  | dirty _ _ hstore =>
      obtain ⟨result, hwrite, -⟩ := storeBlock_run hstore
      exact .single rfl (Traced.calls_writeAt hwrite)

/-- A block that could not be read in was asked of the storage with a read that failed. -/
theorem Filled.calls (hfilled : Filled file touch i c how c') :
    ∃ calls, c'.storage.calls.toList = c.storage.calls.toList ++ calls ∧
      (how = .refused ∨ how = .zeroed → calls.any Call.isFailedRead = true) := by
  cases hfilled with
  | loaded _ hread | refused _ hread | zeroed _ hread =>
      exact ⟨_, Traced.calls_readAt hread, by simp [Call.isFailedRead]⟩
  | taken => exact ⟨[], (List.append_nil _).symm, by simp⟩

theorem Access.calls (haccess : Access file touch c how i c') :
    ∃ calls, c'.storage.calls.toList = c.storage.calls.toList ++ calls ∧
      (how = .refused → calls.any Call.isFailedRead = true) := by
  cases haccess with
  | found => exact ⟨[], (List.append_nil _).symm, by simp⟩
  | missed _ hroom hfilled =>
      obtain ⟨before, hbefore, -⟩ := hroom.adds
      obtain ⟨after, hafter, hfailed⟩ := hfilled.calls
      refine ⟨before ++ after, by rw [hafter, hbefore, List.append_assoc], fun hhow => ?_⟩
      rw [List.any_append, hfailed (Or.inl hhow), Bool.or_true]

theorem Access.adds (haccess : Access file touch c how i c') (hhow : how = .found ∨ how = .loaded) :
    Traced.Adds (·.isFailedRead = false) c.storage c'.storage := by
  cases haccess with
  | found => exact .refl _ _
  | missed _ hroom hfilled =>
      cases hfilled with
      | loaded _ hread => exact hroom.adds.trans (.single rfl (Traced.calls_readAt hread))
      | refused | zeroed | taken => rcases hhow with hhow | hhow <;> cases hhow

/-- A transfer that ends at a block that is refused has made a read that failed. -/
theorem Transfer.calls {parts : List (Touch × How)} (htransfer : Transfer f c parts c') :
    ∃ calls, c'.storage.calls.toList = c.storage.calls.toList ++ calls ∧
      ((∃ p ∈ parts, p.2 = .refused) → calls.any Call.isFailedRead = true) := by
  induction htransfer with
  | nil => exact ⟨[], (List.append_nil _).symm, fun ⟨_, hp, _⟩ => nomatch hp⟩
  | out _ haccess _ ih | into _ _ _ haccess _ ih =>
      obtain ⟨first, hfirst, hfailed⟩ := haccess.calls
      obtain ⟨rest, hrest, hfailed'⟩ := ih
      refine ⟨first ++ rest, by rw [hrest, hfirst, List.append_assoc], fun ⟨p, hp, hhow⟩ => ?_⟩
      rw [List.any_append, Bool.or_eq_true]
      rcases List.mem_cons.mp hp with rfl | hp
      · exact Or.inl (hfailed hhow)
      · exact Or.inr (hfailed' ⟨p, hp, hhow⟩)

theorem Transfer.adds {parts : List (Touch × How)} (htransfer : Transfer f c parts c') :
    Traced.Adds (fun _ => True) c.storage c'.storage := by
  obtain ⟨calls, heq, -⟩ := htransfer.calls
  exact ⟨calls, heq, fun _ _ => trivial⟩

/-- A transfer makes no read that fails if every block is found or read in. -/
theorem Transfer.adds_of_had {parts : List (Touch × How)} (htransfer : Transfer f c parts c')
    (hhad : ∀ p ∈ parts, p.2 = .found ∨ p.2 = .loaded) :
    Traced.Adds (·.isFailedRead = false) c.storage c'.storage := by
  induction htransfer with
  | nil => exact .refl _ _
  | out _ haccess _ ih | into _ _ _ haccess _ ih =>
      exact (haccess.adds (hhad _ List.mem_cons_self)).trans
        (ih fun p hp => hhad p (List.mem_cons_of_mem _ hp))

/-! ### Requests -/

/-- The calls that were made stay. -/
theorem Serving.adds {request : Request} {reply : Reply} (hserving : Serving c request reply c') :
    Traced.Adds (fun _ => True) c.storage c'.storage := by
  cases hserving with
  | opening hopening => exact hopening.movesNone.mono fun _ _ => trivial
  | closing hf => exact (adds_close hf).mono fun _ _ => trivial
  | syncing hf => exact (adds_sync hf).mono fun _ _ => trivial
  | moving _ _ htransfer => exact htransfer.adds
  | refused _ htransfer => exact htransfer.adds
  | idle => exact .refl _ _

theorem adds_session (hc : c.Housed) (requests : List Request) :
    Traced.Adds (fun _ => True) c.storage (session requests c).2.storage := by
  induction requests generalizing c with
  | nil => exact .refl _ _
  | cons request rest ih => exact (serve_serving hc request).adds.trans (ih (hc.serve request))

end Cache

end BlockCache
