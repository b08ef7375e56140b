import BlockCache.Proofs.Syncing
import BlockCache.Proofs.Traffic

/-!
Which failures of the storage a caller gets to see. A failure to open a file, to tell its size, to
read a block that is read, or to make a file durable is passed on as it is, code and all, whatever
else failed in the same request. That a block could not be written, or a file not be cut, is never
passed on: of blocks that are lost a sync or a close tells only that there are some.
-/

namespace BlockCache

/-- A failure with a code of the system has that code as its number. -/
theorem errno_ofCode (code : Int) : (Error.storage (Fault.ofCode code)).errno = code := by
  by_cases hinvalid : code = Errno.invalid
  · subst hinvalid
    rfl
  by_cases hmemory : code = Errno.noMemory
  · subst hmemory
    rfl
  have hkind : (Error.storage (Fault.ofCode code)).kind = .io := by
    show Fault.kindOfCode code = .io
    rw [Fault.kindOfCode, if_neg hinvalid, if_neg hmemory]
  rw [Error.errno, hkind]
  rfl

/-- The failure that a request passes on if it comes from this call. -/
def Call.passedOn? {φ : Type} : Request → Call φ → Option Fault
  | .openFile .., .openFile _ _ _ (.error fault) => some fault
  | .openFile .., .size _ (.error fault) => some fault
  | .read .., .readAt _ _ _ (.error fault) => some fault
  | .sync _, .sync _ (.error fault) => some fault
  | .close _, .sync _ (.error fault) => some fault
  | _, _ => none

namespace Cache

section Reports

variable {σ φ : Type}

/-- A request to sync or close an open file, in the course of which a block of the file was not
taken whole. -/
def LosesBlocks (c : Cache σ φ) (request : Request) (calls : List (Call φ)) : Prop :=
  ∃ h f, (request = .sync h ∨ request = .close h) ∧ c.table.get? h = some f ∧
    ∃ offset bytes outcome, .writeAt f.file offset bytes outcome ∈ calls ∧ outcome ≠ .ok blockSize

/-- The errors that a cache finds without the storage. -/
def ownErrors : List Error :=
  [.poolUnavailable, .tableFull, .notOpen, .negativeSeek, .seekTooFar, .writeTooFar]

/-- How the failure of a request, if it failed, comes from the calls that were made for it. -/
structure Reports (c : Cache σ φ) (request : Request) (failure : Option Error)
    (calls : List (Call φ)) : Prop where
  fault_iff : ∀ fault, failure = some (.storage fault) ↔
    ∃ call ∈ calls, call.passedOn? request = some fault
  lost_iff : failure = some .blocksNotWritten ↔
    (∀ call ∈ calls, call.passedOn? request = none) ∧ LosesBlocks c request calls
  cases : ∀ e, failure = some e →
    (∃ fault, e = .storage fault) ∨ e = .blocksNotWritten ∨ e ∈ ownErrors

variable {c : Cache σ φ} {request : Request} {calls : List (Call φ)}

/-- A failure that is passed on comes before everything else. -/
theorem Reports.of_fault {fault : Fault}
    (hmem : ∃ call ∈ calls, call.passedOn? request = some fault)
    (honly : ∀ call ∈ calls, ∀ other, call.passedOn? request = some other → other = fault) :
    Reports c request (some (.storage fault)) calls where
  fault_iff other := by
    constructor
    · intro heq
      obtain rfl := Error.storage.inj (Option.some.inj heq)
      exact hmem
    · rintro ⟨call, hcall, hother⟩
      rw [honly call hcall other hother]
  lost_iff := by
    refine ⟨fun heq => (nomatch heq), fun ⟨hquiet, _⟩ => ?_⟩
    obtain ⟨call, hcall, hfault⟩ := hmem
    rw [hquiet call hcall] at hfault
    cases hfault
  cases _ heq := Or.inl ⟨fault, (Option.some.inj heq).symm⟩

/-- Where no failure is passed on, all that can be told is that blocks were lost. -/
theorem Reports.of_lost (hquiet : ∀ call ∈ calls, call.passedOn? request = none)
    (hlost : LosesBlocks c request calls) :
    Reports c request (some .blocksNotWritten) calls where
  fault_iff fault := by
    refine ⟨fun heq => (nomatch heq), ?_⟩
    rintro ⟨call, hcall, hother⟩
    cases (hquiet call hcall).symm.trans hother
  lost_iff := ⟨fun _ => ⟨hquiet, hlost⟩, fun _ => rfl⟩
  cases _ heq := Or.inr (Or.inl (Option.some.inj heq).symm)

/-- Where no failure is passed on and no block is lost, a failure is the cache's own. -/
theorem Reports.of_own {failure : Option Error}
    (hquiet : ∀ call ∈ calls, call.passedOn? request = none)
    (hlost : ¬ LosesBlocks c request calls) (hown : ∀ e, failure = some e → e ∈ ownErrors) :
    Reports c request failure calls where
  fault_iff fault := by
    refine ⟨fun heq => absurd (hown _ heq) (by simp [ownErrors]), ?_⟩
    rintro ⟨call, hcall, hother⟩
    cases (hquiet call hcall).symm.trans hother
  lost_iff :=
    ⟨fun heq => absurd (hown _ heq) (by simp [ownErrors]), fun h => absurd h.2 hlost⟩
  cases e heq := Or.inr (Or.inr (hown e heq))

theorem not_losesBlocks (hsync : ∀ h, request ≠ .sync h) (hclose : ∀ h, request ≠ .close h) :
    ¬ LosesBlocks c request calls := by
  rintro ⟨h, f, heq | heq, -⟩
  · exact hsync h heq
  · exact hclose h heq

/-- What is done without a call of the storage fails by itself, if it fails. -/
theorem Reports.of_silent {failure : Option Error}
    (hown : ∀ e, failure = some e → e ∈ ownErrors) : Reports c request failure [] := by
  refine .of_own (fun _ hcall => nomatch hcall) ?_ hown
  rintro ⟨h, f, -, -, offset, bytes, outcome, hmem, -⟩
  cases hmem

end Reports

variable {σ φ : Type} [Storage σ φ] {c c' : Cache (Traced σ φ) φ} {h : Handle} {f : OpenFile φ}

/-! ### Opening a file -/

theorem Opening.reports {path : String} {flags : OpenFlags} {mode : Nat}
    {outcome : Except Error Handle} (hopening : Opening path flags mode c outcome c') :
    ∃ calls, c'.storage.calls.toList = c.storage.calls.toList ++ calls ∧
      Reports c (.openFile path flags mode) (Reply.opened outcome).failure? calls := by
  have hlost : ∀ calls, ¬ LosesBlocks c (.openFile path flags mode) calls := fun calls =>
    not_losesBlocks (fun _ heq => nomatch heq) fun _ heq => nomatch heq
  cases hopening with
  | unavailable =>
      exact ⟨[], (List.append_nil _).symm, .of_silent (by simp [Reply.failure?, ownErrors])⟩
  | full hready =>
      exact ⟨[], by rw [hready.storage_eq, List.append_nil],
        .of_silent (by simp [Reply.failure?, ownErrors])⟩
  | refused _ _ hopen =>
      have hcalls := Traced.calls_record (fun outcome => .openFile path flags mode outcome) hopen
      exact ⟨_, hcalls, .of_fault (by simp [Call.passedOn?]) (by simp [Call.passedOn?])⟩
  | @abandoned _ _ file fault _ sized _ _ hopen hsize =>
      have hopened := Traced.calls_record (fun outcome => .openFile path flags mode outcome) hopen
      have hsized := Traced.calls_record (fun outcome => .size file outcome) hsize
      have hclosed := Traced.calls_close file (s := sized)
      rw [hsized, hopened, List.append_assoc, List.append_assoc] at hclosed
      exact ⟨_, hclosed, .of_fault (by simp [Call.passedOn?]) (by simp [Call.passedOn?])⟩
  | @bound _ _ size file opened sized _ _ hopen hsize =>
      have hopened := Traced.calls_record (fun outcome => .openFile path flags mode outcome) hopen
      have hsized := Traced.calls_record (fun outcome => .size file outcome) hsize
      rw [hopened, List.append_assoc] at hsized
      exact ⟨_, hsized, .of_own (by simp [Call.passedOn?]) (hlost _) fun _ heq => nomatch heq⟩

/-! ### Syncing and closing -/

section Syncing

variable {request : Request} {after : List (Call φ)}

omit [Storage σ φ] in
/-- Of the calls of a sync that makes the file durable only the attempts to store a block write. -/
theorem losesBlocks_iff (attempts : List StoreAttempt) (hf : c.table.get? h = some f)
    (hrequest : request = .sync h ∨ request = .close h) (cut : Except Fault Unit)
    (hafter : ∀ call ∈ after, call = .close f.file) :
    LosesBlocks c request (attempts.map (·.call f.file) ++
        ([.sync f.file (.ok ()), .setLen f.file f.size cut] ++ after)) ↔
      ∃ a ∈ attempts, a.answer ≠ .ok blockSize := by
  constructor
  · rintro ⟨h', f', -, -, offset, bytes, outcome, hmem, hpart⟩
    rcases List.mem_append.mp hmem with hmem | hmem
    · obtain ⟨a, ha, hcall⟩ := List.mem_map.mp hmem
      injection hcall with _ _ _ hanswer
      exact ⟨a, ha, hanswer ▸ hpart⟩
    rcases List.mem_append.mp hmem with hmem | hmem
    · simp at hmem
    · cases hafter _ hmem
  · rintro ⟨a, ha, hpart⟩
    exact ⟨h, f, hrequest, hf, _, _, _, List.mem_append_left _ (List.mem_map_of_mem ha), hpart⟩

omit [Storage σ φ] in
theorem passedOn?_call (attempts : List StoreAttempt) (f : OpenFile φ)
    (hrequest : request = .sync h ∨ request = .close h) :
    ∀ call ∈ attempts.map (·.call f.file), call.passedOn? request = none := by
  intro call hcall
  obtain ⟨a, -, rfl⟩ := List.mem_map.mp hcall
  rcases hrequest with rfl | rfl <;> rfl

omit [Storage σ φ] in
theorem passedOn?_close (hrequest : request = .sync h ∨ request = .close h)
    (hafter : ∀ call ∈ after, call = .close f.file) :
    ∀ call ∈ after, call.passedOn? request = none := by
  intro call hcall
  rw [hafter call hcall]
  rcases hrequest with rfl | rfl <;> rfl

theorem flushOutcome_cases (c : Cache (Traced σ φ) φ) (f : OpenFile φ) :
    c.flushOutcome f = .ok () ∨ c.flushOutcome f = .error .blocksNotWritten := by
  rw [flushOutcome]
  split
  · exact Or.inr rfl
  · exact Or.inl rfl

/-- A sync passes on that the file could not be made durable, whatever became of its blocks, and
otherwise tells that blocks were lost if some were. The same holds with closing the file after
it. -/
theorem sync_reports (after : List (Call φ)) (hf : c.table.get? h = some f)
    (hrequest : request = .sync h ∨ request = .close h)
    (hafter : ∀ call ∈ after, call = .close f.file) :
    ∃ calls, (sync h c).2.storage.calls.toList = c.storage.calls.toList ++ calls ∧
      Reports c request (Reply.done (sync h c).1).failure? (calls ++ after) := by
  obtain ⟨attempts, -, hresults, hstored⟩ :=
    writeAll_attempts f.file (c.pool.dirtyBlocks f.descriptor) c.storage
  have hflushed : (c.flushed f).storage.calls.toList =
      c.storage.calls.toList ++ attempts.map (·.call f.file) := hstored
  have hstore := passedOn?_call attempts f hrequest
  have hclose := passedOn?_close hrequest hafter
  rcases sync_calls hf with ⟨fault, houtcome, hcalls⟩ | ⟨cut, houtcome, hcalls⟩
  · rw [hflushed, List.append_assoc] at hcalls
    refine ⟨_, hcalls, ?_⟩
    have hfault : (Call.sync f.file (.error fault)).passedOn? request = some fault := by
      rcases hrequest with rfl | rfl <;> rfl
    rw [houtcome, List.append_assoc]
    refine .of_fault ⟨_, by simp, hfault⟩ fun call hcall other hother => ?_
    rcases List.mem_append.mp hcall with hcall | hcall
    · cases (hstore call hcall).symm.trans hother
    rcases List.mem_append.mp hcall with hcall | hcall
    · rw [List.mem_singleton.mp hcall, hfault] at hother
      exact (Option.some.inj hother).symm
    · cases (hclose call hcall).symm.trans hother
  · rw [hflushed, List.append_assoc] at hcalls
    refine ⟨_, hcalls, ?_⟩
    have hdurable : ∀ call ∈ [Call.sync f.file (.ok ()), .setLen f.file f.size cut],
        call.passedOn? request = none := by
      rcases hrequest with rfl | rfl <;> simp [Call.passedOn?]
    have hquiet := List.forall_mem_append.mpr
      ⟨hstore, List.forall_mem_append.mpr ⟨hdurable, hclose⟩⟩
    have hlost := losesBlocks_iff attempts hf hrequest cut hafter
    have hok := flushOutcome_eq_ok_iff hresults
    rw [houtcome, List.append_assoc]
    rcases flushOutcome_cases c f with hwritten | hnot
    · rw [hwritten]
      refine .of_own hquiet (fun hlosing => ?_) fun _ heq => nomatch heq
      obtain ⟨a, ha, hpart⟩ := hlost.mp hlosing
      exact absurd (hok.mp hwritten a ha) hpart
    · rw [hnot] at hok ⊢
      refine .of_lost hquiet (hlost.mpr (Classical.byContradiction fun hnone => ?_))
      exact nomatch hok.mpr fun a ha => Classical.not_not.mp fun hpart => hnone ⟨a, ha, hpart⟩

end Syncing

/-! ### Reading -/

theorem passedOn?_of_isFailedRead {call : Call φ} (hcall : call.isFailedRead = false) (h : Handle)
    (buffer : ByteArray) : call.passedOn? (.read h buffer) = none := by
  cases call with
  | readAt file offset length outcome =>
      cases outcome with
      | ok => rfl
      | error => cases hcall
  | _ => rfl

/-- Whether calls end with a read that failed, the first one of them that did. -/
def EndsWithFailedRead (calls : List (Call φ)) (fault : Fault) : Prop :=
  ∃ before file offset length, calls = before ++ [.readAt file offset length (.error fault)] ∧
    ∀ call ∈ before, call.isFailedRead = false

theorem slotToRead_calls (hc : c.Housed) (hpos : 0 < c.pool.capacity) (f : OpenFile φ)
    (block : Nat) :
    ∃ calls, (slotToRead f block c).2.storage.calls.toList = c.storage.calls.toList ++ calls ∧
      ((∃ i, (slotToRead f block c).1 = .ok i) ∧ (∀ call ∈ calls, call.isFailedRead = false) ∨
        ∃ fault, (slotToRead f block c).1 = .error (.storage fault) ∧
          EndsWithFailedRead calls fault) := by
  rcases find_cases c ⟨f.descriptor, block⟩ with
    ⟨i, s, journal, hs, hkey, hfind⟩ | ⟨habsent, hfind⟩
  · rw [slotToRead_of_found hfind]
    exact ⟨[], (List.append_nil _).symm, Or.inl ⟨⟨i, rfl⟩, fun _ hcall => nomatch hcall⟩⟩
  · obtain ⟨c₁, hmade, hroom⟩ := room_of_absent hc hpos
    obtain ⟨before, hbefore, hquiet⟩ := hroom.adds
    rcases hread : Storage.readAt f.file (c₁.pool.blockAt c.pool.victim)
      (BlockId.offset ⟨f.descriptor, block⟩) c₁.storage with ⟨⟨fault | n, bytes⟩, storage⟩
    · have hcalls := Traced.calls_readAt hread
      rw [hbefore, List.append_assoc] at hcalls
      rw [slotToRead_of_error hfind hmade (Pool.fill_of_error _ (fetchBlock_of_error hread))]
      exact ⟨_, hcalls, Or.inr ⟨fault, rfl, before, _, _, _, rfl, hquiet⟩⟩
    · have hcalls := Traced.calls_readAt hread
      rw [hbefore, List.append_assoc] at hcalls
      rw [slotToRead_of_ok hfind hmade (Pool.fill_of_ok _ (fetchBlock_of_ok hread))]
      refine ⟨_, hcalls, Or.inl ⟨⟨_, rfl⟩, fun call hcall => ?_⟩⟩
      rcases List.mem_append.mp hcall with hcall | hcall
      · exact hquiet call hcall
      · rw [List.mem_singleton.mp hcall]
        rfl

/-- Copying out ends at the first block that cannot be read, with the failure to read it. -/
theorem copyOut_calls {n : Nat} (hc : c.Housed) (hf : c.table.get? h = some f) (cs : List Chunk)
    (buffer : Buffer n) :
    ∃ calls, (copyOut f cs buffer c).2.storage.calls.toList = c.storage.calls.toList ++ calls ∧
      ((copyOut f cs buffer c).1.1 = .ok () ∧ (∀ call ∈ calls, call.isFailedRead = false) ∨
        ∃ fault, (copyOut f cs buffer c).1.1 = .error (.storage fault) ∧
          EndsWithFailedRead calls fault) := by
  induction cs generalizing c buffer with
  | nil => exact ⟨[], (List.append_nil _).symm, Or.inl ⟨rfl, fun _ hcall => nomatch hcall⟩⟩
  | cons chunk rest ih =>
      have hpos := hc.capacity_pos hf
      obtain ⟨calls, hcalls, hend⟩ := slotToRead_calls hc hpos f chunk.block
      obtain ⟨how, i, c₁, haccess, ⟨hslot, -⟩ | ⟨fault, hslot, -⟩⟩ :=
        slotToRead_access hc hpos f chunk.block
      · rw [hslot] at hcalls hend
        obtain ⟨-, hquiet⟩ := hend.resolve_right fun ⟨_, herror, _⟩ => nomatch herror
        obtain ⟨callsRest, hcallsRest, hendRest⟩ := ih (haccess.housed hc hf rfl)
          (haccess.table_eq ▸ hf) (buffer.blit chunk.position
            (Bytes.slice (c₁.pool.blockAt i).bytes chunk.start chunk.length))
        rw [hcalls, List.append_assoc] at hcallsRest
        rw [copyOut_of_ok chunk hslot]
        refine ⟨_, hcallsRest, ?_⟩
        rcases hendRest with ⟨hok, hquietRest⟩ |
          ⟨fault, herror, before, file, offset, length, rfl, hbefore⟩
        · exact Or.inl ⟨hok, List.forall_mem_append.mpr ⟨hquiet, hquietRest⟩⟩
        · exact Or.inr ⟨fault, herror, calls ++ before, file, offset, length,
            (List.append_assoc _ _ _).symm, List.forall_mem_append.mpr ⟨hquiet, hbefore⟩⟩
      · rw [hslot] at hcalls hend
        obtain ⟨fault', herror, hends⟩ := hend.resolve_left fun ⟨⟨_, hok⟩, _⟩ => nomatch hok
        rw [copyOut_of_error chunk hslot]
        exact ⟨calls, hcalls, Or.inr ⟨fault', congrArg _ (Except.error.inj herror), hends⟩⟩

theorem read_reports (hc : c.Housed) (h : Handle) (buffer : ByteArray) :
    ∃ calls, (serve (.read h buffer) c).2.storage.calls.toList =
        c.storage.calls.toList ++ calls ∧
      Reports c (.read h buffer) (serve (.read h buffer) c).1.failure? calls := by
  show ∃ calls, (read h (Buffer.ofBytes buffer) c).2.storage.calls.toList = _ ∧
    Reports c _ (Reply.bytes (read h (Buffer.ofBytes buffer) c).1.1
      (read h (Buffer.ofBytes buffer) c).1.2.bytes).failure? calls
  have hlost : ∀ calls, ¬ LosesBlocks c (.read h buffer) calls := fun calls =>
    not_losesBlocks (fun _ heq => nomatch heq) fun _ heq => nomatch heq
  cases hf : c.table.get? h with
  | none =>
      rw [read_of_none hf]
      exact ⟨[], (List.append_nil _).symm, .of_silent (by simp [Reply.failure?, ownErrors])⟩
  | some f =>
      by_cases hend : f.size ≤ f.cursor
      · rw [read_of_end hf hend]
        exact ⟨[], (List.append_nil _).symm, .of_silent fun _ heq => nomatch heq⟩
      have hlt := Nat.not_le.mp hend
      obtain ⟨calls, hcalls, ⟨hok, hquiet⟩ | ⟨fault, herror, before, file, offset, length, rfl,
        hbefore⟩⟩ := copyOut_calls hc hf (readChunks f buffer.size) (Buffer.ofBytes buffer)
      · rcases hcopy : copyOut f (readChunks f buffer.size) (Buffer.ofBytes buffer) c with
          ⟨⟨outcome, buffer'⟩, c₁⟩
        rw [hcopy] at hok hcalls
        obtain rfl : outcome = .ok () := hok
        rw [read_of_ok hf hlt hcopy]
        exact ⟨calls, hcalls, .of_own (fun call hcall =>
          passedOn?_of_isFailedRead (hquiet call hcall) h buffer) (hlost calls)
          fun _ heq => nomatch heq⟩
      · rw [read_of_error hf hlt herror]
        refine ⟨_, hcalls, .of_fault ⟨_, List.mem_append_right _ (List.mem_singleton_self _), rfl⟩
          fun call hcall other hother => ?_⟩
        rcases List.mem_append.mp hcall with hcall | hcall
        · rw [passedOn?_of_isFailedRead (hbefore call hcall)] at hother
          cases hother
        · rw [List.mem_singleton.mp hcall] at hother
          exact (Option.some.inj hother).symm

/-! ### Any request -/

/-- A request about a handle that is not open fails by itself. -/
theorem reports_of_none {request : Request} (hf : c.table.get? h = none)
    (hhandle : request.handle? = some h) :
    ∃ calls, (serve request c).2.storage.calls.toList = c.storage.calls.toList ++ calls ∧
      Reports c request (serve request c).1.failure? calls := by
  obtain ⟨hfailure, hsame⟩ := serve_of_none hf hhandle
  rw [hfailure, hsame]
  exact ⟨[], (List.append_nil _).symm, .of_silent (by simp [ownErrors])⟩

/-- A write fails by itself only, whatever becomes of the blocks it puts out. -/
theorem write_reports (hc : c.Housed) (hf : c.table.get? h = some f) (data : ByteArray) :
    ∃ calls, (serve (.write h data) c).2.storage.calls.toList =
        c.storage.calls.toList ++ calls ∧
      Reports c (.write h data) (serve (.write h data) c).1.failure? calls := by
  obtain ⟨calls, hcalls, -⟩ := (serve_serving hc (.write h data)).adds
  have hquiet : ∀ call ∈ calls, call.passedOn? (.write h data) = none := by
    intro call _
    cases call <;> rfl
  have hlost : ¬ LosesBlocks c (.write h data) calls :=
    not_losesBlocks (fun _ => Request.noConfusion) fun _ => Request.noConfusion
  refine ⟨calls, hcalls, .of_own hquiet hlost ?_⟩
  show ∀ e, (Reply.number (write h data c).1).failure? = some e → _
  rcases write_of_some hf data with ⟨-, hfar, -⟩ | ⟨-, hnear, -⟩
  · rw [hfar]
    simp [Reply.failure?, ownErrors]
  · rw [hnear]
    simp [Reply.failure?]

/-- A seek makes no call, and fails by itself. -/
theorem seek_reports (hf : c.table.get? h = some f) (target : SeekTarget) :
    ∃ calls, (serve (.seek h target) c).2.storage.calls.toList =
        c.storage.calls.toList ++ calls ∧
      Reports c (.seek h target) (serve (.seek h target) c).1.failure? calls := by
  show ∃ calls, (seek h target c).2.storage.calls.toList = _ ∧
    Reports c _ (Reply.number (seek h target c).1).failure? calls
  cases hseek : f.seek target with
  | error e =>
      rw [seek_of_error hf hseek]
      refine ⟨[], (List.append_nil _).symm, .of_silent fun e' he => ?_⟩
      obtain rfl := Option.some.inj he
      unfold OpenFile.seek at hseek
      split at hseek
      · obtain rfl := Except.error.inj hseek
        decide
      split at hseek
      · obtain rfl := Except.error.inj hseek
        decide
      · cases hseek
  | ok f' =>
      rw [seek_of_ok hf hseek]
      exact ⟨[], (List.append_nil _).symm, .of_silent (by simp [Reply.failure?])⟩

/-- The failure of a request comes from its calls in this way, whatever the request. -/
theorem serve_reports (hc : c.Housed) (request : Request) :
    ∃ calls, (serve request c).2.storage.calls.toList = c.storage.calls.toList ++ calls ∧
      Reports c request (serve request c).1.failure? calls := by
  cases request with
  | openFile path flags mode => exact (openFile_opening path flags mode c).reports
  | close h =>
      cases hf : c.table.get? h with
      | none => exact reports_of_none hf rfl
      | some f =>
          obtain ⟨houtcome, hstorage, -⟩ := close_of_some hf
          obtain ⟨calls, hcalls, hreports⟩ := sync_reports [.close f.file] hf (Or.inr rfl)
            fun call hcall => List.mem_singleton.mp hcall
          show ∃ calls, (close h c).2.storage.calls.toList = _ ∧
            Reports c _ (Reply.done (close h c).1).failure? calls
          rw [houtcome, hstorage, Traced.calls_close, hcalls, List.append_assoc]
          exact ⟨_, rfl, hreports⟩
  | sync h =>
      cases hf : c.table.get? h with
      | none => exact reports_of_none hf rfl
      | some f =>
          obtain ⟨calls, hcalls, hreports⟩ := sync_reports [] hf (Or.inl rfl)
            fun call hcall => absurd hcall List.not_mem_nil
          rw [List.append_nil] at hreports
          exact ⟨calls, hcalls, hreports⟩
  | read h buffer => exact read_reports hc h buffer
  | write h data =>
      cases hf : c.table.get? h with
      | none => exact reports_of_none hf rfl
      | some f => exact write_reports hc hf data
  | seek h target =>
      cases hf : c.table.get? h with
      | none => exact reports_of_none hf rfl
      | some f => exact seek_reports hf target
  | position h | length h | flags h | isResident h =>
      cases hf : c.table.get? h with
      | none => exact reports_of_none hf rfl
      | some f =>
          refine ⟨[], (List.append_nil _).symm, .of_silent ?_⟩
          simp only [serve, bind_apply, get_apply, pure_apply, position, length, Cache.flags,
            isResident, c.table.get_of_some hf]
          rintro _ ⟨⟩

/-- In every session, whatever the storage does: a request fails with a failure of the storage just
if one of the calls made for it failed so, and the failure of such a call is one to pass on. It is
passed on as it is: one that the system reports by a code has that code, which is its error number
too. That blocks were lost is told just if nothing was to be passed on, and only by a sync or a
close, of its own file, as an input or output error without a code. Any other failure is one that
the cache finds without the storage. -/
theorem faults_passed_on (storage : σ) (slotCount : Nat) (allocator : Allocator)
    (past : List Request) (request : Request) :
    let c : Cache (Traced σ φ) φ :=
      (session past (Cache.new (Traced.new storage) slotCount allocator)).2
    let failure := (serve request c).1.failure?
    let calls := (serve request c).2.callsSince c
    (∀ fault, failure = some (.storage fault) ↔
        ∃ call ∈ calls, call.passedOn? request = some fault) ∧
      (∀ code, (Error.storage (Fault.ofCode code)).code = some code ∧
        (Error.storage (Fault.ofCode code)).errno = code) ∧
      (failure = some .blocksNotWritten ↔
        (∀ call ∈ calls, call.passedOn? request = none) ∧ LosesBlocks c request calls) ∧
      (Error.blocksNotWritten.kind = .io ∧ Error.blocksNotWritten.code = none) ∧
      ∀ e, failure = some e →
        (∃ fault, e = .storage fault) ∨ e = .blocksNotWritten ∨ e ∈ ownErrors := by
  intro c failure calls
  have hc : c.Housed := (housed_new _ _ _).session past
  obtain ⟨made, hmade, hreports⟩ := serve_reports hc request
  have hcalls : calls = made := callsSince_of_append hmade
  rw [hcalls]
  exact ⟨hreports.fault_iff, fun code => ⟨rfl, errno_ofCode code⟩, hreports.lost_iff, ⟨rfl, rfl⟩,
    hreports.cases⟩

/-- Two dirty blocks of a file that can neither be written nor made durable. -/
def unwritable : Scripted Memory :=
  ⟨Memory.ofFiles Catalog.empty,
    [{ operation := .write, offsets := some [0], fault := some (Fault.ofCode Errno.noMemory) },
      { operation := .write, fault := some (Fault.ofCode 28) },
      { operation := .sync, uses := some 1, fault := some (Fault.ofCode Errno.invalid) }]⟩

def writtenTwice : List Request :=
  [.openFile "a" OpenFlags.create 0, .write ⟨0⟩ ⟨#[1]⟩, .seek ⟨0⟩ (.start blockSize),
    .write ⟨0⟩ ⟨#[2]⟩]

/-- The first sync tells that the file is not durable, and the second, which makes it durable, that
blocks were lost. -/
theorem faults_passed_on_unwritable :
    let first : Cache (Traced (Scripted Memory) Memory.File) Memory.File :=
      (session writtenTwice (Cache.new (Traced.new unwritable) 4)).2
    let second : Cache (Traced (Scripted Memory) Memory.File) Memory.File :=
      (session (writtenTwice ++ [.sync ⟨0⟩]) (Cache.new (Traced.new unwritable) 4)).2
    (serve (.sync ⟨0⟩) first).1.failure? = some (.storage (Fault.ofCode Errno.invalid)) ∧
      (∃ call ∈ (serve (.sync ⟨0⟩) first).2.callsSince first,
        call.passedOn? (.sync ⟨0⟩) = some (Fault.ofCode Errno.invalid)) ∧
      (serve (.close ⟨0⟩) second).1.failure? = some .blocksNotWritten ∧
      LosesBlocks second (.close ⟨0⟩) ((serve (.close ⟨0⟩) second).2.callsSince second) := by
  intro first second
  obtain ⟨hfault, -⟩ :=
    @faults_passed_on (Scripted Memory) Memory.File _ unwritable 4 .addressable writtenTwice
      (.sync ⟨0⟩)
  obtain ⟨-, -, hlost, -⟩ := @faults_passed_on (Scripted Memory) Memory.File _ unwritable 4
    .addressable (writtenTwice ++ [.sync ⟨0⟩]) (.close ⟨0⟩)
  have hfirst : (serve (.sync ⟨0⟩) first).1.failure? =
      some (.storage (Fault.ofCode Errno.invalid)) := by decide +kernel
  have hsecond : (serve (.close ⟨0⟩) second).1.failure? = some .blocksNotWritten := by
    decide +kernel
  exact ⟨hfirst, (hfault _).mp hfirst, hsecond, (hlost.mp hsecond).2⟩

end Cache

end BlockCache
