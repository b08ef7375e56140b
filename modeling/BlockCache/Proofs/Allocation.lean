import BlockCache.Proofs.Serving
import BlockCache.Proofs.Sizes
import BlockCache.Storage.Scripted

/-!
How handles are given out. Which of them are open is told by what was asked and answered so far. A
file that is opened gets the lowest of the others; none is opened while all are in use; and opening
a file that fails, like any request about a handle that is not open, changes nothing.
-/

namespace BlockCache

def opensNext (h : Handle) (isOpen : Bool) : Request × Reply → Bool
  | (_, .opened (.ok h')) => if h' = h then true else isOpen
  | (.close h', _) => if h' = h then false else isOpen
  | _ => isOpen

/-- Whether a handle is open after what was asked and answered: it was given out, and not closed
since. -/
def isOpenAfter (past : List (Request × Reply)) (h : Handle) : Bool :=
  past.foldl (opensNext h) false

/-- Only an open file or a close makes a difference to a handle. -/
theorem opensNext_other {h : Handle} {isOpen : Bool} {request : Request} {reply : Reply}
    (hopen : reply ≠ .opened (.ok h)) (hclose : request ≠ .close h) :
    opensNext h isOpen (request, reply) = isOpen := by
  unfold opensNext
  split
  · rename_i heq
    obtain ⟨-, rfl⟩ := Prod.mk.inj heq
    exact if_neg fun hh => hopen (by rw [hh])
  · rename_i heq
    obtain ⟨rfl, -⟩ := Prod.mk.inj heq
    exact if_neg fun hh => hclose (by rw [hh])
  · rfl

namespace FileTable

variable {φ : Type} {t : FileTable φ} {i : Nat}

/-- Every number below the first free place is a handle of an open file. -/
theorem isSome_of_lt_lowestFree (hi : t.lowestFree = some i) {j : Nat} (hj : j < i) :
    (t.get? ⟨j⟩).isSome = true := by
  obtain ⟨hlt, -, hbefore⟩ := Array.findIdx?_eq_some_iff_getElem.mp hi
  have hopen := hbefore j hj
  have hsize := Nat.lt_trans hj hlt
  rw [get?, Array.getElem?_eq_getElem hsize]
  cases hentry : t.entries[j] with
  | none => exact absurd (by rw [hentry]; rfl) hopen
  | some f => rfl

theorem lowestFree_lt (hi : t.lowestFree = some i) : i < t.entries.size :=
  (Array.findIdx?_eq_some_iff_getElem.mp hi).1

theorem lowestFree_eq_none_iff :
    t.lowestFree = none ↔ ∀ i < t.entries.size, (t.get? ⟨i⟩).isSome = true := by
  constructor
  · intro hnone i hi
    have hopen := Array.findIdx?_eq_none_iff.mp hnone _ (Array.getElem_mem hi)
    rw [get?, Array.getElem?_eq_getElem hi]
    cases hentry : t.entries[i] with
    | none => rw [hentry] at hopen; cases hopen
    | some f => rfl
  · intro hall
    cases hi : t.lowestFree with
    | none => rfl
    | some i =>
        have hopen := hall i (lowestFree_lt hi)
        rw [t.get?_lowestFree hi] at hopen
        cases hopen

theorem get?_of_size_le {h : Handle} (hle : t.entries.size ≤ h.index) : t.get? h = none := by
  rw [get?, Array.getElem?_eq_none hle]
  rfl

end FileTable

namespace Cache

variable {σ φ : Type} [Storage σ φ] {c : Cache σ φ} {h : Handle}

/-! ### What requests do to the table -/

/-- No request changes how many places there are for open files. -/
theorem places_serve (request : Request) (c : Cache σ φ) :
    (serve request c).2.table.entries.size = c.table.entries.size := by
  cases request with
  | openFile path flags mode =>
      have hopening := openFile_opening path flags mode c
      show (openFile path flags mode c).2.table.entries.size = _
      generalize (openFile path flags mode c).1 = outcome at hopening
      generalize (openFile path flags mode c).2 = c' at hopening
      cases hopening with
      | unavailable => rfl
      | full hready | refused hready | abandoned hready =>
          exact congrArg (fun t : FileTable φ => t.entries.size) hready.table_eq
      | bound hready =>
          exact Array.size_modify.trans
            (congrArg (fun t : FileTable φ => t.entries.size) hready.table_eq)
  | close h =>
      show (close h c).2.table.entries.size = _
      cases hf : c.table.get? h with
      | none => rw [close_of_none hf]
      | some f =>
          obtain ⟨-, -, -, htable⟩ := close_of_some hf
          rw [htable]
          exact Array.size_modify
  | sync h =>
      obtain ⟨-, -, -, -, htable⟩ := sync_steps_trim c h
      exact congrArg (fun t : FileTable φ => t.entries.size) htable
  | read h buffer =>
      show (read h (Buffer.ofBytes buffer) c).2.table.entries.size = _
      rcases table_read h (Buffer.ofBytes buffer) c with htable | ⟨count, htable⟩ <;> rw [htable]
      exact Array.size_modify
  | write h data =>
      show (write h data c).2.table.entries.size = _
      cases hf : c.table.get? h with
      | none => rw [write_of_none hf]
      | some f =>
          rcases write_of_some hf data with ⟨-, -, htable⟩ | ⟨-, -, htable⟩ <;> rw [htable]
          · exact Array.size_modify
          · exact Array.size_modify.trans Array.size_modify
  | seek h target =>
      show (seek h target c).2.table.entries.size = _
      rcases table_seek h target c with htable | ⟨f, cursor, -, htable⟩ <;> rw [htable]
      exact Array.size_modify
  | position | length | flags | isResident => rfl

/-- Whether a handle is open follows what is asked and answered. -/
theorem isSome_serve (h : Handle) (request : Request) (c : Cache σ φ) :
    ((serve request c).2.table.get? h).isSome =
      opensNext h (c.table.get? h).isSome (request, (serve request c).1) := by
  by_cases hopen : (serve request c).1 = .opened (.ok h)
  · obtain ⟨-, path, flags, mode, rfl⟩ := get?_of_opened hopen
    obtain ⟨-, file, size, opened, sized, -, -, hget⟩ :=
      get?_openFile_of_ok (Reply.opened.inj hopen)
    rw [hopen, serve, map_apply]
    dsimp only
    rw [hget, if_pos rfl]
    exact (if_pos rfl).symm
  by_cases hclose : request = .close h
  · subst hclose
    have hnext :
        opensNext h (c.table.get? h).isSome (.close h, (serve (.close h) c).1) = false := by
      rw [serve, map_apply, opensNext]
      · exact if_pos rfl
      · intro _ heq
        cases heq
    rw [hnext, serve, map_apply]
    cases hf : c.table.get? h with
    | none =>
        rw [close_of_none hf]
        exact congrArg Option.isSome hf
    | some f =>
        obtain ⟨-, -, -, htable⟩ := close_of_some hf
        dsimp only
        rw [htable, c.table.get?_remove, if_pos rfl]
        rfl
  rw [opensNext_other hopen hclose]
  by_cases hhandle : request.handle? = some h
  · cases hf : c.table.get? h with
    | none => rw [(serve_of_none hf hhandle).2, hf]
    | some f =>
        obtain ⟨f', hf', -⟩ := size_serve hf hclose
        rw [hf']
        rfl
  · rw [get?_serve_other hhandle hopen]

/-! ### What every session keeps -/

/-- A cache with places for `maxHandles` files, and nothing in it before its first file. -/
structure Tabled (c : Cache σ φ) : Prop where
  housed : c.Housed
  places : c.table.entries.size = maxHandles
  pristine : c.isAllocated = false →
    c.pool = Pool.unallocated ⟨⟩ ∧ c.table = FileTable.create maxHandles

theorem tabled_new (storage : σ) (slotCount : Nat) (allocator : Allocator) :
    (Cache.new storage slotCount allocator : Cache σ φ).Tabled where
  housed := housed_new storage slotCount allocator
  places := Array.size_replicate
  pristine _ := ⟨rfl, rfl⟩

theorem Tabled.serve (hc : c.Tabled) (request : Request) : (serve request c).2.Tabled where
  housed := hc.housed.serve request
  places := (places_serve request c).trans hc.places
  pristine hempty := by
    have hempty₀ : c.isAllocated = false := by
      refine Bool.eq_false_iff.mpr fun hall => ?_
      have hsize := (serve_serving hc.housed request).size_eq hall
      rw [isAllocated, Pool.capacity, hsize] at hempty
      exact of_decide_eq_false hempty (of_decide_eq_true hall)
    obtain ⟨hpool, htable⟩ := hc.pristine hempty₀
    cases hhandle : request.handle? with
    | some h =>
        have hf : c.table.get? h = none := by rw [htable, FileTable.get?_create]
        rw [(serve_of_none hf hhandle).2]
        exact ⟨hpool, htable⟩
    | none =>
        cases request with
        | openFile path flags mode =>
            have hopening := openFile_opening path flags mode c
            have hempty' : (openFile path flags mode c).2.isAllocated = false := hempty
            show (openFile path flags mode c).2.pool = _ ∧ (openFile path flags mode c).2.table = _
            generalize (openFile path flags mode c).1 = outcome at hopening
            generalize (openFile path flags mode c).2 = c' at hopening hempty'
            cases hopening with
            | unavailable => exact ⟨hpool, htable⟩
            | full hready | refused hready | abandoned hready | bound hready =>
                exact absurd hready.capacity_pos (of_decide_eq_false hempty')
        | _ => cases hhandle

theorem Tabled.session (hc : c.Tabled) (requests : List Request) :
    (session requests c).2.Tabled := by
  induction requests generalizing c with
  | nil => exact hc
  | cons request rest ih => exact ih (hc.serve request)

/-- Which handles are open after a session is told by its requests and replies. -/
theorem isSome_session (h : Handle) (requests : List Request) (c : Cache σ φ) :
    ((session requests c).2.table.get? h).isSome =
      (requests.zip (session requests c).1).foldl (opensNext h) (c.table.get? h).isSome := by
  induction requests generalizing c with
  | nil => rfl
  | cons request rest ih =>
      rw [session_cons, List.zip_cons_cons, List.foldl_cons, ← isSome_serve]
      exact ih (Cache.serve request c).2

/-! ### Opening -/

section Opening

variable {path : String} {flags : OpenFlags} {mode : Nat} {outcome : Except Error Handle}
  {c' : Cache σ φ}

/-- A file that is opened gets the lowest handle that is not open. -/
theorem Opening.of_ok (hopening : Opening path flags mode c (.ok h) c') :
    h.index < c.table.entries.size ∧ c.table.get? h = none ∧
      (∀ i < h.index, (c.table.get? ⟨i⟩).isSome = true) ∧ (c'.table.get? h).isSome = true ∧
      ∀ h', h' ≠ h → c'.table.get? h' = c.table.get? h' := by
  cases hopening with
  | bound hready hplace =>
      have hplace' := hplace
      rw [← hready.table_eq] at hplace'
      refine ⟨FileTable.lowestFree_lt hplace, c.table.get?_lowestFree hplace,
        fun i hi => FileTable.isSome_of_lt_lowestFree hplace hi, ?_, fun h' hne => ?_⟩
      · rw [Cache.bound, FileTable.get?_of_add _ hplace', if_pos rfl]
        rfl
      · rw [Cache.bound, FileTable.get?_of_add _ hplace', if_neg hne, hready.table_eq]

/-- The table makes opening fail just if it is full, and the storage is not asked for anything
then. -/
theorem Opening.tableFull_iff (hc : c.Housed) (hpos : 0 < c.table.entries.size)
    (hopening : Opening path flags mode c outcome c') :
    (outcome = .error .tableFull ↔ ∀ i < c.table.entries.size, (c.table.get? ⟨i⟩).isSome = true) ∧
      (outcome = .error .tableFull → c'.storage = c.storage) := by
  rw [← FileTable.lowestFree_eq_none_iff]
  cases hopening with
  | unavailable hempty =>
      refine ⟨⟨fun heq => (nomatch heq), fun hfull => ?_⟩, fun heq => nomatch heq⟩
      obtain ⟨f, hf⟩ := Option.isSome_iff_exists.mp
        (FileTable.lowestFree_eq_none_iff.mp hfull 0 hpos)
      exact absurd (hc.capacity_pos hf) (of_decide_eq_false hempty)
  | full hready hfull => exact ⟨⟨fun _ => hfull, fun _ => rfl⟩, fun _ => hready.storage_eq⟩
  | refused _ hplace | abandoned _ hplace | bound _ hplace =>
      rw [hplace]
      exact ⟨⟨fun heq => (nomatch heq), fun heq => nomatch heq⟩, fun heq => nomatch heq⟩

/-- Opening a file leaves the slots and the counters alone, but that the slots of a new pool may be
there now. -/
theorem Opening.pool_cases (hc : c.Tabled) (hopening : Opening path flags mode c outcome c') :
    c'.stats = c.stats ∧
      (c'.pool = c.pool ∨ c.pool = Pool.unallocated ⟨⟩ ∧ c.table = FileTable.create maxHandles ∧
        c'.pool = ⟨Array.replicate c.slotCount Slot.blank, ⟨⟩, {}⟩) := by
  have hready : ∀ {c₁ : Cache σ φ}, Ready c c₁ → c₁.stats = c.stats ∧
      (c₁.pool = c.pool ∨ c.pool = Pool.unallocated ⟨⟩ ∧ c.table = FileTable.create maxHandles ∧
        c₁.pool = ⟨Array.replicate c.slotCount Slot.blank, ⟨⟩, {}⟩) := by
    intro c₁ hready
    cases hready with
    | already => exact ⟨rfl, Or.inl rfl⟩
    | first hempty hpool =>
        obtain ⟨hnone, htable⟩ := hc.pristine hempty
        obtain ⟨-, rfl⟩ := Pool.create_eq_ok hpool
        exact ⟨by rw [stats, stats, hnone]; rfl, Or.inr ⟨hnone, htable, rfl⟩⟩
  cases hopening with
  | unavailable => exact ⟨rfl, Or.inl rfl⟩
  | full hr | refused hr | abandoned hr | bound hr =>
      have hpool := hready hr
      exact hpool

theorem Opening.table_of_error {e : Error} (hopening : Opening path flags mode c (.error e) c') :
    c'.table = c.table := by
  cases hopening with
  | unavailable => rfl
  | full hready | refused hready | abandoned hready => exact hready.table_eq

end Opening

/-- In every session, whatever the storage does: a file that is opened gets the lowest handle that
is not open, and the other handles stay as they are. While all handles are open, opening fails
without a call of the storage, and otherwise never for want of a handle; when it fails, no handle,
slot or counter changes, but that the first attempt may create the slots. A request about a handle
that is not open fails, without a call of the storage, and changes nothing. -/
theorem handles_allocated (storage : σ) (slotCount : Nat) (allocator : Allocator)
    (requests : List Request) :
    let first : Cache (Traced σ φ) φ := Cache.new (Traced.new storage) slotCount allocator
    let past := requests.zip (session requests first).1
    let c := (session requests first).2
    (∀ h, (c.table.get? h).isSome = isOpenAfter past h) ∧
      (∀ h, isOpenAfter past h = true → h.index < maxHandles) ∧
      (∀ path flags mode,
        let outcome := (openFile path flags mode c).1
        let c' := (openFile path flags mode c).2
        (∀ h, outcome = .ok h → h.index < maxHandles ∧ isOpenAfter past h = false ∧
          (∀ i < h.index, isOpenAfter past ⟨i⟩ = true) ∧ (c'.table.get? h).isSome = true ∧
          ∀ h', h' ≠ h → c'.table.get? h' = c.table.get? h') ∧
        ((∀ i < maxHandles, isOpenAfter past ⟨i⟩ = true) →
          outcome.mapError Error.kind = .error .tooManyOpenFiles ∧ c'.storage = c.storage) ∧
        (outcome = .error .tableFull → ∀ i < maxHandles, isOpenAfter past ⟨i⟩ = true) ∧
        ∀ e, outcome = .error e → c'.table = c.table ∧ c'.stats = c.stats ∧
          (c'.pool = c.pool ∨
            c.pool = Pool.unallocated ⟨⟩ ∧ c.table = FileTable.create maxHandles ∧
              c'.pool = ⟨Array.replicate slotCount Slot.blank, ⟨⟩, {}⟩)) ∧
      ∀ h, isOpenAfter past h = false → ∀ request, request.handle? = some h →
        (serve request c).1.failure?.map Error.kind = some .badHandle ∧ (serve request c).2 = c ∧
          ∀ buffer, request = .read h buffer →
            (serve request c).1 = .bytes (.error .notOpen) buffer := by
  intro first past c
  have hc : c.Tabled := (tabled_new _ _ _).session requests
  have hopen : ∀ h, (c.table.get? h).isSome = isOpenAfter past h := by
    intro h
    rw [isSome_session, show first.table.get? h = none from FileTable.get?_create _ _]
    rfl
  have hcount : c.slotCount = slotCount := slotCount_session (housed_new _ _ _) requests
  refine ⟨hopen, fun h hh => ?_, fun path flags mode => ?_, fun h hh request hhandle => ?_⟩
  · by_contra hle
    rw [← hopen, FileTable.get?_of_size_le (by rw [hc.places]; exact Nat.not_lt.mp hle)] at hh
    cases hh
  · intro outcome c'
    have hopening : Opening path flags mode c outcome c' := openFile_opening path flags mode c
    obtain ⟨hfull, hstorage⟩ := hopening.tableFull_iff hc.housed (by rw [hc.places]; decide)
    rw [hc.places] at hfull
    simp only [hopen] at hfull
    refine ⟨fun h hok => ?_, fun hall => ?_, hfull.mp, fun e he => ?_⟩
    · rw [hok] at hopening
      obtain ⟨hlt, hnone, hlower, hsome, hother⟩ := hopening.of_ok
      rw [hc.places] at hlt
      simp only [hopen] at hlower
      exact ⟨hlt, by rw [← hopen, hnone]; rfl, hlower, hsome, hother⟩
    · have hfailed := hfull.mpr hall
      refine ⟨?_, hstorage hfailed⟩
      rw [hfailed]
      rfl
    · have hpool := hopening.pool_cases hc
      rw [hcount] at hpool
      rw [he] at hopening
      exact ⟨hopening.table_of_error, hpool⟩
  · have hnone : c.table.get? h = none := by
      rw [← Option.not_isSome_iff_eq_none, hopen, hh]
      exact Bool.false_ne_true
    obtain ⟨hfailure, hsame⟩ := serve_of_none hnone hhandle
    refine ⟨by rw [hfailure]; rfl, hsame, fun buffer hread => ?_⟩
    subst hread
    show Reply.bytes (read h (Buffer.ofBytes buffer) c).1.1
      (read h (Buffer.ofBytes buffer) c).1.2.bytes = _
    rw [read_of_none hnone]
    rfl

/-- A storage that cannot tell the size of the second file it opens. -/
def sizeless : Scripted Memory :=
  ⟨Memory.ofFiles Catalog.empty,
    [{ operation := .size, descriptor := some 4, fault := some Memory.failure }]⟩

/-- The handle that the second file did not get goes to the third, and the first is closed. -/
def givenBack : List Request :=
  [.openFile "a" OpenFlags.create 0, .openFile "b" OpenFlags.create 0,
    .openFile "c" OpenFlags.create 0, .close ⟨0⟩]

def afterGivenBack : Cache (Traced (Scripted Memory) Memory.File) Memory.File :=
  (session givenBack (Cache.new (Traced.new sizeless) 1)).2

theorem handles_allocated_givenBack :
    let c := afterGivenBack
    (openFile "d" OpenFlags.create 0 c).1 = .ok ⟨0⟩ ∧ (c.table.get? ⟨0⟩).isSome = false ∧
      (openFile "d" OpenFlags.create 0 c).2.table.get? ⟨1⟩ = c.table.get? ⟨1⟩ ∧
      (c.table.get? ⟨1⟩).isSome = true ∧
      (openFile "e" OpenFlags.readOnly 0 c).1 = .error (.storage (Fault.ofCode Errno.noEntry)) ∧
      (openFile "e" OpenFlags.readOnly 0 c).2.stats = c.stats ∧
      (serve (.length ⟨0⟩) c).1.failure?.map Error.kind = some .badHandle := by
  intro c
  obtain ⟨hopen, -, hopening, hclosed⟩ :=
    @handles_allocated (Scripted Memory) Memory.File _ sizeless 1 .addressable givenBack
  obtain ⟨hgot, -⟩ := hopening "d" OpenFlags.create 0
  obtain ⟨-, -, -, hfailed⟩ := hopening "e" OpenFlags.readOnly 0
  have hzero : (openFile "d" OpenFlags.create 0 c).1 = .ok ⟨0⟩ := by decide +kernel
  obtain ⟨-, hfree, -, -, hother⟩ := hgot ⟨0⟩ hzero
  have hgone : (openFile "e" OpenFlags.readOnly 0 c).1 =
      .error (.storage (Fault.ofCode Errno.noEntry)) := by decide +kernel
  exact ⟨hzero, (hopen ⟨0⟩).trans hfree, hother ⟨1⟩ (by decide), by decide +kernel, hgone,
    (hfailed _ hgone).2.1, (hclosed ⟨0⟩ hfree (.length ⟨0⟩) rfl).1⟩

end Cache

end BlockCache
