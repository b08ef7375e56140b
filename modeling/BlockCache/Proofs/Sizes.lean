import BlockCache.Proofs.Handles
import BlockCache.Proofs.Reachable
import Mathlib.Data.List.Induction

/-!
How far an open file reaches. Its size is what the storage told when it was opened, and grows with
every write through its handle to where that write ends; no other call changes it, whatever fails.

A write of no bytes ends where it starts. If that is past all that was written, the size grows with
it, so that the file reaches further than its bytes do.
-/

namespace BlockCache

/-- A write that succeeded: where it started, and what was written. -/
structure Written where
  start : Nat
  bytes : ByteArray

namespace Written

def stop (w : Written) : Nat := w.start + w.bytes.size

def isFilled (w : Written) : Bool := 0 < w.bytes.size

end Written

/-- How far a file that had a size reaches after writes. -/
def reach (size : Nat) (writes : List Written) : Nat :=
  writes.foldl (fun size w => max size w.stop) size

theorem reach_append (size : Nat) (writes writes' : List Written) :
    reach size (writes ++ writes') = reach (reach size writes) writes' := List.foldl_append

theorem reach_le_iff {size n : Nat} {writes : List Written} :
    reach size writes ≤ n ↔ size ≤ n ∧ ∀ w ∈ writes, w.stop ≤ n := by
  induction writes generalizing size with
  | nil => simp [reach]
  | cons w rest ih =>
      have hcons : reach size (w :: rest) = reach (max size w.stop) rest := rfl
      rw [hcons, ih, Nat.max_le, List.forall_mem_cons, and_assoc]

/-- A file reaches no further for the writes without bytes just if none of them starts past all the
others. -/
theorem reach_eq_filled_iff {size : Nat} {writes : List Written} :
    reach size writes = reach size (writes.filter Written.isFilled) ↔
      ∀ w ∈ writes, w.bytes.size = 0 → w.start ≤ reach size (writes.filter Written.isFilled) := by
  obtain ⟨hsize, hends⟩ := reach_le_iff.mp (Nat.le_refl (reach size writes))
  obtain ⟨hsize', hends'⟩ :=
    reach_le_iff.mp (Nat.le_refl (reach size (writes.filter Written.isFilled)))
  have hge : reach size (writes.filter Written.isFilled) ≤ reach size writes :=
    reach_le_iff.mpr ⟨hsize, fun w hw => hends w (List.mem_filter.mp hw).1⟩
  constructor
  · intro heq w hw _
    have hend := hends w hw
    rw [heq] at hend
    exact Nat.le_trans (Nat.le_add_right _ _) hend
  · intro hempty
    refine Nat.le_antisymm (reach_le_iff.mpr ⟨hsize', fun w hw => ?_⟩) hge
    by_cases hnone : w.bytes.size = 0
    · rw [Written.stop, hnone]
      exact hempty w hw hnone
    · exact hends' w (List.mem_filter.mpr ⟨hw, decide_eq_true (Nat.pos_of_ne_zero hnone)⟩)

namespace Cache

variable {σ φ : Type} [Storage σ φ] {h : Handle} {c : Cache σ φ} {f : OpenFile φ}

/-- What a request writes through a handle, if it does and succeeds. -/
def writeThrough? (h : Handle) (c : Cache σ φ) : Request → Option Written
  | .write h' data =>
      match (write h' data c).1, c.table.get? h' with
      | .ok _, some f => if h' = h then some ⟨writeStart f, data⟩ else none
      | _, _ => none
  | _ => none

/-- What requests write through a handle, one after the other. -/
def writesThrough (h : Handle) : List Request → Cache σ φ → List Written
  | [], _ => []
  | request :: rest, c =>
      (writeThrough? h c request).toList ++ writesThrough h rest (serve request c).2

theorem writesThrough_append (h : Handle) (requests requests' : List Request) (c : Cache σ φ) :
    writesThrough h (requests ++ requests') c =
      writesThrough h requests c ++ writesThrough h requests' (session requests c).2 := by
  induction requests generalizing c with
  | nil => rfl
  | cons request rest ih =>
      rw [List.cons_append, writesThrough, writesThrough, ih, List.append_assoc, session_cons]

theorem writeThrough?_other {request : Request} (hhandle : request.handle? ≠ some h) :
    writeThrough? h c request = none := by
  cases request with
  | write h' data =>
      rw [writeThrough?]
      split
      · rw [if_neg fun hh => hhandle (congrArg some hh)]
      · rfl
  | _ => rfl

/-- A request that does not close a file changes its size only if it writes to it. -/
theorem size_serve (hf : c.table.get? h = some f) {request : Request}
    (hclose : request ≠ .close h) :
    ∃ f', (serve request c).2.table.get? h = some f' ∧
      f'.size = reach f.size (writeThrough? h c request).toList := by
  by_cases hhandle : request.handle? = some h
  · cases request with
    | openFile => cases hhandle
    | close => exact absurd (congrArg _ (Option.some.inj hhandle)) hclose
    | sync _ =>
        obtain rfl := Option.some.inj hhandle
        obtain ⟨-, -, -, -, htable⟩ := sync_steps_trim c _
        refine ⟨f, ?_, rfl⟩
        rw [serve, map_apply, htable, hf]
    | read _ buffer =>
        obtain rfl := Option.some.inj hhandle
        change ∃ f', (read _ (Buffer.ofBytes buffer) c).2.table.get? _ = some f' ∧ f'.size = f.size
        rcases table_read _ (Buffer.ofBytes buffer) c with htable | ⟨count, htable⟩
        · exact ⟨f, by rw [htable, hf], rfl⟩
        · rw [htable]
          exact ⟨_, c.table.get?_modify_self hf _, rfl⟩
    | write _ data =>
        obtain rfl := Option.some.inj hhandle
        rw [writeThrough?, hf, serve, map_apply]
        rcases write_of_some hf data with ⟨-, hfail, htable⟩ | ⟨-, hok, htable⟩
        · rw [hfail, htable]
          exact ⟨_, c.table.get?_modify_self hf _, rfl⟩
        · rw [hok, htable]
          dsimp only
          rw [if_pos rfl]
          exact ⟨_, FileTable.get?_modify_self _ (c.table.get?_modify_self hf _) _, rfl⟩
    | seek _ target =>
        obtain rfl := Option.some.inj hhandle
        rw [serve, map_apply]
        rcases table_seek _ target c with htable | ⟨f', cursor, hf', htable⟩
        · exact ⟨f, by rw [htable, hf], rfl⟩
        · obtain rfl := Option.some.inj (hf.symm.trans hf')
          rw [htable]
          exact ⟨_, c.table.get?_modify_self hf _, rfl⟩
    | position | length | flags | isResident => exact ⟨f, hf, rfl⟩
  · refine ⟨f, ?_, by rw [writeThrough?_other hhandle]; rfl⟩
    rw [get?_serve_other hhandle, hf]
    intro hopen
    rw [(get?_of_opened hopen).1] at hf
    cases hf

/-- As long as a file is not closed, its size follows what is written through its handle. -/
theorem size_session {requests : List Request} (hf : c.table.get? h = some f)
    (hclose : .close h ∉ requests) :
    ∃ f', (session requests c).2.table.get? h = some f' ∧
      f'.size = reach f.size (writesThrough h requests c) := by
  induction requests generalizing c f with
  | nil => exact ⟨f, hf, rfl⟩
  | cons request rest ih =>
      rw [List.mem_cons, not_or] at hclose
      obtain ⟨f₁, hf₁, hsize₁⟩ := size_serve hf (Ne.symm hclose.1)
      obtain ⟨f', hf', hsize⟩ := ih hf₁ hclose.2
      exact ⟨f', hf', by rw [hsize, hsize₁, writesThrough, reach_append]⟩

/-- A handle that is open after a session was opened in it, and not closed since. -/
theorem opened_of_session {requests : List Request} {first : Cache σ φ}
    (hnone : first.table.get? h = none)
    (hf : (session requests first).2.table.get? h = some f) :
    ∃ earlier path flags mode later, requests = earlier ++ .openFile path flags mode :: later ∧
      (serve (.openFile path flags mode) (session earlier first).2).1 = .opened (.ok h) ∧
      .close h ∉ later := by
  induction requests using List.reverseRecOn generalizing f with
  | nil =>
      rw [show (session [] first).2 = first from rfl, hnone] at hf
      cases hf
  | append_singleton requests request ih =>
      rw [session_append, session_cons] at hf
      by_cases hopen : (serve request (session requests first).2).1 = .opened (.ok h)
      · obtain ⟨-, path, flags, mode, rfl⟩ := get?_of_opened hopen
        exact ⟨requests, path, flags, mode, [], rfl, hopen, List.not_mem_nil⟩
      -- the handle was open before this request, which did not close it
      have hbefore : ∃ f₀, (session requests first).2.table.get? h = some f₀ ∧
          request ≠ .close h := by
        cases hf₀ : (session requests first).2.table.get? h with
        | none =>
            have hstill : (session [request] (session requests first).2).2.table.get? h = none :=
              get?_session_of_none hf₀ fun hmem => hopen (List.mem_singleton.mp hmem).symm
            exact absurd (hf.symm.trans hstill) (Option.some_ne_none f)
        | some f₀ =>
            refine ⟨f₀, rfl, ?_⟩
            rintro rfl
            obtain ⟨-, -, -, htable⟩ := close_of_some hf₀
            have hgone : (serve (.close h) (session requests first).2).2.table.get? h = none := by
              rw [serve, map_apply, htable, FileTable.get?_remove, if_pos rfl]
            exact absurd (hf.symm.trans hgone) (Option.some_ne_none f)
      obtain ⟨f₀, hf₀, hclose⟩ := hbefore
      obtain ⟨earlier, path, flags, mode, later, rfl, hopened, hkept⟩ := ih hf₀
      refine ⟨earlier, path, flags, mode, later ++ [request], ?_, hopened, ?_⟩
      · rw [List.append_assoc, List.cons_append]
      · rw [List.mem_append, not_or, List.mem_singleton]
        exact ⟨hkept, Ne.symm hclose⟩

/-- In every run, whatever fails in it, the size of an open file is the size that the storage told
when it was opened, or the furthest end of a write through its handle since then. That is how far
the bytes that were written reach, unless a write without bytes started past them. -/
theorem length_eq_reach (storage : σ) (slotCount : Nat) (allocator : Allocator)
    (requests : List Request) {h : Handle} {f : OpenFile φ}
    (hf : (session requests (Cache.new storage slotCount allocator)).2.table.get? h = some f) :
    ∃ earlier path flags mode later file size opened sized,
      let before : Cache σ φ := (session earlier (Cache.new storage slotCount allocator)).2
      let writes := writesThrough h later (serve (.openFile path flags mode) before).2
      let filled := writes.filter Written.isFilled
      let last : Cache σ φ := (session requests (Cache.new storage slotCount allocator)).2
      requests = earlier ++ .openFile path flags mode :: later ∧ .close h ∉ later ∧
        (serve (.openFile path flags mode) before).1 = .opened (.ok h) ∧
        Storage.openFile path flags mode before.storage = (.ok file, opened) ∧
        Storage.size file opened = (.ok size, sized) ∧
        last.length h = .ok (reach size writes) ∧
        (last.length h = .ok (reach size filled) ↔
          ∀ w ∈ writes, w.bytes.size = 0 → w.start ≤ reach size filled) := by
  have hnone : (Cache.new storage slotCount allocator : Cache σ φ).table.get? h = none :=
    Option.eq_none_iff_forall_ne_some.mpr fun _ => get?_new storage slotCount allocator
  obtain ⟨earlier, path, flags, mode, later, rfl, hopen, hclose⟩ := opened_of_session hnone hf
  obtain ⟨-, file, size, opened, sized, hfile, hsize, hget⟩ :=
    get?_openFile_of_ok (Reply.opened.inj hopen)
  have hfirst := (hget h).trans (if_pos rfl)
  obtain ⟨f', hf', hreach⟩ := size_session hfirst hclose
  refine ⟨earlier, path, flags, mode, later, file, size, opened, sized, rfl, hclose, hopen, hfile,
    hsize, ?_⟩
  have hlength := length_of_some hf'
  rw [hreach] at hlength
  rw [session_append, session_cons]
  exact ⟨hlength, fun heq => reach_eq_filled_iff.mp (Except.ok.inj (hlength.symm.trans heq)),
    fun hempty => hlength.trans (congrArg Except.ok (reach_eq_filled_iff.mpr hempty))⟩

/-- Two bytes are written, then none past them. -/
def writtenThenNone : List Request :=
  [.openFile "a" OpenFlags.create 0, .write ⟨0⟩ ⟨#[1, 2]⟩, .seek ⟨0⟩ (.start 5),
    .write ⟨0⟩ ByteArray.empty]

theorem length_eq_reach_writtenThenNone :
    let last : Cache Memory Memory.File :=
      (session writtenThenNone (Cache.new (Memory.ofFiles Catalog.empty) 1)).2
    ∃ size writes, last.length ⟨0⟩ = .ok (reach size writes) ∧ last.length ⟨0⟩ = .ok 5 := by
  intro last
  have hopen : (last.table.get? ⟨0⟩).isSome = true := by decide +kernel
  obtain ⟨f, hf⟩ := Option.isSome_iff_exists.mp hopen
  obtain ⟨_, _, _, _, _, _, size, _, _, -, -, -, -, -, hlength, -⟩ :=
    length_eq_reach (Memory.ofFiles Catalog.empty) 1 .addressable writtenThenNone hf
  exact ⟨size, _, hlength, by decide +kernel⟩

/-- A write of no bytes, past the end of an empty file. -/
def noneWritten : List Request :=
  [.seek ⟨0⟩ (.start 10), .write ⟨0⟩ ByteArray.empty]

/-- The file has ten bytes then, none of which was written. -/
theorem length_noneWritten :
    let opened : Cache Memory Memory.File :=
      (serve (.openFile "a" OpenFlags.create 0) (Cache.new (Memory.ofFiles Catalog.empty) 1)).2
    let last := (session noneWritten opened).2
    opened.length ⟨0⟩ = .ok 0 ∧ reach 0 ((writesThrough ⟨0⟩ noneWritten opened).filter
        Written.isFilled) = 0 ∧ last.length ⟨0⟩ = .ok 10 := by
  decide +kernel

end Cache

end BlockCache
