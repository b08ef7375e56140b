import BlockCache.Cache.History
import BlockCache.Proofs.Handles
import BlockCache.Proofs.Reachable
import BlockCache.Storage.Scripted

/-!
Writes that are refused. A write is refused for where it would end and for nothing else: the storage
may fail as it likes, and every write that ends in the range of offsets succeeds. A refused write
asks nothing of the storage and changes no slot; the one thing it can leave behind is the cursor of
a handle that appends, which stands at the end of its file.
-/

namespace BlockCache

namespace Cache

variable {σ φ : Type} {h : Handle} {f : OpenFile φ}

/-- A handle that appends writes at the end of its file. -/
theorem writeStart_of_append (happend : f.flags.contains OpenFlags.append = true) :
    writeStart f = f.size :=
  if_pos happend

/-- A handle that does not append writes where its cursor is. -/
theorem moveTo_writeStart (happend : f.flags.contains OpenFlags.append = false) :
    f.moveTo (writeStart f) = f := by
  have hstart : writeStart f = f.cursor := if_neg (by simp [happend])
  rw [hstart]
  rfl

section AnyStorage

variable [Storage σ φ] {c : Cache σ φ}

/-- A refused write leaves all handles as they were but its own, whose cursor is where the write
would have started. -/
theorem get?_write_of_far (hf : c.table.get? h = some f) {data : ByteArray}
    (hfar : maxOffset < writeStart f + data.size) (h' : Handle) :
    (write h data c).2.table.get? h' =
      if h' = h then some (f.moveTo (writeStart f)) else c.table.get? h' := by
  rw [write_of_far hf hfar]
  by_cases hh : h' = h
  · rw [if_pos hh, hh]
    exact c.table.get?_modify_self hf _
  · rw [if_neg hh]
    exact (c.table.get?_modify h h' _).trans (if_neg (Ne.symm hh))

end AnyStorage

variable [Storage σ φ]

/-- Whatever the storage does, a write takes all its bytes or is refused, and it is refused just if
it would end past the range of offsets. A refused write makes no call of the storage and leaves the
slots and the counters as they were, and every handle as well, but for the cursor of a handle that
appends: that one was moved to the end of its file, where the write would have started. -/
theorem write_completes_or_is_refused {c : Cache (Traced σ φ) φ} (hf : c.table.get? h = some f)
    (data : ByteArray) :
    let c' := (write h data c).2
    let start := if f.flags.contains OpenFlags.append then f.size else f.cursor
    ((write h data c).1 = .ok data.size ∧ start + data.size ≤ maxOffset) ∨
      ((write h data c).1 = .error .writeTooFar ∧ maxOffset < start + data.size ∧
        c'.callsSince c = [] ∧ c' = { c with table := c'.table } ∧
        (∀ h', h' ≠ h ∨ f.flags.contains OpenFlags.append = false →
          c'.table.get? h' = c.table.get? h') ∧
        (f.flags.contains OpenFlags.append = true →
          c'.table.get? h = some { f with cursor := f.size })) := by
  intro c' start
  rcases write_of_some hf data with ⟨hfar, hrefused, -⟩ | ⟨hnear, hdone, -⟩
  · have hrun := write_of_far hf hfar
    have hget := get?_write_of_far hf hfar
    have hrest : c' = { c with table := c'.table } := by
      show (write h data c).2 = { c with table := (write h data c).2.table }
      rw [hrun]
    have hstorage : c'.storage = c.storage := by
      show (write h data c).2.storage = c.storage
      rw [hrun]
    have hcalls : c'.callsSince c = [] := callsSince_of_storage_eq hstorage
    refine Or.inr ⟨hrefused, hfar, hcalls, hrest, fun h' hother => ?_, fun happend => ?_⟩
    · rw [hget]
      split
      · next hh =>
        have hplain := hother.resolve_left (not_not_intro hh)
        rw [moveTo_writeStart hplain, hh, hf]
      · rfl
    · rw [hget, if_pos rfl, writeStart_of_append happend]
      rfl
  · exact Or.inl ⟨hdone, hnear⟩

/-- A handle that appends to a file whose size the storage tells to be the largest offset. -/
def brimming : Cache (Traced (Scripted Memory) Memory.File) Memory.File :=
  (session [.openFile "a" (OpenFlags.create.union OpenFlags.append) 0]
    (Cache.new (Traced.new
      ⟨Memory.ofFiles Catalog.empty, [{ operation := .size, reported := some maxOffset }]⟩) 1)).2

theorem write_refused_brimming :
    let c' := (write ⟨0⟩ ⟨#[7]⟩ brimming).2
    (write ⟨0⟩ ⟨#[7]⟩ brimming).1 = .error .writeTooFar ∧ c'.callsSince brimming = [] ∧
      c'.pool.stats = brimming.pool.stats ∧ c'.position ⟨0⟩ = .ok maxOffset := by
  intro c'
  have hsome : (brimming.table.get? ⟨0⟩).map
      (fun f => (f.size, f.flags.contains OpenFlags.append)) =
      some (maxOffset, true) := by decide +kernel
  obtain ⟨f, hf, hparts⟩ := Option.map_eq_some_iff.mp hsome
  obtain ⟨hsize, happend⟩ := Prod.mk.inj hparts
  rcases write_completes_or_is_refused hf ⟨#[7]⟩ with
    ⟨-, hnear⟩ | ⟨hrefused, -, hcalls, hrest, -, hmoved⟩
  · rw [if_pos happend, hsize] at hnear
    exact absurd hnear (by decide)
  · have hposition : c'.position ⟨0⟩ = .ok f.size := by
      rw [position, c'.table.get_of_some (hmoved happend)]
      rfl
    exact ⟨hrefused, hcalls, congrArg (·.pool.stats) hrest, hposition.trans (by rw [hsize])⟩

/-- A refused write can move a cursor. -/
theorem position_not_kept_by_refused_write :
    brimming.position ⟨0⟩ = .ok 0 ∧ (write ⟨0⟩ ⟨#[7]⟩ brimming).1 = .error .writeTooFar ∧
      (write ⟨0⟩ ⟨#[7]⟩ brimming).2.position ⟨0⟩ = .ok maxOffset := by
  decide +kernel

end Cache

end BlockCache
