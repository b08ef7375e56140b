import BlockCache.Cache.History

/-!
What can happen after a past. A read or a write is proper if it is of one whole block of a file that
a handle has, and a write besides only if the block was changed through the handle since it was last
written, or since the handle was opened. Blocks are changed through handles that have a file, and a
handle gets a file only while it has none. It follows that nothing is written through a handle that
changed nothing.
-/

namespace BlockCache

namespace Moment

variable {φ : Type} {past : List (Moment φ)} {h h' : Handle} {file : φ} {b : Nat}

theorem fileOf_append (moment : Moment φ) :
    fileOf (past ++ [moment]) = fileOfNext (fileOf past) moment := by
  rw [fileOf, List.foldl_append]
  rfl

theorem fileOf_calls (calls : List (Call φ)) : fileOf (past ++ calls.map call) = fileOf past := by
  induction calls generalizing past with
  | nil => rw [List.map_nil, List.append_nil]
  | cons made rest ih =>
      rw [List.map_cons, List.append_cons, ih, fileOf_append]
      rfl

theorem filterMap_calls (calls : List (Call φ)) : (calls.map call).filterMap call? = calls := by
  rw [List.filterMap_map]
  exact List.filterMap_some

theorem changedSince_changed : ChangedSince (past ++ [changed h b]) h file b :=
  ⟨past, [], rfl, fun _ hmem => (nomatch hmem), fun _ hmem => nomatch hmem⟩

/-- What happens without writing the block or opening the handle leaves the block changed. -/
theorem ChangedSince.append (hsince : ChangedSince past h file b) {more : List (Moment φ)}
    (hopened : ∀ file', opened h file' ∉ more)
    (hwritten : ∀ bytes, call (.writeAt file (b * blockSize) bytes (.ok blockSize)) ∉ more) :
    ChangedSince (past ++ more) h file b := by
  obtain ⟨earlier, later, rfl, hopened', hwritten'⟩ := hsince
  refine ⟨earlier, later ++ more, by rw [List.append_assoc, List.cons_append], ?_, ?_⟩
  · intro file' hmem
    exact (List.mem_append.mp hmem).elim (hopened' file') (hopened file')
  · intro bytes hmem
    exact (List.mem_append.mp hmem).elim (hwritten' bytes) (hwritten bytes)

/-- A block that was changed since the handle was opened was changed after that. -/
theorem ChangedSince.mem_of_opened {later : List (Moment φ)} {file' : φ}
    (hsince : ChangedSince (past ++ opened h file' :: later) h file b) : changed h b ∈ later := by
  obtain ⟨earlier', later', hsplit, hopened, -⟩ := hsince
  rcases List.append_eq_append_iff.mp hsplit with ⟨between, -, heq⟩ | ⟨between, -, heq⟩
  · cases between with
    | nil => cases heq
    | cons _ _ =>
        obtain ⟨-, rfl⟩ := List.cons.inj heq
        exact List.mem_append_right _ List.mem_cons_self
  · cases between with
    | nil => cases heq
    | cons _ _ =>
        obtain ⟨-, rfl⟩ := List.cons.inj heq
        exact absurd (List.mem_append_right _ List.mem_cons_self) (hopened file')

theorem opened_notMem_calls {calls : List (Call φ)} : opened h file ∉ calls.map call := by
  intro hmem
  obtain ⟨made, -, heq⟩ := List.mem_map.mp hmem
  cases heq

theorem call_mem_calls {made : Call φ} {calls : List (Call φ)} (h : call made ∈ calls.map call) :
    made ∈ calls := by
  obtain ⟨made', hmem, heq⟩ := List.mem_map.mp h
  obtain rfl := Moment.call.inj heq
  exact hmem

end Moment

open Moment

/-- Whether a call reads or writes one whole block of an open file, and writes it only if it was
changed. -/
def Call.IsProper {φ : Type} (past : List (Moment φ)) : Call φ → Prop
  | .readAt file offset length _ =>
      (∃ h, fileOf past h = some file) ∧ length = blockSize ∧ blockSize ∣ offset
  | .writeAt file offset bytes _ =>
      (∃ h, fileOf past h = some file) ∧ bytes.size = blockSize ∧
        ∃ block, offset = block * blockSize ∧
          ∀ h, fileOf past h = some file → ChangedSince past h file block
  | _ => True

/-- Whether something can happen after a past: blocks are changed through handles that have a file,
and a handle gets a file only while it has none. -/
def Moment.IsProper {φ : Type} (past : List (Moment φ)) : Moment φ → Prop
  | call made => made.IsProper past
  | changed h _ | closed h => ∃ file, fileOf past h = some file
  | opened h _ => fileOf past h = none

/-- Whether everything that happens can happen then. -/
def AllProper {φ : Type} : List (Moment φ) → List (Moment φ) → Prop
  | _, [] => True
  | past, moment :: rest => moment.IsProper past ∧ AllProper (past ++ [moment]) rest

section Pasts

variable {φ : Type} {past moments moments' : List (Moment φ)}

theorem allProper_append : AllProper past (moments ++ moments') ↔
    AllProper past moments ∧ AllProper (past ++ moments) moments' := by
  induction moments generalizing past with
  | nil => rw [List.nil_append, List.append_nil, AllProper, true_and]
  | cons moment rest ih =>
      rw [List.cons_append, AllProper, AllProper, ih, and_assoc, List.append_assoc,
        List.singleton_append]

theorem allProper_single {moment : Moment φ} (h : moment.IsProper past) :
    AllProper past [moment] := ⟨h, trivial⟩

/-- A handle keeps its file as long as it is not closed. -/
theorem fileOf_of_notClosed {h : Handle} {file : φ} (hproper : AllProper past moments)
    (hfile : fileOf past h = some file) (hclosed : .closed h ∉ moments) :
    fileOf (past ++ moments) h = some file := by
  induction moments generalizing past with
  | nil => rwa [List.append_nil]
  | cons moment rest ih =>
      have hhead : .closed h ≠ moment := fun heq => hclosed (heq ▸ List.mem_cons_self)
      have hopened : ∀ file', .opened h file' ≠ moment := by
        rintro file' rfl
        have hnone : fileOf past h = none := hproper.1
        rw [hnone] at hfile
        cases hfile
      have hkept : fileOf (past ++ [moment]) h = some file := by
        rw [fileOf_append]
        cases moment with
        | call | changed => exact hfile
        | opened h' file' =>
            have hne : h ≠ h' := fun heq => hopened file' (by rw [heq])
            exact (if_neg hne).trans hfile
        | closed h' =>
            have hne : h ≠ h' := fun heq => hhead (by rw [heq])
            exact (if_neg hne).trans hfile
      rw [List.append_cons]
      exact ih hproper.2 hkept fun hmem => hclosed (List.mem_cons_of_mem _ hmem)

/-- Through a handle that changed nothing since it was opened, nothing is written. -/
theorem AllProper.unwritten {later rest : List (Moment φ)} {h : Handle} {file : φ}
    (hproper : AllProper past (.opened h file :: (later ++ rest))) (hclosed : .closed h ∉ later)
    (hunchanged : ∀ block, .changed h block ∉ later) (offset : Nat) (bytes : ByteArray)
    (outcome : Except Fault Nat) : .call (.writeAt file offset bytes outcome) ∉ later := by
  intro hmem
  obtain ⟨before, after, rfl⟩ := List.append_of_mem hmem
  have hopened : fileOf (past ++ [.opened h file]) h = some file := by
    rw [fileOf_append]
    exact if_pos rfl
  obtain ⟨hlater, -⟩ := allProper_append.mp hproper.2
  obtain ⟨hbefore, ⟨-, -, block, -, hchanged⟩, -⟩ := allProper_append.mp hlater
  have hfile := fileOf_of_notClosed hbefore hopened fun hmem =>
    hclosed (List.mem_append_left _ hmem)
  have hsince := hchanged h hfile
  rw [List.append_assoc, List.singleton_append] at hsince
  exact hunchanged block (List.mem_append_left _ hsince.mem_of_opened)

end Pasts

end BlockCache
