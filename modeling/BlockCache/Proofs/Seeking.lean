import BlockCache.Posix.Words
import BlockCache.Cache.History
import BlockCache.Proofs.Handles
import BlockCache.Storage.Memory
import BlockCache.Storage.Scripted

/-!
Where a seek arrives. What it reports and where it leaves the cursor is told by the exact sum of the
offset and of what the offset counts from; only the cursor of its own handle can change. Cursors and
sizes may lie outside the range of offsets, as long as they are words: the sum that is taken in
words is the exact one then, and no conversion on the way loses anything.
-/

namespace BlockCache

variable {σ φ : Type}

/-- A seek that succeeds moves the cursor to its target, which is in the range of offsets. -/
theorem OpenFile.targetOffset_of_seek {f f' : OpenFile φ} {target : SeekTarget}
    (h : f.seek target = .ok f') :
    f.targetOffset target = f'.cursor ∧ f'.cursor ≤ maxOffset := by
  unfold OpenFile.seek at h
  split at h
  · cases h
  · split at h
    · cases h
    · obtain rfl := Except.ok.inj h
      show f.targetOffset target = (f.targetOffset target).toNat ∧
        (f.targetOffset target).toNat ≤ maxOffset
      omega

theorem OpenFile.cursor_le_of_seek {f f' : OpenFile φ} {target : SeekTarget}
    (h : f.seek target = .ok f') : f'.cursor ≤ maxOffset :=
  (targetOffset_of_seek h).2

theorem FileTable.of_all {t : FileTable φ} {p : OpenFile φ → Bool}
    (hall : (t.entries.all fun entry => entry.all p) = true) {h : Handle} {f : OpenFile φ}
    (hf : t.get? h = some f) : p f = true := by
  have hentry : t.entries[h.index]? = some (some f) := Option.join_eq_some_iff.mp hf
  exact Array.all_eq_true_iff_forall_mem.mp hall _ (Array.mem_of_getElem? hentry)

namespace Posix

/-- Where the offset of a seek counts from: the start of the file, its cursor or its end. -/
def origin? (f : OpenFile φ) (whence : Int) : Option Nat :=
  if whence = 0 then some 0
  else if whence = 1 then some f.cursor
  else if whence = 2 then some f.size
  else none

/-- How a seek ends. -/
inductive Sought (c : Cache σ φ) (fd offset whence : Int) : Returned → Cache σ φ → Prop
  | closed (hclosed : fd < 0 ∨ c.table.get? ⟨fd.toNat⟩ = none) :
      Sought c fd offset whence (failed Errno.badDescriptor) c
  | refused {f : OpenFile φ} (hfd : 0 ≤ fd) (hf : c.table.get? ⟨fd.toNat⟩ = some f)
      (houtside : ∀ base, origin? f whence = some base →
        base + offset < 0 ∨ maxOffset < base + offset) :
      Sought c fd offset whence (failed Errno.invalid) c
  | arrived {f : OpenFile φ} {base : Nat} (hfd : 0 ≤ fd) (hf : c.table.get? ⟨fd.toNat⟩ = some f)
      (hbase : origin? f whence = some base) (hstart : 0 ≤ base + offset)
      (hend : base + offset ≤ maxOffset) :
      Sought c fd offset whence ⟨base + offset, none⟩
        { c with
          table := c.table.modify ⟨fd.toNat⟩ fun _ => f.moveTo (base + offset).toNat }

/-! ### The arguments -/

theorem handleOf_of_nonneg {fd : Int} (hfd : 0 ≤ fd) : handleOf fd = .ok ⟨fd.toNat⟩ := by
  rw [handleOf, Handle.ofInt?, if_pos hfd]

theorem handleOf_of_neg {fd : Int} (hfd : fd < 0) : handleOf fd = .error .negativeHandle := by
  rw [handleOf, Handle.ofInt?, if_neg (Int.not_le.mpr hfd)]

theorem seekArguments_of_neg {fd : Int} (hfd : fd < 0) (table : FileTable φ)
    (offset whence : Int) : seekArguments table fd offset whence = .error .negativeHandle := by
  rw [seekArguments, handleOf_of_neg hfd]
  rfl

theorem seekArguments_of_none {fd : Int} (hfd : 0 ≤ fd) {table : FileTable φ}
    (hf : table.get? ⟨fd.toNat⟩ = none) (offset whence : Int) :
    seekArguments table fd offset whence = .error .notOpen := by
  rw [seekArguments, handleOf_of_nonneg hfd]
  show (table.get _ >>= _) = _
  rw [table.get_of_none hf]
  rfl

theorem seekArguments_of_some {fd : Int} (hfd : 0 ≤ fd) {table : FileTable φ} {f : OpenFile φ}
    (hf : table.get? ⟨fd.toNat⟩ = some f) (offset whence : Int) :
    seekArguments table fd offset whence =
      (seekTarget offset whence).map fun target => (⟨fd.toNat⟩, target) := by
  rw [seekArguments, handleOf_of_nonneg hfd]
  show (table.get _ >>= _) = _
  rw [table.get_of_some hf]
  cases seekTarget offset whence <;> rfl

/-- The target of a seek is as far from the origin as its offset says, if it has an origin, and if
that is not the start or the offset is not negative. -/
theorem seekTarget_cases (f : OpenFile φ) (offset whence : Int) :
    (∃ target base, seekTarget offset whence = .ok target ∧ origin? f whence = some base ∧
      f.targetOffset target = base + offset) ∨
    (∃ e, seekTarget offset whence = .error e ∧ e.errno = Errno.invalid ∧
      ∀ base, origin? f whence = some base → base + offset < 0) := by
  unfold seekTarget origin?
  by_cases hstart : whence = 0
  · rw [if_pos hstart, if_pos hstart]
    by_cases hneg : offset < 0
    · rw [if_pos hneg]
      refine Or.inr ⟨.negativeSeek, rfl, rfl, fun base hbase => ?_⟩
      obtain rfl := Option.some.inj hbase
      omega
    · rw [if_neg hneg]
      refine Or.inl ⟨_, 0, rfl, rfl, ?_⟩
      show ((offset.toNat : Nat) : Int) = _
      omega
  rw [if_neg hstart, if_neg hstart]
  by_cases hcurrent : whence = 1
  · rw [if_pos hcurrent, if_pos hcurrent]
    exact Or.inl ⟨_, _, rfl, rfl, rfl⟩
  rw [if_neg hcurrent, if_neg hcurrent]
  by_cases hend : whence = 2
  · rw [if_pos hend, if_pos hend]
    exact Or.inl ⟨_, _, rfl, rfl, rfl⟩
  rw [if_neg hend, if_neg hend]
  exact Or.inr ⟨.unknownWhence, rfl, rfl, fun base hbase => nomatch hbase⟩

/-! ### The answer -/

section Answer

variable {c : Cache σ φ} {fd offset whence : Int}

theorem lseek_of_error {e : Error} (he : seekArguments c.table fd offset whence = .error e) :
    lseek fd offset whence c = (failed e.errno, c) := by
  rw [lseek, bind_apply, get_apply]
  dsimp only
  rw [he]
  rfl

theorem lseek_of_ok {h : Handle} {target : SeekTarget}
    (hok : seekArguments c.table fd offset whence = .ok (h, target)) :
    lseek fd offset whence c =
      (returned offsetBits (Cache.seek h target c).1, (Cache.seek h target c).2) := by
  rw [lseek, bind_apply, get_apply]
  dsimp only
  rw [hok]
  rfl

/-- An offset is its own value as the value of a call. -/
theorem returned_offset {n : Nat} (hn : n ≤ maxOffset) :
    returned offsetBits (.ok n) = ⟨n, none⟩ := by
  have hbmod : Int.bmod (n : Int) (2 ^ offsetBits) = n := by
    refine Int.bmod_eq_of_le ?_ ?_ <;> simp only [offsetBits, maxOffset] at * <;> omega
  exact congrArg (Returned.mk · none) hbmod

variable (c fd offset whence) in
theorem lseek_sought :
    Sought c fd offset whence (lseek fd offset whence c).1 (lseek fd offset whence c).2 := by
  by_cases hfd : fd < 0
  · rw [lseek_of_error (seekArguments_of_neg hfd _ _ _)]
    exact .closed (Or.inl hfd)
  have hfd := Int.not_lt.mp hfd
  cases hf : c.table.get? ⟨fd.toNat⟩ with
  | none =>
      rw [lseek_of_error (seekArguments_of_none hfd hf _ _)]
      exact .closed (Or.inr hf)
  | some f =>
      have harguments := seekArguments_of_some hfd hf offset whence
      rcases seekTarget_cases f offset whence with
        ⟨target, base, htarget, hbase, hsum⟩ | ⟨e, htarget, herrno, hneg⟩
      · rw [htarget] at harguments
        rw [lseek_of_ok harguments]
        by_cases hstart : base + offset < 0
        · have hseek : f.seek target = .error .negativeSeek := by
            rw [OpenFile.seek, hsum, if_pos hstart]
          rw [Cache.seek_of_error hf hseek]
          refine .refused hfd hf fun base' hbase' => Or.inl ?_
          rwa [← Option.some.inj (hbase.symm.trans hbase')]
        by_cases hend : (maxOffset : Int) < base + offset
        · have hseek : f.seek target = .error .seekTooFar := by
            rw [OpenFile.seek, hsum, if_neg hstart, if_pos hend]
          rw [Cache.seek_of_error hf hseek]
          refine .refused hfd hf fun base' hbase' => Or.inr ?_
          rwa [← Option.some.inj (hbase.symm.trans hbase')]
        have hseek : f.seek target = .ok (f.moveTo (base + offset).toNat) := by
          rw [OpenFile.seek, hsum, if_neg hstart, if_neg hend]
        have hvalue : (((base + offset).toNat : Nat) : Int) = base + offset := by omega
        rw [Cache.seek_of_ok hf hseek]
        show Sought c fd offset whence (returned offsetBits (.ok (base + offset).toNat)) _
        rw [returned_offset (by omega), hvalue]
        exact .arrived hfd hf hbase (Int.not_lt.mp hstart) (Int.not_lt.mp hend)
      · rw [htarget] at harguments
        rw [lseek_of_error harguments, herrno]
        exact .refused hfd hf fun base hbase => Or.inl (hneg base hbase)

end Answer

/-! ### In words -/

namespace Words

/-- What a target in words stands for. -/
def Target.exact : Target → SeekTarget
  | start offset => .start offset.toNat
  | current delta => .current delta.toInt
  | fromEnd delta => .fromEnd delta.toInt

/-- A word that is not negative is the same number with a sign and without. -/
theorem toNat_toInt {bits : Nat} {x : BitVec bits} (h : ¬ x.toInt < 0) : x.toInt.toNat = x.toNat :=
  BitVec.toNat_toInt_of_sle (BitVec.sle_iff_toInt_le.mpr (by simpa using h))

theorem handleOf_eq (fd : BitVec intBits) : handleOf fd = Posix.handleOf fd.toInt := by
  by_cases hneg : fd.toInt < 0
  · have hslt : fd.slt 0 = true := BitVec.slt_iff_toInt_lt.mpr hneg
    rw [handleOf, if_pos hslt, handleOf_of_neg hneg]
  · have hslt : ¬ fd.slt 0 = true := fun hslt => hneg (BitVec.slt_iff_toInt_lt.mp hslt)
    rw [handleOf, if_neg hslt, handleOf_of_nonneg (Int.not_lt.mp hneg), toNat_toInt hneg]

theorem seekTarget_eq (offset : BitVec offsetBits) (whence : BitVec intBits) :
    (seekTarget offset whence).map Target.exact =
      Posix.seekTarget offset.toInt whence.toInt := by
  have hzero : whence = 0 ↔ whence.toInt = 0 := BitVec.toInt_inj.symm
  have hone : whence = 1 ↔ whence.toInt = 1 := BitVec.toInt_inj.symm
  have htwo : whence = 2 ↔ whence.toInt = 2 := BitVec.toInt_inj.symm
  have hslt : offset.slt 0 = true ↔ offset.toInt < 0 := BitVec.slt_iff_toInt_lt
  unfold seekTarget Posix.seekTarget
  by_cases hstart : whence.toInt = 0
  · rw [if_pos hstart, if_pos (hzero.mpr hstart)]
    by_cases hneg : offset.toInt < 0
    · rw [if_pos hneg, if_pos (hslt.mpr hneg)]
      rfl
    · rw [if_neg hneg, if_neg fun h => hneg (hslt.mp h), toNat_toInt hneg]
      rfl
  rw [if_neg hstart, if_neg fun h => hstart (hzero.mp h)]
  by_cases hcurrent : whence.toInt = 1
  · rw [if_pos hcurrent, if_pos (hone.mpr hcurrent)]
    rfl
  rw [if_neg hcurrent, if_neg fun h => hcurrent (hone.mp h)]
  by_cases hend : whence.toInt = 2
  · rw [if_pos hend, if_pos (htwo.mpr hend)]
    rfl
  rw [if_neg hend, if_neg fun h => hend (htwo.mp h)]
  rfl

/-- Wide words have room for the sum of a word without a sign and one with a sign. -/
theorem toInt_wideSum {base : Nat} (hbase : base < wordBound) (delta : BitVec offsetBits) :
    (wideSum base delta).toInt = base + delta.toInt := by
  have hlow := delta.le_toInt
  have hhigh := @BitVec.toInt_lt _ delta
  rw [wideSum, BitVec.toInt_add, BitVec.toInt_setWidth, BitVec.toInt_signExtend_of_le (by decide),
    BitVec.toNat_ofNat, Nat.mod_eq_of_lt (by exact hbase)]
  simp only [offsetBits, wideBits, wordBound] at *
  rw [Int.bmod_eq_of_le (n := (base : Int)) (by omega) (by omega)]
  exact Int.bmod_eq_of_le (by omega) (by omega)

variable {f : OpenFile φ}

theorem toInt_targetOffset (hcursor : f.cursor < wordBound) (hsize : f.size < wordBound)
    (target : Target) : (targetOffset f target).toInt = f.targetOffset target.exact := by
  cases target with
  | start offset =>
      have := offset.isLt
      show (offset.setWidth wideBits).toInt = ((offset.toNat : Nat) : Int)
      rw [BitVec.toInt_setWidth]
      simp only [offsetBits, wideBits] at *
      exact Int.bmod_eq_of_le (by omega) (by omega)
  | current delta => exact toInt_wideSum hcursor delta
  | fromEnd delta => exact toInt_wideSum hsize delta

theorem seek_eq (hcursor : f.cursor < wordBound) (hsize : f.size < wordBound)
    (target : Target) : seek f target = f.seek target.exact := by
  have hsum := toInt_targetOffset hcursor hsize target
  have hneg : (targetOffset f target).slt 0 = true ↔ f.targetOffset target.exact < 0 := by
    rw [← hsum]
    exact BitVec.slt_iff_toInt_lt
  have hfar : (BitVec.ofNat wideBits maxOffset).slt (targetOffset f target) = true ↔
      (maxOffset : Int) < f.targetOffset target.exact := by
    rw [← hsum]
    exact BitVec.slt_iff_toInt_lt
  unfold seek OpenFile.seek
  by_cases hstart : f.targetOffset target.exact < 0
  · rw [if_pos hstart, if_pos (hneg.mpr hstart)]
  rw [if_neg hstart, if_neg fun h => hstart (hneg.mp h)]
  by_cases hend : (maxOffset : Int) < f.targetOffset target.exact
  · rw [if_pos hend, if_pos (hfar.mpr hend)]
  rw [if_neg hend, if_neg fun h => hend (hfar.mp h)]
  have hcut : ((targetOffset f target).setWidth offsetBits).toNat =
      (f.targetOffset target.exact).toNat := by
    rw [← hsum] at hstart hend ⊢
    have hvalue := toNat_toInt hstart
    rw [BitVec.toNat_setWidth, ← hvalue]
    refine Nat.mod_eq_of_lt ?_
    simp only [offsetBits, maxOffset] at *
    omega
  rw [hcut]

section Moving

variable {c : Cache σ φ} {fd whence : BitVec intBits} {offset : BitVec offsetBits}

theorem lseek_of_moved {h : Handle} (hmoved : moved c.table fd offset whence = .ok (h, f)) :
    lseek fd offset whence c =
      ((BitVec.ofNat offsetBits f.cursor, none),
        { c with table := c.table.modify h fun _ => f }) := by
  rw [lseek, bind_apply, get_apply]
  dsimp only
  rw [hmoved]
  rfl

theorem lseek_of_unmoved {e : Error} (hmoved : moved c.table fd offset whence = .error e) :
    lseek fd offset whence c = ((-1, some e.errno), c) := by
  rw [lseek, bind_apply, get_apply]
  dsimp only
  rw [hmoved]
  rfl

end Moving

/-- A seek in words is the exact one, as long as cursors and sizes are words. -/
theorem lseek_eq {c : Cache σ φ}
    (hwords : ∀ h f, c.table.get? h = some f →
      f.cursor < wordBound ∧ f.size < wordBound)
    (fd : BitVec intBits) (offset : BitVec offsetBits) (whence : BitVec intBits) :
    let (answer, c') := Posix.lseek fd.toInt offset.toInt whence.toInt c
    lseek fd offset whence c = ((BitVec.ofInt offsetBits answer.value, answer.errno), c') := by
  by_cases hfd : fd.toInt < 0
  · have hmoving : moved c.table fd offset whence = .error .negativeHandle := by
      rw [moved, handleOf_eq, handleOf_of_neg hfd]
      rfl
    rw [lseek_of_error (seekArguments_of_neg hfd _ _ _), lseek_of_unmoved hmoving]
    rfl
  have hfd := Int.not_lt.mp hfd
  cases hf : c.table.get? ⟨fd.toInt.toNat⟩ with
  | none =>
      have hmoving : moved c.table fd offset whence = .error .notOpen := by
        rw [moved, handleOf_eq, handleOf_of_nonneg hfd]
        show (c.table.get _ >>= _) = _
        rw [c.table.get_of_none hf]
        rfl
      rw [lseek_of_error (seekArguments_of_none hfd hf _ _), lseek_of_unmoved hmoving]
      rfl
  | some f =>
      obtain ⟨hcursor, hsize⟩ := hwords _ f hf
      have harguments := seekArguments_of_some hfd hf offset.toInt whence.toInt
      have hmoving : moved c.table fd offset whence =
          (seekTarget offset whence).bind fun target =>
            (f.seek target.exact).map fun f' => (⟨fd.toInt.toNat⟩, f') := by
        rw [moved, handleOf_eq, handleOf_of_nonneg hfd]
        show (c.table.get _ >>= _) = _
        rw [c.table.get_of_some hf]
        simp only [← seek_eq hcursor hsize]
        rfl
      rw [← seekTarget_eq] at harguments
      cases htarget : seekTarget offset whence with
      | error e =>
          rw [htarget] at harguments hmoving
          rw [lseek_of_error harguments, lseek_of_unmoved hmoving]
          rfl
      | ok target =>
          rw [htarget] at harguments hmoving
          rw [lseek_of_ok harguments]
          change _ = (f.seek target.exact).map _ at hmoving
          cases hseek : f.seek target.exact with
          | error e =>
              rw [hseek] at hmoving
              rw [Cache.seek_of_error hf hseek, lseek_of_unmoved hmoving]
              rfl
          | ok f' =>
              rw [hseek] at hmoving
              rw [Cache.seek_of_ok hf hseek, lseek_of_moved hmoving]
              show _ = ((BitVec.ofInt _ (returned offsetBits (.ok f'.cursor)).value, _), _)
              rw [returned_offset (OpenFile.cursor_le_of_seek hseek)]
              rfl

end Words

/-! ### Seeking -/

section Sought

variable {c c' : Cache σ φ} {fd offset whence : Int} {answer : Returned}

/-- The value of a seek is an offset, or -1. -/
theorem Sought.value_bounds (h : Sought c fd offset whence answer c') :
    -1 ≤ answer.value ∧ answer.value ≤ maxOffset := by
  cases h with
  | closed | refused => exact ⟨by decide, by decide⟩
  | arrived _ _ _ hstart hend => exact ⟨Int.le_trans (by decide) hstart, hend⟩

theorem Sought.eq_of_failed (h : Sought c fd offset whence answer c')
    (herrno : answer.errno ≠ none) : c' = c := by
  cases h with
  | closed | refused => rfl
  | arrived => exact absurd rfl herrno

theorem Sought.of_closed (h : Sought c fd offset whence answer c')
    (hclosed : fd < 0 ∨ c.table.get? ⟨fd.toNat⟩ = none) :
    answer = failed Errno.badDescriptor := by
  cases h with
  | closed => rfl
  | refused hfd hf | arrived hfd hf =>
      rcases hclosed with hneg | hnone
      · exact absurd hneg (Int.not_lt.mpr hfd)
      · cases hnone.symm.trans hf

theorem Sought.of_open (h : Sought c fd offset whence answer c') (hfd : 0 ≤ fd) {f : OpenFile φ}
    (hf : c.table.get? ⟨fd.toNat⟩ = some f) :
    (answer = failed Errno.invalid ∧ ∀ base, origin? f whence = some base →
      base + offset < 0 ∨ maxOffset < base + offset) ∨
    ∃ base, origin? f whence = some base ∧ 0 ≤ base + offset ∧ base + offset ≤ maxOffset ∧
      answer = ⟨base + offset, none⟩ ∧
      c'.table.get? ⟨fd.toNat⟩ = some (f.moveTo (base + offset).toNat) := by
  cases h with
  | closed hclosed =>
      rcases hclosed with hneg | hnone
      · exact absurd hneg (Int.not_lt.mpr hfd)
      · cases hnone.symm.trans hf
  | refused _ hf' houtside =>
      obtain rfl := Option.some.inj (hf.symm.trans hf')
      exact Or.inl ⟨rfl, houtside⟩
  | @arrived _ base _ hf' hbase hstart hend =>
      obtain rfl := Option.some.inj (hf.symm.trans hf')
      exact Or.inr ⟨base, hbase, hstart, hend, rfl, c.table.get?_modify_self hf _⟩

/-- A seek moves the cursor of its handle at most. -/
theorem Sought.table (h : Sought c fd offset whence answer c') :
    c' = { c with table := c'.table } ∧
      (∀ h', h' ≠ ⟨fd.toNat⟩ → c'.table.get? h' = c.table.get? h') ∧
      ∀ h', c'.length h' = c.length h' := by
  cases h with
  | closed | refused => exact ⟨rfl, fun _ _ => rfl, fun _ => rfl⟩
  | @arrived f base hfd hf =>
      have hother : ∀ h', h' ≠ ⟨fd.toNat⟩ →
          (c.table.modify ⟨fd.toNat⟩ fun _ => f.moveTo (base + offset).toNat).get? h' =
            c.table.get? h' := by
        intro h' hne
        rw [c.table.get?_modify, if_neg (Ne.symm hne)]
      refine ⟨rfl, hother, fun h' => ?_⟩
      by_cases hne : h' = ⟨fd.toNat⟩
      · subst hne
        rw [Cache.length_of_some hf]
        exact Cache.length_of_some (f := f.moveTo (base + offset).toNat)
          (c.table.get?_modify_self hf _)
      · show (·.size) <$> FileTable.get _ h' = (·.size) <$> c.table.get h'
        rw [FileTable.get, FileTable.get, hother h' hne]

end Sought

/-- A seek is exact for all words, whatever the files are like. A handle that is negative or not
open is a bad descriptor, whatever the origin. Otherwise the argument is invalid if there is no such
origin, or the exact sum of origin and offset is negative or beyond the largest offset; and
otherwise the sum is what is returned, and where the cursor is then. A seek that fails changes
nothing, and none changes a size, another handle or a slot, or calls the storage. Taking the sum in
words makes no difference. -/
theorem lseek_exact (c : Cache (Traced σ φ) φ)
    (hwords : ∀ h f, c.table.get? h = some f →
      f.cursor < wordBound ∧ f.size < wordBound)
    (fd : BitVec intBits) (offset : BitVec offsetBits) (whence : BitVec intBits) :
    let h : Handle := ⟨fd.toInt.toNat⟩
    let answer := (lseek fd.toInt offset.toInt whence.toInt c).1
    let c' := (lseek fd.toInt offset.toInt whence.toInt c).2
    (fd.toInt < 0 ∨ c.table.get? h = none → answer = ⟨-1, some Errno.badDescriptor⟩) ∧
      (∀ f, 0 ≤ fd.toInt → c.table.get? h = some f →
        ((∀ base, origin? f whence.toInt = some base →
            base + offset.toInt < 0 ∨ maxOffset < base + offset.toInt) →
          answer = ⟨-1, some Errno.invalid⟩) ∧
        ∀ base, origin? f whence.toInt = some base → 0 ≤ base + offset.toInt →
          base + offset.toInt ≤ maxOffset →
          answer = ⟨base + offset.toInt, none⟩ ∧
            c'.table.get? h = some (f.moveTo (base + offset.toInt).toNat)) ∧
      (answer.errno ≠ none → c' = c) ∧
      (c' = { c with table := c'.table } ∧ (∀ h', h' ≠ h → c'.table.get? h' = c.table.get? h') ∧
        ∀ h', c'.length h' = c.length h') ∧
      c'.callsSince c = [] ∧
      let (word, errno) := (Words.lseek fd offset whence c).1
      word.toInt = answer.value ∧ errno = answer.errno ∧
        (Words.lseek fd offset whence c).2 = c' := by
  intro h answer c'
  have hsought : Sought c fd.toInt offset.toInt whence.toInt answer c' := lseek_sought _ _ _ _
  obtain ⟨hlow, hhigh⟩ := hsought.value_bounds
  refine ⟨hsought.of_closed, fun f hfd hf => ⟨fun houtside => ?_, fun base hbase hstart hend => ?_⟩,
    hsought.eq_of_failed, hsought.table, Cache.callsSince_of_storage_eq ?_, ?_⟩
  · rcases hsought.of_open hfd hf with ⟨hinvalid, -⟩ | ⟨base, hbase, hstart, hend, -⟩
    · exact hinvalid
    · have := houtside base hbase
      omega
  · rcases hsought.of_open hfd hf with ⟨-, houtside⟩ | ⟨base', hbase', -, -, hanswer, hmoved⟩
    · have := houtside base hbase
      omega
    · obtain rfl := Option.some.inj (hbase.symm.trans hbase')
      exact ⟨hanswer, hmoved⟩
  · rw [hsought.table.1]
  · rw [Words.lseek_eq hwords]
    refine ⟨?_, rfl, rfl⟩
    show (BitVec.ofInt offsetBits answer.value).toInt = answer.value
    rw [BitVec.toInt_ofInt]
    refine Int.bmod_eq_of_le ?_ ?_ <;> simp only [offsetBits, maxOffset] at * <;> omega

/-- A file that is said to be longer than the largest offset. -/
def oversized : Cache (Traced (Scripted Memory) Memory.File) Memory.File :=
  (Cache.session [.openFile "a" OpenFlags.create 0]
    (Cache.new (Traced.new ⟨Memory.ofFiles Catalog.empty,
      [{ operation := .size, reported := some (maxOffset + 6) }]⟩) 1)).2

theorem lseek_exact_oversized :
    (lseek 0 (-6) 2 oversized).1 = ⟨maxOffset, none⟩ ∧
      (lseek 0 (-5) 2 oversized).1 = ⟨-1, some Errno.invalid⟩ ∧
      (lseek 0 (-0x8000000000000000) 2 oversized).1 = ⟨5, none⟩ ∧
      (lseek 0 0 42 oversized).1 = ⟨-1, some Errno.invalid⟩ ∧
      (lseek 1 0 42 oversized).1 = ⟨-1, some Errno.badDescriptor⟩ := by
  have hwords : ∀ h f, oversized.table.get? h = some f →
      f.cursor < wordBound ∧ f.size < wordBound := by
    intro h f hf
    exact of_decide_eq_true (FileTable.of_all (p := fun f =>
      decide (f.cursor < wordBound ∧ f.size < wordBound)) (by decide +kernel) hf)
  obtain ⟨f, hf, hsize⟩ := Option.map_eq_some_iff.mp
    (show (oversized.table.get? ⟨0⟩).map (·.size) = some (maxOffset + 6) by decide +kernel)
  have hend : origin? f 2 = some (maxOffset + 6) := by
    rw [← hsize]
    rfl
  obtain ⟨-, hopen, -⟩ := lseek_exact oversized hwords 0 (-6) 2
  obtain ⟨-, hlast⟩ := hopen f (by decide) hf
  obtain ⟨-, hopen, -⟩ := lseek_exact oversized hwords 0 (-5) 2
  obtain ⟨hbeyond, -⟩ := hopen f (by decide) hf
  obtain ⟨-, hopen, -⟩ := lseek_exact oversized hwords 0 0x8000000000000000 2
  obtain ⟨-, hback⟩ := hopen f (by decide) hf
  obtain ⟨-, hopen, -⟩ := lseek_exact oversized hwords 0 0 42
  obtain ⟨hunknown, -⟩ := hopen f (by decide) hf
  obtain ⟨hclosed, -⟩ := lseek_exact oversized hwords 1 0 42
  refine ⟨(hlast _ hend (by decide) (by decide)).1, hbeyond fun base hbase => Or.inr ?_,
    (hback _ hend (by decide) (by decide)).1, hunknown (fun base hbase => nomatch hbase),
    hclosed (Or.inr (by decide +kernel))⟩
  obtain rfl := Option.some.inj (hend.symm.trans hbase)
  decide

end Posix

end BlockCache
