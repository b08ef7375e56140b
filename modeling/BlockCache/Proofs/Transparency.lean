import BlockCache.Proofs.Durability
import BlockCache.Proofs.Unfailing

/-!
A cache is transparent: over files in memory of which no call fails it answers every session like
the reference, which has no cache. In between, the two are related by what the open files hold,
where their cursors are, and what is stored of the files that are not open.
-/

namespace BlockCache

namespace OpenFile

/-- An open file of files in memory, as the reference has it. -/
def cursorOf (f : OpenFile Memory.File) : Cursor := ⟨f.file.path, f.cursor, f.flags⟩

end OpenFile

namespace Reference

theorem bytes_of_some {r : Reference} {path : Path} {bytes : ByteArray}
    (h : r.files path = some bytes) : r.bytes path = bytes := by
  rw [Reference.bytes, h]
  rfl

end Reference

namespace Cache

open Memory

variable {slotCount : Nat} {allocator : Allocator} {c c' : Cache Memory File} {r : Reference}

/-- Whether a cache over files in memory holds what the reference does. -/
structure Mirrors (slotCount : Nat) (allocator : Allocator) (c : Cache Memory File)
    (r : Reference) : Prop where
  unfailing : Unfailing slotCount allocator c
  held : ∃ image, Settled disk image [] c ∧ ∀ {h : Handle} {f : OpenFile File},
    c.table.get? h = some f → ∀ i, image h i = Bytes.byteAt (r.bytes f.file.path) i
  cursors : ∀ h, r.cursors h = (c.table.get? h).map OpenFile.cursorOf
  opened : ∀ {h : Handle} {f : OpenFile File}, c.table.get? h = some f →
    ∃ bytes, r.files f.file.path = some bytes ∧ f.size = bytes.size
  closed : ∀ p, Unopened c p → c.storage.files.get? p = r.files p

theorem mirrors_new (files : Catalog Path ByteArray) (slotCount : Nat) (allocator : Allocator) :
    Mirrors slotCount allocator (Cache.new (Memory.ofFiles files) slotCount allocator)
      (Reference.ofFiles files.get?) where
  unfailing := ⟨rfl, fun _ _ hf => absurd hf (get?_new _ _ _), Array.size_replicate, rfl, rfl⟩
  held := ⟨fun _ _ => 0, settled_new disk trivial slotCount allocator _,
    fun hf => absurd hf (get?_new _ _ _)⟩
  cursors := fun h => by
    rw [show (Cache.new (Memory.ofFiles files) slotCount allocator).table.get? h = none from
      FileTable.get?_create _ h]
    rfl
  opened := fun hf => absurd hf (get?_new _ _ _)
  closed := fun _ _ => rfl

namespace Mirrors

theorem cursors_of_some (hm : Mirrors slotCount allocator c r) {h : Handle} {f : OpenFile File}
    (hf : c.table.get? h = some f) : r.cursors h = some f.cursorOf := by
  rw [hm.cursors, hf]
  rfl

theorem cursors_of_none (hm : Mirrors slotCount allocator c r) {h : Handle}
    (hf : c.table.get? h = none) : r.cursors h = none := by
  rw [hm.cursors, hf]
  rfl

theorem cursor_eq (hm : Mirrors slotCount allocator c r) (h : Handle) :
    r.cursor h = OpenFile.cursorOf <$> c.table.get h := by
  rw [Reference.cursor, FileTable.get, hm.cursors]
  cases c.table.get? h <;> rfl

theorem size_eq (hm : Mirrors slotCount allocator c r) {h : Handle} {f : OpenFile File}
    (hf : c.table.get? h = some f) : f.size = (r.bytes f.file.path).size := by
  obtain ⟨bytes, hbytes, hsize⟩ := hm.opened hf
  rw [Reference.bytes_of_some hbytes, hsize]

/-- What is left to show of a call that changes neither the open files nor the stored bytes of the
others. -/
theorem of_unchanged (hm : Mirrors slotCount allocator c r)
    (hunfailing : Unfailing slotCount allocator c')
    (hset : ∀ {image : Image}, Settled disk image [] c → Settled disk image [] c')
    (htable : c'.table = c.table)
    (hfiles : ∀ p, Unopened c p → c'.storage.files.get? p = c.storage.files.get? p) :
    Mirrors slotCount allocator c' r := by
  obtain ⟨image, hset₀, himage⟩ := hm.held
  refine ⟨hunfailing, ⟨image, hset hset₀, ?_⟩, ?_, ?_, fun p hp => ?_⟩
  · rw [htable]
    exact himage
  · rw [htable]
    exact hm.cursors
  · rw [htable]
    exact hm.opened
  · rw [Unopened, htable] at hp
    rw [hfiles p hp]
    exact hm.closed p hp

/-- What is left to show of a call after which a handle has an open file of its own, with any bytes:
those of the other handles must be as before. -/
theorem of_put (hm : Mirrors slotCount allocator c r) {image : Image} {h : Handle}
    {g : OpenFile File} {bytes : ByteArray} (hunfailing : Unfailing slotCount allocator c')
    (hset : Settled disk image [] c')
    (hget : ∀ h', c'.table.get? h' = if h' = h then some g else c.table.get? h')
    (hbytes : ∀ i, image h i = Bytes.byteAt bytes i) (hsize : g.size = bytes.size)
    (hother : ∀ {h' : Handle} {f : OpenFile File}, h' ≠ h → c.table.get? h' = some f →
      ∀ i, image h' i = Bytes.byteAt (r.bytes f.file.path) i)
    (hclosed : ∀ p, Unopened c' p → c'.storage.files.get? p = r.files p) :
    Mirrors slotCount allocator c'
      { files := Function.update r.files g.file.path (some bytes)
        cursors := Function.update r.cursors h (some g.cursorOf) } := by
  have hg : c'.table.get? h = some g := (hget h).trans (if_pos rfl)
  have hback : ∀ {h' : Handle} {f : OpenFile File}, c'.table.get? h' = some f →
      (h' = h ∧ f = g) ∨ (h' ≠ h ∧ c.table.get? h' = some f ∧ f.file.path ≠ g.file.path) := by
    intro h' f hf
    by_cases hh : h' = h
    · subst hh
      exact Or.inl ⟨rfl, Option.some.inj (hf.symm.trans hg)⟩
    · refine Or.inr ⟨hh, ?_, fun hpath => hh (hset.coupled.apart hf hg hpath)⟩
      rwa [hget, if_neg hh] at hf
  refine ⟨hunfailing, ⟨image, hset, fun {h' f} hf i => ?_⟩, fun h' => ?_, fun {h' f} hf => ?_,
    fun p hp => ?_⟩
  · show _ = Bytes.byteAt (Option.getD (Function.update r.files g.file.path _ f.file.path) _) i
    obtain ⟨rfl, rfl⟩ | ⟨hh, hf₀, hpath⟩ := hback hf
    · rw [Function.update_self, Option.getD_some]
      exact hbytes i
    · rw [Function.update_of_ne hpath]
      exact hother hh hf₀ i
  · show Function.update r.cursors h _ h' = _
    rw [hget]
    by_cases hh : h' = h
    · rw [hh, Function.update_self, if_pos rfl, Option.map_some]
    · rw [Function.update_of_ne hh, if_neg hh, hm.cursors]
  · show ∃ stored, Function.update r.files g.file.path _ f.file.path = some stored ∧ _
    obtain ⟨-, rfl⟩ | ⟨-, hf₀, hpath⟩ := hback hf
    · exact ⟨bytes, Function.update_self .., hsize⟩
    · rw [Function.update_of_ne hpath]
      exact hm.opened hf₀
  · show _ = Function.update r.files g.file.path _ p
    rw [Function.update_of_ne (hp h g hg).symm]
    exact hclosed p hp

/-- What is stored of the files that are not open, after a call that changes an open file only. -/
theorem stored_of_replaced (hm : Mirrors slotCount allocator c r) {as : List Action}
    {new : List Event}
    (hsteps : Steps c as new c')
    (hkind : ∀ a ∈ as, a.isStore = true ∨ a.keepsBytes = true) {h : Handle} {f g : OpenFile File}
    (hf : c.table.get? h = some f)
    (hget : ∀ h', c'.table.get? h' = if h' = h then some g else c.table.get? h')
    (hfile : g.file = f.file) {p : Path} (hp : Unopened c' p) :
    c'.storage.files.get? p = r.files p := by
  have hclosed : Unopened c p := by
    intro h' f' hf'
    by_cases hh : h' = h
    · obtain rfl := Option.some.inj ((hh ▸ hf').symm.trans hf)
      rw [← hfile]
      exact hp h g ((hget h).trans (if_pos rfl))
    · apply hp h' f'
      rw [hget, if_neg hh]
      exact hf'
  have hspares : ∀ a ∈ as, Spares p a := fun a ha =>
    (hkind a ha).elim spares_of_isStore spares_of_keepsBytes
  rw [closed_steps hsteps hspares hclosed]
  exact hm.closed p hclosed

/-- A call that changes neither bytes nor what is open leaves the reference as it is. -/
theorem of_same (hm : Mirrors slotCount allocator c r) {as : List Action} {new : List Event}
    (hsteps : Steps c as new c') (hkeep : ∀ a ∈ as, a.keepsBytes = true)
    (htable : c'.table = c.table) : Mirrors slotCount allocator c' r := by
  obtain ⟨hunfailing, hnone⟩ := hm.unfailing.steps hsteps
  refine hm.of_unchanged hunfailing (fun hset => ?_) htable fun p hp => ?_
  · have hset' := hset.steps hsteps hkeep
    rwa [lostAfter_of_isMishap hnone] at hset'
  · exact closed_steps hsteps (fun a ha => spares_of_keepsBytes (hkeep a ha)) hp

/-- What is left to show of a call that only moves the cursor of a handle. -/
theorem of_moveTo (hm : Mirrors slotCount allocator c r) {as : List Action} {new : List Event}
    (hsteps : Steps c as new c') (hkeep : ∀ a ∈ as, a.keepsBytes = true) {h : Handle}
    {f : OpenFile File} (hf : c.table.get? h = some f) {offset : Nat}
    (hget : ∀ h', c'.table.get? h' =
      if h' = h then some (f.moveTo offset) else c.table.get? h') :
    Mirrors slotCount allocator c' (r.moveTo h f.cursorOf offset) := by
  obtain ⟨image, hset, himage⟩ := hm.held
  obtain ⟨hunfailing, hnone⟩ := hm.unfailing.steps hsteps
  have hset' := hset.steps hsteps hkeep
  rw [lostAfter_of_isMishap hnone] at hset'
  obtain ⟨bytes, hbytes, hsize⟩ := hm.opened hf
  have hput := hm.of_put hunfailing hset' hget
    (fun i => (himage hf i).trans (by rw [Reference.bytes_of_some hbytes])) hsize
    (fun _ hf' => himage hf')
    (fun p hp => hm.stored_of_replaced hsteps (fun a ha => Or.inr (hkeep a ha)) hf hget rfl hp)
  -- the file has the bytes it had
  have hfiles : Function.update r.files (f.moveTo offset).file.path (some bytes) = r.files := by
    rw [← hbytes]
    exact Function.update_eq_self _ _
  rw [hfiles] at hput
  exact hput

/-! ### Calls -/

theorem read (hm : Mirrors slotCount allocator c r) (h : Handle) (buffer : ByteArray) :
    (serve (.read h buffer) c).1 = (r.serve (.read h buffer)).1 ∧
      Mirrors slotCount allocator (serve (.read h buffer) c).2 (r.serve (.read h buffer)).2 := by
  rw [show serve (.read h buffer) c = (.bytes (Cache.read h (Buffer.ofBytes buffer) c).1.1
    (Cache.read h (Buffer.ofBytes buffer) c).1.2.bytes,
    (Cache.read h (Buffer.ofBytes buffer) c).2) from rfl, Reference.serve, Reference.read]
  cases hf : c.table.get? h with
  | none =>
      rw [hm.cursors_of_none hf, read_of_none hf]
      exact ⟨rfl, hm⟩
  | some f =>
      rw [hm.cursors_of_some hf]
      dsimp only
      obtain ⟨image, hset, himage⟩ := hm.held
      obtain ⟨as, new, hsteps, hkeep, -, hread⟩ := hset.read h (Buffer.ofBytes buffer)
      have hnone := (hm.unfailing.steps hsteps).2
      have hok : (Cache.read h (Buffer.ofBytes buffer) c).1.1 =
          .ok (Bytes.slice (r.bytes f.file.path) f.cursor buffer.size).size := by
        rw [Bytes.size_slice, ← hm.size_eq hf]
        rcases read_outcome hset.regular hf (Buffer.ofBytes buffer) with
          ⟨e, key, -, hreport⟩ | hok
        · rw [hsteps.since_eq] at hreport
          cases hnone _ hreport
        · exact hok
      obtain ⟨hin, hout⟩ := hread f _ hf hok
      refine ⟨?_, hm.of_moveTo hsteps hkeep hf (get?_read hset.regular hf hok)⟩
      have hbuffer : (Cache.read h (Buffer.ofBytes buffer) c).1.2.bytes =
          Bytes.overlay buffer 0 (Bytes.slice (r.bytes f.file.path) f.cursor buffer.size) := by
        have hsize : (Bytes.slice (r.bytes f.file.path) f.cursor buffer.size).size ≤
            buffer.size := by
          rw [Bytes.size_slice]
          exact Nat.min_le_left _ _
        refine Bytes.ext_byteAt ?_ fun i _ => ?_
        · rw [Buffer.size_bytes, Bytes.size_overlay]
          omega
        · rw [Bytes.byteAt_overlay]
          by_cases hi : i < (Bytes.slice (r.bytes f.file.path) f.cursor buffer.size).size
          · rw [if_pos (by omega), Nat.sub_zero, Bytes.byteAt_slice, if_pos (by omega),
              ← himage hf]
            apply hin i hi
            rw [lostAfter_of_isMishap hnone]
            exact List.not_mem_nil
          · rw [if_neg (by omega)]
            exact hout i (Nat.not_lt.mp hi)
      rw [hok, hbuffer]
      rfl

theorem seek (hm : Mirrors slotCount allocator c r) (h : Handle) (target : SeekTarget) :
    (serve (.seek h target) c).1 = (r.serve (.seek h target)).1 ∧
      Mirrors slotCount allocator (serve (.seek h target) c).2 (r.serve (.seek h target)).2 := by
  rw [show serve (.seek h target) c = (.number (Cache.seek h target c).1,
    (Cache.seek h target c).2) from rfl, Reference.serve, Reference.seek]
  cases hf : c.table.get? h with
  | none =>
      rw [hm.cursors_of_none hf, seek_of_none hf]
      exact ⟨rfl, hm⟩
  | some f =>
      have htarget : f.cursorOf.target (r.bytes f.file.path).size target =
          f.targetOffset target := by
        rw [← hm.size_eq hf]
        cases target <;> rfl
      rw [hm.cursors_of_some hf]
      dsimp only
      rw [show f.cursorOf.path = f.file.path from rfl, htarget]
      obtain ⟨as, hsteps, hkeep⟩ := seek_steps c h target
      by_cases hneg : f.targetOffset target < 0
      · have hseek : f.seek target = .error .negativeSeek := if_pos hneg
        rw [if_pos hneg, seek_of_error hf hseek]
        exact ⟨rfl, hm⟩
      by_cases hfar : (maxOffset : Int) < f.targetOffset target
      · have hseek : f.seek target = .error .seekTooFar := (if_neg hneg).trans (if_pos hfar)
        rw [if_neg hneg, if_pos hfar, seek_of_error hf hseek]
        exact ⟨rfl, hm⟩
      · have hseek : f.seek target = .ok (f.moveTo (f.targetOffset target).toNat) :=
          (if_neg hneg).trans (if_neg hfar)
        rw [seek_of_ok hf hseek] at hsteps
        rw [if_neg hneg, if_neg hfar, seek_of_ok hf hseek]
        refine ⟨rfl, hm.of_moveTo hsteps hkeep hf fun h' => ?_⟩
        rw [FileTable.get?_modify]
        by_cases hh : h = h'
        · rw [if_pos hh, if_pos hh.symm, ← hh, hf]
          rfl
        · rw [if_neg hh, if_neg (Ne.symm hh)]

theorem sync (hm : Mirrors slotCount allocator c r) (h : Handle) :
    (serve (.sync h) c).1 = (r.serve (.sync h)).1 ∧
      Mirrors slotCount allocator (serve (.sync h) c).2 (r.serve (.sync h)).2 := by
  rw [show serve (.sync h) c = (.done (Cache.sync h c).1, (Cache.sync h c).2) from rfl,
    Reference.serve]
  cases hf : c.table.get? h with
  | none =>
      rw [hm.cursor_eq, c.table.get_of_none hf, sync_of_none hf]
      exact ⟨rfl, hm⟩
  | some f =>
      obtain ⟨as, new, hsteps, hkeep, htable⟩ := sync_steps c h
      rw [hm.cursor_eq, c.table.get_of_some hf, (hm.unfailing.sync hf).1]
      exact ⟨rfl, hm.of_same hsteps hkeep htable⟩

/-- A file that was synced is stored as the reference has it. -/
theorem synced (hm : Mirrors slotCount allocator c r) {h : Handle} {f : OpenFile File}
    (hf : c.table.get? h = some f) :
    (Cache.sync h c).2.storage.files.get? f.file.path = r.files f.file.path := by
  obtain ⟨image, hset, himage⟩ := hm.held
  obtain ⟨hok, hcut, stored, hstored⟩ := hm.unfailing.sync hf
  obtain ⟨bytes, hbytes, hfsize⟩ := hm.opened hf
  obtain ⟨-, -, -, hsize, hcontent⟩ := hset.synced hf (Prod.ext hok rfl) hcut
  have hcontents : disk.content (Cache.sync h c).2.storage (disk.path f.file) = stored := by
    show ((Cache.sync h c).2.storage.files.get? f.file.path).getD _ = _
    rw [hstored]
    rfl
  rw [hcontents] at hsize hcontent
  rw [hstored, hbytes, Option.some.injEq]
  refine Bytes.ext_byteAt (hsize.trans hfsize) fun i _ => ?_
  rw [hcontent, himage hf, Reference.bytes_of_some hbytes]

theorem close (hm : Mirrors slotCount allocator c r) (h : Handle) :
    (serve (.close h) c).1 = (r.serve (.close h)).1 ∧
      Mirrors slotCount allocator (serve (.close h) c).2 (r.serve (.close h)).2 := by
  rw [show serve (.close h) c = (.done (Cache.close h c).1, (Cache.close h c).2) from rfl,
    Reference.serve]
  cases hf : c.table.get? h with
  | none =>
      have hsame : Function.update r.cursors h none = r.cursors := by
        rw [← hm.cursors_of_none hf, Function.update_eq_self]
      rw [hm.cursor_eq, c.table.get_of_none hf, close_of_none hf, hsame]
      exact ⟨rfl, hm⟩
  | some f =>
      obtain ⟨as, new, hsteps, hkeep⟩ := close_steps c h
      obtain ⟨_, _, -, -, hsync⟩ := sync_steps c h
      obtain ⟨news, c₁, c', -, hstorage, htable, -, hclosed, hremoved, hclose⟩ :=
        close_spec hf (by rw [hsync, hf])
      rw [hclose] at hsteps
      rw [hm.cursor_eq, c.table.get_of_some hf, hclose, (hm.unfailing.sync hf).1]
      refine ⟨rfl, ?_⟩
      obtain ⟨image, hset, himage⟩ := hm.held
      obtain ⟨hunfailing, hnone⟩ := hm.unfailing.steps hsteps
      have hset' := hset.steps hsteps hkeep
      rw [lostAfter_of_isMishap hnone] at hset'
      have hget : ∀ h', c'.table.get? h' = if h = h' then none else c.table.get? h' := by
        intro h'
        rw [hremoved, htable, hsync, FileTable.get?_remove]
      have hback : ∀ {h' : Handle} {f' : OpenFile File}, c'.table.get? h' = some f' →
          c.table.get? h' = some f' := by
        intro h' f' hf'
        rw [hget] at hf'
        split at hf'
        · cases hf'
        · exact hf'
      refine ⟨hunfailing, ⟨image, hset', fun hf' => himage (hback hf')⟩, fun h' => ?_,
        fun hf' => hm.opened (hback hf'), fun p hp => ?_⟩
      · show Function.update r.cursors h none h' = _
        rw [hget]
        by_cases hh : h' = h
        · subst hh
          rw [Function.update_self, if_pos rfl]
          rfl
        · rw [Function.update_of_ne hh, if_neg (Ne.symm hh), hm.cursors]
      · by_cases hpath : f.file.path = p
        · subst hpath
          have hstored := hm.synced hf
          rw [hclosed, hstorage]
          exact hstored
        · have hclosed' : Unopened c p := by
            intro h' f' hf'
            by_cases hh : h = h'
            · rw [← hh, hf] at hf'
              obtain rfl := Option.some.inj hf'
              exact hpath
            · apply hp h' f'
              rw [hget, if_neg hh]
              exact hf'
          rw [closed_steps hsteps (fun a ha => spares_of_keepsBytes (hkeep a ha)) hclosed']
          exact hm.closed p hclosed'

theorem write (hm : Mirrors slotCount allocator c r) (h : Handle) (data : ByteArray)
    (hadmits : r.Admits (.write h data)) :
    (serve (.write h data) c).1 = (r.serve (.write h data)).1 ∧
      Mirrors slotCount allocator (serve (.write h data) c).2 (r.serve (.write h data)).2 := by
  rw [show serve (.write h data) c = (.number (Cache.write h data c).1, (Cache.write h data c).2)
    from rfl, Reference.serve, Reference.write]
  cases hf : c.table.get? h with
  | none =>
      rw [hm.cursors_of_none hf, write_of_none hf]
      exact ⟨rfl, hm⟩
  | some f =>
      have hstart : f.cursorOf.start (r.bytes f.file.path).size = writeStart f := by
        rw [← hm.size_eq hf]
        rfl
      have hnear : writeStart f + data.size ≤ maxOffset := by
        rw [← hstart]
        exact hadmits _ (hm.cursors_of_some hf)
      rw [hm.cursors_of_some hf]
      dsimp only
      rw [show f.cursorOf.path = f.file.path from rfl, hstart]
      obtain ⟨image, hset, himage⟩ := hm.held
      obtain ⟨as, new, hsteps, hkind, ⟨e, hwrite, -⟩ | ⟨f', hf', hwrite, hset'⟩⟩ :=
        hset.write h data
      · rw [outcome_write hset.regular hf hnear] at hwrite
        cases hwrite
      rw [hf] at hf'
      obtain rfl := Option.some.inj hf'
      obtain ⟨hunfailing, hnone⟩ := hm.unfailing.steps hsteps
      rw [lostAfter_of_isMishap hnone] at hset'
      have hget := get?_write hset.regular hf hnear
      rw [hwrite]
      refine ⟨rfl, hm.of_put hunfailing hset' hget (fun i => ?_) ?_ (fun {h' f'} hh hf' i => ?_)
        fun p hp => hm.stored_of_replaced hsteps hkind hf hget rfl hp⟩
      · rw [Function.update_self, Bytes.byteAt_overlay, patch, himage hf]
      · rw [Bytes.size_overlay, ← hm.size_eq hf]
        rfl
      · rw [Function.update_of_ne hh]
        exact himage hf' i

theorem lowestFree_eq (hm : Mirrors slotCount allocator c r) :
    r.lowestFree = c.table.lowestFree := by
  rw [FileTable.lowestFree_eq _ hm.unfailing.places, Reference.lowestFree]
  congr 1
  funext i
  rw [hm.cursors, Option.isNone_map]

/-- A file that cannot be opened changes nothing. -/
theorem of_visit (hm : Mirrors slotCount allocator c r) {path : String} {new : List Event}
    (hstep : Step c [.visit path] new c') (hclosed : Unopened c (Path.ofString path))
    (hstorage : c'.storage = c.storage) : Mirrors slotCount allocator c' r := by
  have htable := hstep.table_eq (by simp [Action.keepsTable])
  apply hm.of_unchanged (hm.unfailing.step hstep) (fun hset => hset.visit hstep hclosed) htable
  intro p _
  rw [hstorage]

theorem of_bind (hm : Mirrors slotCount allocator c r) {path : String} {flags : OpenFlags}
    {mode : Nat}
    {file : File} {i size : Nat} {opened sized : Memory} {bytes : ByteArray}
    (hplace : c.table.lowestFree = some i) (hallocated : c.isAllocated = true)
    (hopen : Storage.openFile path flags mode c.storage = (.ok file, opened))
    (hsize : Storage.size file opened = (.ok size, sized))
    (hfresh : ∀ h f, c.table.get? h = some f → f.descriptor ≠ Storage.descriptor Memory file)
    (hclosed : Unopened c (Path.ofString path))
    (hbytes : opened.files.get? (Path.ofString path) = some bytes) :
    Mirrors slotCount allocator (c.bound path flags i file size sized)
      { files := Function.update r.files (Path.ofString path) (some bytes)
        cursors := Function.update r.cursors ⟨i⟩ (some ⟨Path.ofString path, 0, flags⟩) } := by
  obtain ⟨image, hset, himage⟩ := hm.held
  have hset' := hset.bind hplace hallocated hopen hsize hfresh hclosed
  have hpath : file.path = Path.ofString path := (disk.openFile trivial hopen).2.2 file rfl
  have hrun := hsize
  obtain ⟨hsized, rfl⟩ := Prod.mk.inj hrun
  have hcontents : opened.contents file.path = bytes := by
    rw [contents, hpath, hbytes]
    rfl
  have hget : ∀ h, (c.bound path flags i file size opened).table.get? h =
      if h = ⟨i⟩ then some (OpenFile.fresh file (Storage.descriptor Memory file) size flags)
      else c.table.get? h := c.table.get?_of_add hplace _
  have hunfailing := hm.unfailing.step (.bind hplace hallocated hopen hsize hfresh rfl)
  rw [show Path.ofString path = file.path from hpath.symm]
  refine hm.of_put hunfailing hset' hget (fun j => ?_) ?_ (fun {h f} hh hf j => ?_) fun p hp => ?_
  · rw [Function.update_self, ← hcontents]
    rfl
  · rw [← hcontents]
    exact (Except.ok.inj hsized).symm
  · rw [Function.update_of_ne hh]
    exact himage hf j
  · have hp' : p ≠ Path.ofString path := by
      rintro rfl
      exact hp ⟨i⟩ _ ((hget ⟨i⟩).trans (if_pos rfl)) hpath
    refine (get?_openFile hopen hp').trans (hm.closed p fun h f hf => hp h f ?_)
    have hh : h ≠ ⟨i⟩ := by
      rintro rfl
      rw [c.table.get?_lowestFree hplace] at hf
      cases hf
    exact (hget h).trans ((if_neg hh).trans hf)

theorem openFile (hm : Mirrors slotCount allocator c r) {pool : Pool Scan}
    (hpool : Pool.create slotCount Scan.mk allocator = .ok pool) (path : String) (flags : OpenFlags)
    (mode : Nat) (hadmits : r.Admits (.openFile path flags mode)) :
    (serve (.openFile path flags mode) c).1 = (r.serve (.openFile path flags mode)).1 ∧
      Mirrors slotCount allocator (serve (.openFile path flags mode) c).2
        (r.serve (.openFile path flags mode)).2 := by
  have hclosed : Unopened c (Path.ofString path) :=
    fun h f hf => hadmits h _ (hm.cursors_of_some hf)
  have hfound := hm.closed _ hclosed
  have hfresh := isFresh_of_below hm.unfailing.below (.openFile path flags mode)
  rw [show serve (.openFile path flags mode) c = (.opened (Cache.openFile path flags mode c).1,
    (Cache.openFile path flags mode c).2) from rfl, Reference.serve, Reference.openFile,
    hm.lowestFree_eq]
  obtain ⟨new, c₁, hsteps, hstorage, htable, hcases⟩ := openFile_spec hfresh
  have hm₁ := hm.of_same hsteps (fun _ ha => nomatch ha) htable
  have hclosed₁ : Unopened c₁ (Path.ofString path) := by
    rw [Unopened, htable]
    exact hclosed
  obtain ⟨e, hopen, ⟨hfull, rfl⟩ | ⟨-, e', hcreate⟩⟩ |
    ⟨i, fault, c', hplace, hstep, hopen, htable', hwhy⟩ |
    ⟨i, file, size, opened, sized, hplace, hallocated, hrun, hsize, hfresh₁, hopen⟩ := hcases
  · rw [hfull, hopen]
    exact ⟨rfl, hm₁⟩
  · rw [hm.unfailing.slotCount_eq, hm.unfailing.allocator_eq, hpool] at hcreate
    cases hcreate
  · obtain hrun | ⟨_, _, _, -, hsize⟩ := hwhy
    · rw [hplace, hopen]
      dsimp only
      rw [← hfound]
      cases hopening : Reference.opening (c.storage.files.get? (Path.ofString path)) flags with
      | error fault' =>
          rw [openFile_of_error mode hopening] at hrun
          obtain ⟨hfault, hsame⟩ := Prod.mk.inj hrun
          obtain rfl := Except.error.inj hfault
          exact ⟨rfl, hm₁.of_visit hstep hclosed₁ (hsame.symm.trans hstorage.symm)⟩
      | ok bytes =>
          obtain ⟨m', hok, -⟩ := openFile_of_ok mode hopening
          rw [hok] at hrun
          cases hrun
    · cases hsize
  · rw [← htable, hplace, hopen]
    dsimp only
    rw [← hfound, ← hstorage]
    cases hopening : Reference.opening (c₁.storage.files.get? (Path.ofString path)) flags with
    | error fault =>
        rw [openFile_of_error mode hopening] at hrun
        cases hrun
    | ok bytes =>
        obtain ⟨m', hok, hbytes⟩ := openFile_of_ok mode hopening
        rw [hok] at hrun
        obtain ⟨-, rfl⟩ := Prod.mk.inj hrun
        exact ⟨rfl, hm₁.of_bind hplace hallocated (hok.trans hrun) hsize hfresh₁ hclosed₁ hbytes⟩

end Mirrors

/-- Every admitted request is answered like by the reference, and keeps the two related. -/
theorem serve_mirrors (hm : Mirrors slotCount allocator c r) {pool : Pool Scan}
    (hpool : Pool.create slotCount Scan.mk allocator = .ok pool) {request : Request}
    (hadmits : r.Admits request) :
    (serve request c).1 = (r.serve request).1 ∧
      Mirrors slotCount allocator (serve request c).2 (r.serve request).2 := by
  cases request with
  | openFile path flags mode => exact hm.openFile hpool path flags mode hadmits
  | close h => exact hm.close h
  | sync h => exact hm.sync h
  | read h buffer => exact hm.read h buffer
  | write h data => exact hm.write h data hadmits
  | seek h target => exact hm.seek h target
  | position h =>
      refine ⟨?_, hm⟩
      show Reply.number ((·.cursor) <$> c.table.get h) = .number ((·.offset) <$> r.cursor h)
      rw [hm.cursor_eq]
      cases c.table.get h <;> rfl
  | length h =>
      refine ⟨?_, hm⟩
      show Reply.number (c.length h) = .number ((fun f => (r.bytes f.path).size) <$> r.cursor h)
      cases hf : c.table.get? h with
      | none =>
          rw [length, hm.cursor_eq, c.table.get_of_none hf]
          rfl
      | some f =>
          rw [length_of_some hf, hm.cursor_eq, c.table.get_of_some hf, hm.size_eq hf]
          rfl
  | flags h =>
      refine ⟨?_, hm⟩
      show Reply.flags ((·.flags) <$> c.table.get h) = .flags ((·.flags) <$> r.cursor h)
      rw [hm.cursor_eq]
      cases c.table.get h <;> rfl
  | isResident h block => exact hadmits.elim

theorem session_mirrors {pool : Pool Scan}
    (hpool : Pool.create slotCount Scan.mk allocator = .ok pool)
    {requests : List Request} (hm : Mirrors slotCount allocator c r)
    (hadmits : Reference.AdmitsAll requests r) :
    (session requests c).1 = (Reference.session requests r).1 ∧
      Mirrors slotCount allocator (session requests c).2 (Reference.session requests r).2 := by
  induction requests generalizing c r with
  | nil => exact ⟨rfl, hm⟩
  | cons request rest ih =>
      obtain ⟨hfirst, hrest⟩ := hadmits
      obtain ⟨hreply, hm'⟩ := serve_mirrors hm hpool hfirst
      obtain ⟨hreplies, hlast⟩ := ih hm' hrest
      refine ⟨?_, hlast⟩
      show (serve request c).1 :: _ = (r.serve request).1 :: _
      rw [hreply]
      exact congrArg _ hreplies

/-- A cache over files in memory of which no call fails answers every session like the reference.
After any of them the files that are not open are stored as the reference has them, and so is a file
that is open once it is synced. -/
theorem session_transparent (files : Catalog Path ByteArray) {slotCount : Nat}
    {allocator : Allocator} {pool : Pool Scan}
    (hpool : Pool.create slotCount Scan.mk allocator = .ok pool) (requests : List Request)
    (hadmits : Reference.AdmitsAll requests (Reference.ofFiles files.get?)) :
    (session requests (Cache.new (Memory.ofFiles files) slotCount allocator)).1 =
        (Reference.session requests (Reference.ofFiles files.get?)).1 ∧
      (∀ p, (∀ h f, (Reference.session requests (Reference.ofFiles files.get?)).2.cursors h =
          some f → f.path ≠ p) →
        (session requests
          (Cache.new (Memory.ofFiles files) slotCount allocator)).2.storage.files.get? p =
          (Reference.session requests (Reference.ofFiles files.get?)).2.files p) ∧
      ∀ h f, (Reference.session requests (Reference.ofFiles files.get?)).2.cursors h = some f →
        (sync h (session requests
            (Cache.new (Memory.ofFiles files) slotCount allocator)).2).2.storage.files.get? f.path =
          (Reference.session requests (Reference.ofFiles files.get?)).2.files f.path := by
  obtain ⟨hreplies, hm⟩ := session_mirrors hpool (mirrors_new files slotCount allocator) hadmits
  refine ⟨hreplies, fun p hp => hm.closed p fun h f hf => ?_, fun h f hf => ?_⟩
  · exact hp h _ (hm.cursors_of_some hf)
  · rw [hm.cursors] at hf
    obtain ⟨f', hf', rfl⟩ := Option.map_eq_some_iff.mp hf
    exact hm.synced hf'

/-- A file of three bytes, written to past its end, with a gap. -/
def gapFiles : Catalog Path ByteArray := Catalog.empty.insert (Path.ofString "a") ⟨#[1, 2, 3]⟩

def gapRequests : List Request :=
  [.openFile "a" OpenFlags.readWrite 0, .seek ⟨0⟩ (.start 5), .write ⟨0⟩ ⟨#[9]⟩]

theorem session_transparent_gap :
    (session gapRequests (Cache.new (Memory.ofFiles gapFiles) 1)).1 =
        (Reference.session gapRequests (Reference.ofFiles gapFiles.get?)).1 ∧
      (sync ⟨0⟩ (session gapRequests
          (Cache.new (Memory.ofFiles gapFiles) 1)).2).2.storage.files.get? (Path.ofString "a") =
        some ⟨#[1, 2, 3, 0, 0, 9]⟩ := by
  have hpool : Pool.create 1 Scan.mk = .ok _ := rfl
  have hfits : let r := (Reference.session (gapRequests.take 2)
      (Reference.ofFiles gapFiles.get?)).2
      (r.cursors ⟨0⟩).all (fun f => f.start (r.bytes f.path).size + 1 ≤ maxOffset) = true := by
    decide +kernel
  have hadmits : Reference.AdmitsAll gapRequests (Reference.ofFiles gapFiles.get?) :=
    ⟨fun _ _ hf => (nomatch hf), trivial,
      fun f hf => of_decide_eq_true ((Option.all_eq_true _ _).mp hfits f hf), trivial⟩
  obtain ⟨hreplies, -, hsynced⟩ := session_transparent gapFiles hpool gapRequests hadmits
  have hopen : ((Reference.session gapRequests (Reference.ofFiles gapFiles.get?)).2.cursors
      ⟨0⟩).map (·.path) = some (Path.ofString "a") := by decide +kernel
  obtain ⟨f, hf, hpath⟩ := Option.map_eq_some_iff.mp hopen
  have hstored := hsynced ⟨0⟩ f hf
  rw [hpath] at hstored
  exact ⟨hreplies, hstored.trans (by decide +kernel)⟩

end Cache

end BlockCache
