import BlockCache.Proofs.Access
import BlockCache.Proofs.Closing

/-!
What a cache does for a request, told by its cases and without asking anything of the storage. A
file is opened, or it is told why not; a read or a write is a transfer; a sync and a close write the
blocks of a file back; everything else leaves the blocks and the storage alone. Every request keeps
a cache housed, and once the pool has its slots their number stays.
-/

namespace BlockCache

namespace Cache

variable {σ φ : Type} {c c' : Cache σ φ}

/-! ### Opening a file -/

/-- The pool has its slots: it had them, or they were allocated now. -/
inductive Ready (c : Cache σ φ) : Cache σ φ → Prop where
  | already {journal : Array Event} (hall : c.isAllocated = true) : Ready c { c with journal }
  | first {pool : Pool Scan} {journal : Array Event} (hempty : c.isAllocated = false)
      (hpool : Pool.create c.slotCount Scan.mk c.allocator = .ok pool) :
      Ready c { c with pool, journal }

namespace Ready

theorem storage_eq (hready : Ready c c') : c'.storage = c.storage := by
  cases hready <;> rfl

theorem table_eq (hready : Ready c c') : c'.table = c.table := by
  cases hready <;> rfl

theorem slotCount_eq (hready : Ready c c') : c'.slotCount = c.slotCount := by
  cases hready <;> rfl

theorem pool_eq (hready : Ready c c') (hall : c.isAllocated = true) : c'.pool = c.pool := by
  cases hready with
  | already => rfl
  | first hempty => exact absurd hall (Bool.eq_false_iff.mp hempty)

/-- A block that is in a slot then was there before. -/
theorem kept (hready : Ready c c') {j : Nat} {t : Slot} {key : BlockId}
    (ht : c'.pool.slots[j]? = some t) (hkey : t.key = some key) : c.pool.slots[j]? = some t := by
  cases hready with
  | already => exact ht
  | first _ hpool =>
      obtain ⟨-, hslots⟩ := Pool.slots_create hpool
      rw [hslots, Array.getElem?_replicate] at ht
      split at ht
      · obtain rfl := Option.some.inj ht
        cases hkey
      · cases ht

theorem capacity_pos (hready : Ready c c') : 0 < c'.pool.capacity := by
  cases hready with
  | already hall => exact of_decide_eq_true hall
  | @first pool _ _ hpool =>
      obtain ⟨hpos, hslots⟩ := Pool.slots_create hpool
      show 0 < pool.slots.size
      rw [hslots, Array.size_replicate]
      exact hpos

end Ready

variable [Storage σ φ]

/-- How opening a file ends. -/
inductive Opening (path : String) (flags : OpenFlags) (mode : Nat) (c : Cache σ φ) :
    Except Error Handle → Cache σ φ → Prop where
  | unavailable {journal : Array Event} (hempty : c.isAllocated = false) :
      Opening path flags mode c (.error .poolUnavailable) { c with journal }
  | full {c₁ : Cache σ φ} (hready : Ready c c₁) (hfull : c.table.lowestFree = none) :
      Opening path flags mode c (.error .tableFull) c₁
  | refused {c₁ : Cache σ φ} {i : Nat} {fault : Fault} {storage : σ} (hready : Ready c c₁)
      (hplace : c.table.lowestFree = some i)
      (hopen : Storage.openFile path flags mode c.storage = (.error fault, storage)) :
      Opening path flags mode c (.error (.storage fault)) { c₁ with storage }
  /-- A file whose size cannot be told is given up again. -/
  | abandoned {c₁ : Cache σ φ} {i : Nat} {file : φ} {fault : Fault} {opened sized : σ}
      (hready : Ready c c₁) (hplace : c.table.lowestFree = some i)
      (hopen : Storage.openFile path flags mode c.storage = (.ok file, opened))
      (hsize : Storage.size file opened = (.error fault, sized)) :
      Opening path flags mode c (.error (.storage fault))
        { c₁ with storage := (Storage.close file sized).2 }
  | bound {c₁ : Cache σ φ} {i size : Nat} {file : φ} {opened sized : σ} (hready : Ready c c₁)
      (hplace : c.table.lowestFree = some i)
      (hopen : Storage.openFile path flags mode c.storage = (.ok file, opened))
      (hsize : Storage.size file opened = (.ok size, sized)) :
      Opening path flags mode c (.ok ⟨i⟩) (c₁.bound path flags i file size sized)

variable {h : Handle} {f : OpenFile φ} {path : String} {flags : OpenFlags}
  {mode : Nat}

theorem openFile_of_ready (hrun : allocate c = (.ok (), c')) (hready : Ready c c') :
    Opening path flags mode c (openFile path flags mode c).1 (openFile path flags mode c).2 := by
  have hrun := openFile_of_allocated path flags mode hrun
  rw [hready.storage_eq] at hrun
  cases hplace : c.table.lowestFree with
  | none =>
      rw [hready.table_eq, hplace, if_pos Option.isNone_none] at hrun
      rw [hrun]
      refine .full ?_ hplace
      cases hready with
      | already hall => exact .already hall
      | first hempty hpool => exact .first hempty hpool
  | some i =>
      have hplace' : c'.table.lowestFree = some i := by rw [hready.table_eq, hplace]
      rw [hplace', if_neg (by simp)] at hrun
      rcases hopen : Storage.openFile path flags mode c.storage with ⟨fault | file, opened⟩ <;>
        rw [hopen] at hrun <;> dsimp only at hrun
      · rw [hrun]
        exact .refused hready hplace hopen
      · rcases hsize : Storage.size file opened with ⟨fault | size, sized⟩
        · rw [hrun.trans (bindFile_of_error hsize)]
          show Opening path flags mode c _ { c' with storage := (Storage.close file sized).2 }
          exact .abandoned hready hplace hopen hsize
        · rw [hrun.trans (bindFile_of_ok hsize hplace')]
          show Opening path flags mode c _ (c'.bound path flags i file size sized)
          exact .bound hready hplace hopen hsize

/-- Opening a file ends in one of these ways. -/
theorem openFile_opening (path : String) (flags : OpenFlags) (mode : Nat) (c : Cache σ φ) :
    Opening path flags mode c (openFile path flags mode c).1 (openFile path flags mode c).2 := by
  cases hall : c.isAllocated with
  | true =>
      have hrun : allocate c = (.ok (), c) := by
        rw [allocate, bind_apply, get_apply]
        dsimp only
        rw [hall]
        rfl
      exact openFile_of_ready hrun (.already hall)
  | false =>
      cases hpool : Pool.create c.slotCount Scan.mk c.allocator with
      | ok pool =>
          have hrun : allocate c = (.ok (),
              { c with pool, journal := c.journal ++ [Event.poolReady c.slotCount] }) := by
            rw [allocate, bind_apply, get_apply]
            dsimp only
            rw [hall, hpool]
            rfl
          exact openFile_of_ready hrun (.first hall hpool)
      | error e =>
          have hrun : allocate c = (.error .poolUnavailable,
              { c with journal := c.journal ++ [Event.poolFailed e] }) := by
            rw [allocate, bind_apply, get_apply]
            dsimp only
            rw [hall, hpool]
            rfl
          rw [openFile, bind_apply, hrun]
          exact .unavailable hall

/-! ### Serving a request -/

/-- The blocks that a request asks for, one after the other. -/
def touchesOf (c : Cache σ φ) : Request → List Touch
  | .read h buffer =>
      match c.table.get? h with
      | none => []
      | some f => (readChunks f buffer.size).map (touchToRead f)
  | .write h data =>
      match c.table.get? h with
      | none => []
      | some f =>
          if maxOffset < writeStart f + data.size then []
          else (chunks (writeStart f) data.size).map (touchToWrite f)
  | _ => []

omit [Storage σ φ] in
/-- What does not read or write through a handle asks for blocks of other files only. -/
theorem owner_of_mem_touchesOf {request : Request} (hread : ∀ buffer, request ≠ .read h buffer)
    (hwrite : ∀ data, request ≠ .write h data) {touch : Touch}
    (hmem : touch ∈ touchesOf c request) :
    ∃ h' f, h' ≠ h ∧ c.table.get? h' = some f ∧ f.descriptor = touch.key.owner := by
  cases request with
  | read h' buffer =>
      rw [touchesOf] at hmem
      split at hmem
      · cases hmem
      · rename_i f hf
        obtain ⟨chunk, -, rfl⟩ := List.mem_map.mp hmem
        exact ⟨h', f, fun hh => hread buffer (hh ▸ rfl), hf, rfl⟩
  | write h' data =>
      rw [touchesOf] at hmem
      split at hmem
      · cases hmem
      · rename_i f hf
        split at hmem
        · cases hmem
        · obtain ⟨chunk, -, rfl⟩ := List.mem_map.mp hmem
          exact ⟨h', f, fun hh => hwrite data (hh ▸ rfl), hf, rfl⟩
  | _ => cases hmem

/-- The number of blocks that a request writes whole and that no slot holds when their turn
comes. -/
def takenBy (c : Cache σ φ) : Request → Nat
  | .write h data =>
      match c.table.get? h with
      | none => 0
      | some f =>
          if maxOffset < writeStart f + data.size then 0
          else
            takenIn f data (chunks (writeStart f) data.size)
              { c with table := c.table.modify h (·.moveTo (writeStart f)) }
  | _ => 0

/-- What a cache does for a request. -/
inductive Serving (c : Cache σ φ) : Request → Reply → Cache σ φ → Prop where
  | opening {path : String} {flags : OpenFlags} {mode : Nat} {outcome : Except Error Handle}
      {c' : Cache σ φ} (hopening : Opening path flags mode c outcome c') :
      Serving c (.openFile path flags mode) (.opened outcome) c'
  | closing {h : Handle} {f : OpenFile φ} (hf : c.table.get? h = some f) :
      Serving c (.close h) (.done (close h c).1) (close h c).2
  | syncing {h : Handle} {f : OpenFile φ} (hf : c.table.get? h = some f) :
      Serving c (.sync h) (.done (sync h c).1) (sync h c).2
  /-- All blocks that a transfer asks for are had. -/
  | moving {request : Request} {reply : Reply} {h : Handle} {f : OpenFile φ}
      {parts : List (Touch × How)} {c₁ : Cache σ φ} {table table' : FileTable φ}
      {journal : Array Event} (hf : c.table.get? h = some f) (htable : SameFiles c.table table)
      (htransfer : Transfer f { c with table } parts c₁) (htable' : SameFiles table table')
      (htouches : parts.map (·.1) = touchesOf c request) (hhad : ∀ p ∈ parts, p.2 ≠ .refused)
      (htaken : parts.countP (·.2 = .taken) = takenBy c request) (hok : reply.failure? = none)
      (hclose : ∀ h, request ≠ .close h) :
      Serving c request reply { c₁ with table := table', journal }
  /-- A read ends at a block that is refused. -/
  | refused {h : Handle} {f : OpenFile φ} {buffer buffer' : ByteArray} {fault : Fault}
      {got : List (Touch × How)} {refused : Touch} {c' : Cache σ φ} (hf : c.table.get? h = some f)
      (htransfer : Transfer f c (got ++ [(refused, .refused)]) c')
      (hgot : ∀ p ∈ got, p.2 = .found ∨ p.2 = .loaded) :
      Serving c (.read h buffer) (.bytes (.error (.storage fault)) buffer') c'
  /-- Nothing is done but that a cursor may move. -/
  | idle {request : Request} {reply : Reply} {table : FileTable φ}
      (htable : SameFiles c.table table) (htouches : touchesOf c request = []) (htaken : takenBy c request = 0)
      (hclose : ∀ h, request = .close h → c.table.get? h = none) :
      Serving c request reply { c with table }

omit [Storage σ φ] in
theorem readChunks_of_end (hend : f.size ≤ f.cursor) (n : Nat) : readChunks f n = [] := by
  rw [readChunks, Nat.sub_eq_zero_of_le hend, Nat.min_zero]
  exact chunksFrom_zero _ _

theorem read_serving (hc : c.Housed) (h : Handle) (buffer : ByteArray) :
    Serving c (.read h buffer) (serve (.read h buffer) c).1 (serve (.read h buffer) c).2 := by
  show Serving c _ (.bytes (read h (Buffer.ofBytes buffer) c).1.1
    (read h (Buffer.ofBytes buffer) c).1.2.bytes) (read h (Buffer.ofBytes buffer) c).2
  cases hf : c.table.get? h with
  | none =>
      rw [read_of_none hf]
      exact .idle (fun _ => rfl) (by rw [touchesOf, hf]) rfl fun _ hh => nomatch hh
  | some f =>
      have htouches : touchesOf c (.read h buffer) =
          (readChunks f buffer.size).map (touchToRead f) := by rw [touchesOf, hf]
      by_cases hend : f.size ≤ f.cursor
      · rw [read_of_end hf hend]
        exact .idle (fun _ => rfl) (by rw [htouches, readChunks_of_end hend, List.map_nil]) rfl
          fun _ hh => nomatch hh
      obtain ⟨parts, htransfer, ⟨hok, hparts, hhad⟩ | ⟨fault, got, refused, herror, rfl, hgot⟩⟩ :=
        copyOut_transfer hc hf (readChunks f buffer.size) (Buffer.ofBytes buffer)
      · rcases hcopy : copyOut f (readChunks f buffer.size) (Buffer.ofBytes buffer) c with
          ⟨⟨outcome, buffer'⟩, c₁⟩
        rw [hcopy] at htransfer hok
        obtain rfl : outcome = .ok () := hok
        rw [read_of_ok hf (Nat.not_le.mp hend) hcopy, htransfer.table_eq]
        refine .moving hf (fun _ => rfl) htransfer (sameFiles_of_modify _ fun _ _ => ⟨rfl, rfl⟩)
          (hparts.trans htouches.symm) (fun p hp hrefused => ?_)
          (List.countP_eq_zero.mpr fun p hp => ?_) rfl fun _ hh => nomatch hh
        · rcases hhad p hp with hhow | hhow <;> cases hhow.symm.trans hrefused
        · rcases hhad p hp with hhow | hhow <;> simp [hhow]
      · rw [read_of_error hf (Nat.not_le.mp hend) herror]
        exact .refused hf htransfer hgot

theorem write_serving (hc : c.Housed) (h : Handle) (data : ByteArray) :
    Serving c (.write h data) (serve (.write h data) c).1 (serve (.write h data) c).2 := by
  show Serving c _ (.number (write h data c).1) (write h data c).2
  cases hf : c.table.get? h with
  | none =>
      rw [write_of_none hf]
      exact .idle (fun _ => rfl) (by rw [touchesOf, hf]) (by rw [takenBy, hf])
        fun _ hh => nomatch hh
  | some f =>
      have hmoved : SameFiles c.table (c.table.modify h (·.moveTo (writeStart f))) :=
        sameFiles_of_modify _ fun _ _ => ⟨rfl, rfl⟩
      by_cases hfar : maxOffset < writeStart f + data.size
      · rw [write_of_far hf hfar]
        refine .idle hmoved ?_ ?_ fun _ hh => nomatch hh
        · rw [touchesOf, hf]
          exact if_pos hfar
        · rw [takenBy, hf]
          exact if_pos hfar
      have hf' := c.table.get?_modify_self hf (·.moveTo (writeStart f))
      obtain ⟨parts, htransfer, hparts, hhad, htaken⟩ := copyIn_transfer (f := f)
        (hc.of_table hmoved c.journal) hf' rfl data (chunks (writeStart f) data.size)
      have htable := htransfer.table_eq
      rw [write_of_near hf (Nat.not_lt.mp hfar) rfl, htable]
      refine .moving hf hmoved htransfer (sameFiles_of_modify _ fun _ _ => ⟨rfl, rfl⟩) ?_ hhad ?_
        rfl fun _ hh => nomatch hh
      · rw [hparts, touchesOf, hf]
        exact (if_neg hfar).symm
      · rw [htaken, takenBy, hf]
        exact (if_neg hfar).symm

/-- Serving a request is one of these. -/
theorem serve_serving (hc : c.Housed) (request : Request) :
    Serving c request (serve request c).1 (serve request c).2 := by
  cases request with
  | openFile path flags mode => exact .opening (openFile_opening path flags mode c)
  | close h =>
      show Serving c _ (.done (close h c).1) (close h c).2
      cases hf : c.table.get? h with
      | none =>
          rw [close_of_none hf]
          exact .idle (fun _ => rfl) rfl rfl fun _ hh => Request.close.inj hh ▸ hf
      | some f => exact .closing hf
  | sync h =>
      show Serving c _ (.done (sync h c).1) (sync h c).2
      cases hf : c.table.get? h with
      | none =>
          rw [sync_of_none hf]
          exact .idle (fun _ => rfl) rfl rfl fun _ hh => nomatch hh
      | some f => exact .syncing hf
  | read h buffer => exact read_serving hc h buffer
  | write h data => exact write_serving hc h data
  | seek h target =>
      show Serving c _ (.number (seek h target c).1) (seek h target c).2
      cases hf : c.table.get? h with
      | none =>
          rw [seek_of_none hf]
          exact .idle (fun _ => rfl) rfl rfl fun _ hh => nomatch hh
      | some f =>
          cases hseek : f.seek target with
          | error e =>
              rw [seek_of_error hf hseek]
              exact .idle (fun _ => rfl) rfl rfl fun _ hh => nomatch hh
          | ok f' =>
              rw [seek_of_ok hf hseek]
              refine .idle (sameFiles_of_modify _ fun g hg => ?_) rfl rfl fun _ hh => nomatch hh
              obtain rfl := Option.some.inj (hf.symm.trans hg)
              rw [eq_moveTo_of_seek hseek]
              exact ⟨rfl, rfl⟩
  | position | length | flags | isResident =>
      exact .idle (fun _ => rfl) rfl rfl fun _ hh => nomatch hh

/-! ### What every request keeps -/

theorem Steps.slotCount_eq {as : List Action} {new : List Event} (hsteps : Steps c as new c') :
    c'.slotCount = c.slotCount := by
  induction hsteps with
  | nil => rfl
  | cons hstep _ ih => exact ih.trans hstep.slotCount_eq

/-- A slot that is occupied after a file was closed was so before, by a block of another
descriptor. -/
theorem slot_of_close (hf : c.table.get? h = some f) {j : Nat} {t : Slot} {key : BlockId}
    (ht : (close h c).2.pool.slots[j]? = some t) (hkey : t.key = some key) :
    c.pool.slots[j]? = some t ∧ key.owner ≠ f.descriptor := by
  obtain ⟨hsize, hslots⟩ := slots_close hf
  have hlt : j < c.pool.slots.size := hsize ▸ (Array.getElem?_eq_some_iff.mp ht).1
  have hs := Array.getElem?_eq_getElem hlt
  obtain ⟨t', ht', hcase⟩ := hslots j _ hs
  obtain rfl := Option.some.inj (ht.symm.trans ht')
  cases howned : (c.pool.slots[j]).ownedBy f.descriptor with
  | true =>
      rw [howned, if_pos rfl] at hcase
      rw [Slot.key, hcase.1] at hkey
      cases hkey
  | false =>
      rw [howned, if_neg Bool.false_ne_true] at hcase
      rw [← hcase] at hs howned
      rw [Slot.ownedBy_of_key hkey, decide_eq_false_iff_not] at howned
      exact ⟨hs, howned⟩

/-- A block of another file stays in its slot when a file is closed. -/
theorem slot_kept_of_close (hf : c.table.get? h = some f) {j : Nat} {s : Slot} {key : BlockId}
    (hs : c.pool.slots[j]? = some s) (hkey : s.key = some key)
    (hother : key.owner ≠ f.descriptor) : (close h c).2.pool.slots[j]? = some s := by
  obtain ⟨s', hs', hcase⟩ := (slots_close hf).2 j s hs
  rw [Slot.ownedBy_of_key hkey, decide_eq_false hother, if_neg Bool.false_ne_true] at hcase
  rw [hs', hcase]

/-- A slot has the block after a sync that it had before. -/
theorem slot_of_sync (hf : c.table.get? h = some f) {j : Nat} {t : Slot}
    (ht : (sync h c).2.pool.slots[j]? = some t) :
    ∃ s, c.pool.slots[j]? = some s ∧ s.key = t.key ∧ s.block = t.block := by
  obtain ⟨hsize, hslots⟩ := slots_sync hf
  have hlt : j < c.pool.slots.size := hsize ▸ (Array.getElem?_eq_some_iff.mp ht).1
  have hs := Array.getElem?_eq_getElem hlt
  obtain ⟨dirty, hs'⟩ := hslots hs
  obtain rfl := Option.some.inj (ht.symm.trans hs')
  exact ⟨_, hs, rfl, rfl⟩

namespace Housed

theorem of_ready (hc : c.Housed) (hready : Ready c c') (storage : σ) :
    ({ c' with storage } : Cache σ φ).Housed where
  distinct hs ht hk hk' := hc.distinct (hready.kept hs hk) (hready.kept ht hk') hk hk'
  owned hs hk := by
    rw [show ({ c' with storage } : Cache σ φ).table = c.table from hready.table_eq]
    exact hc.owned (hready.kept hs hk) hk
  named hf := hc.named (hready.table_eq ▸ hf)
  capacity_eq hpos := by
    show c'.pool.capacity = c'.slotCount
    rw [hready.slotCount_eq]
    cases hready with
    | already => exact hc.capacity_eq hpos
    | first _ hpool =>
        obtain ⟨-, hslots⟩ := Pool.slots_create hpool
        rw [Pool.capacity, hslots, Array.size_replicate]
  capacity_pos _ := hready.capacity_pos

theorem of_opening (hc : c.Housed) {outcome : Except Error Handle}
    (hopening : Opening path flags mode c outcome c') : c'.Housed := by
  cases hopening with
  | unavailable => exact hc.of_tenants (fun _ => rfl) rfl rfl fun hs => ⟨_, hs, rfl⟩
  | full hr | refused hr | abandoned hr => exact hc.of_ready hr _
  | @bound c₁ i size file opened sized hr hplace hopen hsize =>
      have hc₁ := hc.of_ready hr sized
      rw [← hr.table_eq] at hplace
      exact {
        distinct := hc₁.distinct
        owned := by
          intro j s key hs hkey
          obtain ⟨h, f, hf, howner⟩ := hc₁.owned hs hkey
          refine ⟨h, f, ?_, howner⟩
          rw [bound, c₁.table.get?_of_add hplace, if_neg]
          · exact hf
          · rintro rfl
            cases (c₁.table.get?_lowestFree hplace).symm.trans hf
        named := by
          intro h f hf
          rcases c₁.table.get?_of_add_cases hplace hf with ⟨-, rfl⟩ | ⟨-, hf⟩
          · rfl
          · exact hc₁.named hf
        capacity_eq := hc₁.capacity_eq
        capacity_pos := fun _ => hr.capacity_pos }

theorem sync (hc : c.Housed) (h : Handle) : (sync h c).2.Housed := by
  cases hf : c.table.get? h with
  | none =>
      rw [sync_of_none hf]
      exact hc
  | some f =>
      obtain ⟨_, _, hsteps, -, htable⟩ := sync_steps_trim c h
      obtain ⟨hsize, hslots⟩ := slots_sync hf
      refine hc.of_tenants (fun _ => by rw [htable]) hsteps.slotCount_eq hsize fun {j s} hs => ?_
      obtain ⟨dirty, hs'⟩ := hslots hs
      exact ⟨_, hs', rfl⟩

theorem close (hc : c.Housed) (h : Handle) : (close h c).2.Housed := by
  cases hf : c.table.get? h with
  | none =>
      rw [close_of_none hf]
      exact hc
  | some f =>
      obtain ⟨-, -, -, htable⟩ := close_of_some hf
      obtain ⟨hsize, -⟩ := slots_close hf
      obtain ⟨_, _, hsteps, -⟩ := close_steps_drop c h
      have hfile : ∀ {h' f'}, (Cache.close h c).2.table.get? h' = some f' →
          c.table.get? h' = some f' :=
        fun hf' => (c.table.get?_of_remove (htable ▸ hf')).2
      have hcapacity : (Cache.close h c).2.pool.capacity = c.pool.capacity := hsize
      exact {
        distinct := fun hs ht hk hk' =>
          hc.distinct (slot_of_close hf hs hk).1 (slot_of_close hf ht hk').1 hk hk'
        owned := by
          intro i s key hs hkey
          obtain ⟨hs', hother⟩ := slot_of_close hf hs hkey
          obtain ⟨h', f', hf', howner⟩ := hc.owned hs' hkey
          refine ⟨h', f', ?_, howner⟩
          rw [htable, c.table.get?_remove, if_neg]
          · exact hf'
          · rintro rfl
            obtain rfl := Option.some.inj (hf.symm.trans hf')
            exact hother howner.symm
        named := fun hf' => hc.named (hfile hf')
        capacity_eq := by rw [hcapacity, hsteps.slotCount_eq]; exact hc.capacity_eq
        capacity_pos := fun hf' => by rw [hcapacity]; exact hc.capacity_pos (hfile hf') }

/-- Every request keeps a cache housed. -/
theorem serve (hc : c.Housed) (request : Request) : (serve request c).2.Housed := by
  have hserving := serve_serving hc request
  generalize (Cache.serve request c).1 = reply at hserving
  generalize (Cache.serve request c).2 = c' at hserving ⊢
  cases hserving with
  | opening hopening => exact hc.of_opening hopening
  | closing => exact hc.close _
  | syncing => exact hc.sync _
  | moving hf htable htransfer htable' =>
      obtain ⟨f', hf', heq⟩ := htable.get?_of_some hf
      have hc₁ := htransfer.housed (hc.of_table htable _) hf' heq.2
      refine hc₁.of_table ?_ _
      rw [htransfer.table_eq]
      exact htable'
  | refused hf htransfer => exact htransfer.housed hc hf rfl
  | idle htable => exact hc.of_table htable _

theorem session (hc : c.Housed) (requests : List Request) :
    (session requests c).2.Housed := by
  induction requests generalizing c with
  | nil => exact hc
  | cons request rest ih => exact ih (hc.serve request)

end Housed

theorem Reachable.housed {storage : σ} {slotCount : Nat} {allocator : Allocator}
    {admits : Cache σ φ → Request → Prop}
    (hreach : Reachable admits (Cache.new storage slotCount allocator) c) : c.Housed := by
  induction hreach with
  | first => exact housed_new storage slotCount allocator
  | serve request _ _ ih => exact ih.serve request

/-- No request changes the number of slots that were asked for. -/
theorem Serving.slotCount_eq {request : Request} {reply : Reply}
    (hserving : Serving c request reply c') : c'.slotCount = c.slotCount := by
  cases hserving with
  | opening hopening =>
      cases hopening with
      | unavailable => rfl
      | full hready | refused hready | abandoned hready | bound hready => exact hready.slotCount_eq
  | @closing h =>
      obtain ⟨_, _, hsteps, -⟩ := close_steps_drop c h
      exact hsteps.slotCount_eq
  | @syncing h =>
      obtain ⟨_, _, hsteps, -⟩ := sync_steps_trim c h
      exact hsteps.slotCount_eq
  | moving _ _ htransfer => exact htransfer.slotCount_eq
  | refused _ htransfer => exact htransfer.slotCount_eq
  | idle => rfl

theorem slotCount_session (hc : c.Housed) (requests : List Request) :
    (session requests c).2.slotCount = c.slotCount := by
  induction requests generalizing c with
  | nil => rfl
  | cons request rest ih =>
      exact (ih (hc.serve request)).trans (serve_serving hc request).slotCount_eq

/-- A file stays open until it is closed. -/
theorem Serving.file_eq {request : Request} {reply : Reply} (hserving : Serving c request reply c')
    (hf : c.table.get? h = some f) (hclose : request ≠ .close h) :
    ∃ f', c'.table.get? h = some f' ∧ f'.file = f.file ∧ f'.descriptor = f.descriptor := by
  cases hserving with
  | opening hopening =>
      cases hopening with
      | unavailable => exact ⟨f, hf, rfl, rfl⟩
      | full hready | refused hready | abandoned hready =>
          exact ⟨f, (congrArg (·.get? h) hready.table_eq).trans hf, rfl, rfl⟩
      | @bound c₁ i _ _ _ _ hready hplace =>
          rw [← hready.table_eq] at hplace hf
          refine ⟨f, ?_, rfl, rfl⟩
          rw [bound, c₁.table.get?_of_add hplace, if_neg]
          · exact hf
          · rintro rfl
            cases (c₁.table.get?_lowestFree hplace).symm.trans hf
  | @closing h' _ hf' =>
      obtain ⟨-, -, -, htable⟩ := close_of_some hf'
      refine ⟨f, ?_, rfl, rfl⟩
      rw [htable, c.table.get?_remove, if_neg fun hh => hclose (congrArg Request.close hh)]
      exact hf
  | @syncing h' =>
      obtain ⟨_, _, -, -, htable⟩ := sync_steps_trim c h'
      exact ⟨f, by rw [htable, hf], rfl, rfl⟩
  | moving _ htable htransfer htable' =>
      obtain ⟨f₁, hf₁, hfile, hdescriptor⟩ := htable.get?_of_some hf
      obtain ⟨f₂, hf₂, hfile', hdescriptor'⟩ := htable'.get?_of_some hf₁
      exact ⟨f₂, hf₂, hfile'.trans hfile, hdescriptor'.trans hdescriptor⟩
  | refused _ htransfer => exact ⟨f, by rw [htransfer.table_eq, hf], rfl, rfl⟩
  | idle htable => exact htable.get?_of_some hf

/-- Once the pool has its slots, their number stays. -/
theorem Serving.size_eq {request : Request} {reply : Reply} (hserving : Serving c request reply c')
    (hall : c.isAllocated = true) : c'.pool.slots.size = c.pool.slots.size := by
  cases hserving with
  | opening hopening =>
      cases hopening with
      | unavailable => rfl
      | full hready | refused hready | abandoned hready | bound hready =>
          exact congrArg (fun pool : Pool Scan => pool.slots.size) (hready.pool_eq hall)
  | closing hf => exact (slots_close hf).1
  | syncing hf => exact (slots_sync hf).1
  | moving _ _ htransfer => exact htransfer.size_eq
  | refused _ htransfer => exact htransfer.size_eq
  | idle => rfl

end Cache

end BlockCache
