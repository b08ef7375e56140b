import BlockCache.Posix.Session
import BlockCache.Proofs.Allocation
import BlockCache.Proofs.Seeking

/-!
Calls in the style of a system against the requests of a cache. A call either stands for a request,
and then does to the cache what the request does and returns its outcome; or it is refused for its
arguments, and then changes nothing. A value that is returned is the exact outcome, so that -1 is
returned by a failure only.
-/

namespace BlockCache

/-- What a reply counts: a handle, a position, bytes moved; zero if it counts nothing. -/
def Reply.value : Reply → Nat
  | .opened (.ok h) => h.index
  | .number (.ok n) | .bytes (.ok n) _ => n
  | _ => 0

namespace Posix

variable {σ φ : Type}

def told (reply : Reply) : Returned :=
  match reply.failure? with
  | some e => failed e.errno
  | none => ⟨reply.value, none⟩

/-- The bytes of memory that a transfer is about. A transfer of no bytes needs no memory. -/
inductive Given : Option ByteArray → Nat → ByteArray → Prop
  | bytes (memory : ByteArray) {count : Nat} (hcount : count ≤ maxOffset) :
      Given (some memory) count (Bytes.slice memory 0 count)
  | nothing (memory : Option ByteArray) : Given memory 0 ByteArray.empty

/-- The call stands for a request: its arguments are those of the request. -/
inductive StandsFor : Request → BlockCache.Request → Prop
  | openFile (path : String) (flags mode : Int) :
      StandsFor (.openFile (some path) flags mode)
        (.openFile path (OpenFlags.ofInt flags) (mode % Nat.pow 2 intBits).toNat)
  | close (h : Handle) : StandsFor (.close h.index) (.close h)
  | fsync (h : Handle) : StandsFor (.fsync h.index) (.sync h)
  | read (h : Handle) {memory : Option ByteArray} {count : Nat} {bytes : ByteArray}
      (hgiven : Given memory count bytes) :
      StandsFor (.read h.index memory count) (.read h bytes)
  | write (h : Handle) {memory : Option ByteArray} {count : Nat} {bytes : ByteArray}
      (hgiven : Given memory count bytes) :
      StandsFor (.write h.index memory count) (.write h bytes)
  | seekStart (h : Handle) (offset : Nat) :
      StandsFor (.lseek h.index offset 0) (.seek h (.start offset))
  | seekCurrent (h : Handle) (offset : Int) :
      StandsFor (.lseek h.index offset 1) (.seek h (.current offset))
  | seekEnd (h : Handle) (offset : Int) :
      StandsFor (.lseek h.index offset 2) (.seek h (.fromEnd offset))

/-- The call is refused for its arguments, with an error number. The handle is judged first, as far
as it can be without the cache; that a seek has no origin is judged after the handle was found open.
-/
inductive Refused (c : Cache σ φ) : Request → Int → Prop
  | noPath (flags mode : Int) : Refused c (.openFile none flags mode) Errno.badAddress
  | negative {request : Request} {fd : Int} (hfd : request.fd? = some fd) (hneg : fd < 0) :
      Refused c request Errno.badDescriptor
  | tooLong {request : Request} {h : Handle} {memory : Option ByteArray} {count : Nat}
      (hfd : request.fd? = some (h.index : Int))
      (htransfer : request.transfer? = some (memory, count))
      (hlong : maxOffset < count) : Refused c request Errno.invalid
  | noMemory {request : Request} {h : Handle} {count : Nat}
      (hfd : request.fd? = some (h.index : Int))
      (htransfer : request.transfer? = some (none, count))
      (hpos : 0 < count) : Refused c request Errno.invalid
  | noHandle {h : Handle} {offset whence : Int} (hf : c.table.get? h = none)
      (hstart : whence = 0 → offset < 0) (hcurrent : whence ≠ 1) (hend : whence ≠ 2) :
      Refused c (.lseek h.index offset whence) Errno.badDescriptor
  | noOrigin {h : Handle} {f : OpenFile φ} {offset whence : Int} (hf : c.table.get? h = some f)
      (hstart : whence = 0 → offset < 0) (hcurrent : whence ≠ 1) (hend : whence ≠ 2) :
      Refused c (.lseek h.index offset whence) Errno.invalid

theorem given_cases (memory : Option ByteArray) (count : Nat) :
    (∃ bytes, Given memory count bytes) ∨ maxOffset < count ∨ memory = none ∧ 0 < count := by
  by_cases hcount : count ≤ maxOffset
  · cases memory with
    | some memory => exact Or.inl ⟨_, .bytes memory hcount⟩
    | none =>
        rcases Nat.eq_zero_or_pos count with rfl | hpos
        · exact Or.inl ⟨_, .nothing none⟩
        · exact Or.inr (Or.inr ⟨rfl, hpos⟩)
  · exact Or.inr (Or.inl (Nat.not_le.mp hcount))

/-- Every call stands for a request or is refused. -/
theorem standsFor_or_refused (c : Cache σ φ) (request : Request) :
    (∃ asked, StandsFor request asked) ∨ ∃ errno, Refused c request errno := by
  have hhandle : ∀ {fd : Int}, request.fd? = some fd →
      (∃ h : Handle, fd = h.index) ∨ ∃ errno, Refused c request errno := by
    intro fd hfd
    by_cases hneg : fd < 0
    · exact Or.inr ⟨_, .negative hfd hneg⟩
    · exact Or.inl ⟨⟨fd.toNat⟩, (Int.toNat_of_nonneg (Int.not_lt.mp hneg)).symm⟩
  cases request with
  | openFile path flags mode =>
      cases path with
      | none => exact Or.inr ⟨_, .noPath flags mode⟩
      | some path => exact Or.inl ⟨_, .openFile path flags mode⟩
  | close fd =>
      rcases hhandle rfl with ⟨h, rfl⟩ | hrefused
      · exact Or.inl ⟨_, .close h⟩
      · exact Or.inr hrefused
  | fsync fd =>
      rcases hhandle rfl with ⟨h, rfl⟩ | hrefused
      · exact Or.inl ⟨_, .fsync h⟩
      · exact Or.inr hrefused
  | read fd memory count =>
      rcases hhandle rfl with ⟨h, rfl⟩ | hrefused
      · rcases given_cases memory count with ⟨bytes, hgiven⟩ | hlong | ⟨rfl, hpos⟩
        · exact Or.inl ⟨_, .read h hgiven⟩
        · exact Or.inr ⟨_, .tooLong rfl rfl hlong⟩
        · exact Or.inr ⟨_, .noMemory rfl rfl hpos⟩
      · exact Or.inr hrefused
  | write fd memory count =>
      rcases hhandle rfl with ⟨h, rfl⟩ | hrefused
      · rcases given_cases memory count with ⟨bytes, hgiven⟩ | hlong | ⟨rfl, hpos⟩
        · exact Or.inl ⟨_, .write h hgiven⟩
        · exact Or.inr ⟨_, .tooLong rfl rfl hlong⟩
        · exact Or.inr ⟨_, .noMemory rfl rfl hpos⟩
      · exact Or.inr hrefused
  | lseek fd offset whence =>
      rcases hhandle rfl with ⟨h, rfl⟩ | hrefused
      · by_cases hcurrent : whence = 1
        · subst hcurrent
          exact Or.inl ⟨_, .seekCurrent h offset⟩
        by_cases hend : whence = 2
        · subst hend
          exact Or.inl ⟨_, .seekEnd h offset⟩
        by_cases hstart : whence = 0 → offset < 0
        · cases hf : c.table.get? h with
          | none => exact Or.inr ⟨_, .noHandle hf hstart hcurrent hend⟩
          | some f => exact Or.inr ⟨_, .noOrigin hf hstart hcurrent hend⟩
        · obtain ⟨rfl, hoffset⟩ := Classical.not_imp.mp hstart
          obtain ⟨n, rfl⟩ := Int.eq_ofNat_of_zero_le (Int.not_lt.mp hoffset)
          exact Or.inl ⟨_, .seekStart h n⟩
      · exact Or.inr hrefused

/-! ### Arguments of a transfer -/

theorem handleOf_index (h : Handle) : handleOf h.index = .ok h :=
  handleOf_of_nonneg (Int.natCast_nonneg _)

theorem transfer_of_neg {fd : Int} (hneg : fd < 0) (memory : Option ByteArray) (count : Nat) :
    transfer fd memory count = .error .negativeHandle := by
  rw [transfer, handleOf_of_neg hneg]
  rfl

theorem transfer_of_long {count : Nat} (hlong : maxOffset < count) (h : Handle)
    (memory : Option ByteArray) : transfer h.index memory count = .error .countTooLarge := by
  rw [transfer, handleOf_index]
  show (transferLength count >>= _) = _
  rw [transferLength, if_pos hlong]
  rfl

theorem transfer_of_short {count : Nat} (hcount : count ≤ maxOffset) (h : Handle)
    (memory : Option ByteArray) :
    transfer h.index memory count =
      if count = 0 then .ok (h, ByteArray.empty)
      else
        match memory with
        | none => .error .nullBuffer
        | some bytes => .ok (h, Bytes.slice bytes 0 count) := by
  rw [transfer, handleOf_index]
  show (transferLength count >>= _) = _
  rw [transferLength, if_neg (Nat.not_lt.mpr hcount)]
  show (if count = 0 then _ else _) = _
  split
  · rfl
  · cases memory <;> rfl

theorem slice_zero (bytes : ByteArray) : Bytes.slice bytes 0 0 = ByteArray.empty :=
  Bytes.ext_byteAt (by simp) (by simp)

theorem Given.transfer {memory : Option ByteArray} {count : Nat} {bytes : ByteArray}
    (hgiven : Given memory count bytes) (h : Handle) :
    Posix.transfer h.index memory count = .ok (h, bytes) := by
  cases hgiven with
  | bytes memory hcount =>
      rw [transfer_of_short hcount]
      split
      · rename_i hzero
        rw [hzero, slice_zero]
      · rfl
  | nothing memory => rw [transfer_of_short (Nat.zero_le _), if_pos rfl]

theorem Given.size_le {memory : Option ByteArray} {count : Nat} {bytes : ByteArray}
    (hgiven : Given memory count bytes) : bytes.size ≤ count ∧ count ≤ maxOffset := by
  cases hgiven with
  | bytes memory hcount =>
      rw [Bytes.size_slice]
      exact ⟨Nat.min_le_left _ _, hcount⟩
  | nothing => exact ⟨Nat.le_refl _, Nat.zero_le _⟩

variable [Storage σ φ] {c : Cache σ φ}

/-! ### Values -/

theorem returnedUnit_eq (outcome : Except Error Unit) :
    returnedUnit outcome = told (.done outcome) := by
  cases outcome with
  | ok _ => exact congrArg (Returned.mk · none) (show Int.bmod 0 (Nat.pow 2 intBits) = 0 by decide)
  | error => rfl

theorem returned_eq {outcome : Except Error Nat} (hle : ∀ n, outcome = .ok n → n ≤ maxOffset) :
    returned offsetBits outcome = told (.number outcome) := by
  cases outcome with
  | ok n => exact returned_offset (hle n rfl)
  | error => rfl

theorem told_bytes (outcome : Except Error Nat) (buffer : ByteArray) :
    told (.bytes outcome buffer) = told (.number outcome) := by
  cases outcome <;> rfl

theorem toInt_of_lt {h : Handle} (hlt : h.index < maxHandles) : h.toInt = h.index := by
  refine Int.bmod_eq_of_le ?_ ?_ <;> simp only [maxHandles] at hlt <;> omega

theorem count_le_of_read {n count : Nat} {h : Handle} {buffer : Buffer n}
    (hok : (Cache.read h buffer c).1.1 = .ok count) : count ≤ n := by
  cases hf : c.table.get? h with
  | none =>
      rw [Cache.read_of_none hf] at hok
      cases hok
  | some f =>
      by_cases hend : f.size ≤ f.cursor
      · rw [Cache.read_of_end hf hend] at hok
        obtain rfl := Except.ok.inj hok
        exact Nat.zero_le n
      rcases hcopy : Cache.copyOut f (Cache.readChunks f n) buffer c with ⟨⟨_ | _, buffer'⟩, c'⟩
      · rw [Cache.read_of_error hf (Nat.not_le.mp hend) (by rw [hcopy])] at hok
        cases hok
      · rw [Cache.read_of_ok hf (Nat.not_le.mp hend) hcopy] at hok
        obtain rfl := Except.ok.inj hok
        exact Nat.min_le_left _ _

theorem count_of_write {count : Nat} {h : Handle} {data : ByteArray}
    (hok : (Cache.write h data c).1 = .ok count) : count = data.size := by
  cases hf : c.table.get? h with
  | none =>
      rw [Cache.write_of_none hf] at hok
      cases hok
  | some f =>
      rcases Cache.write_of_some hf data with ⟨-, hfar, -⟩ | ⟨-, hnear, -⟩
      · cases hfar.symm.trans hok
      · exact (Except.ok.inj (hnear.symm.trans hok)).symm

omit [Storage σ φ] in
theorem offset_le_of_seek {offset : Nat} {h : Handle} {target : SeekTarget}
    (hok : (Cache.seek h target c).1 = .ok offset) : offset ≤ maxOffset := by
  cases hf : c.table.get? h with
  | none =>
      rw [Cache.seek_of_none hf] at hok
      cases hok
  | some f =>
      cases hseek : f.seek target with
      | error e =>
          rw [Cache.seek_of_error hf hseek] at hok
          cases hok
      | ok f' =>
          rw [Cache.seek_of_ok hf hseek] at hok
          obtain rfl := Except.ok.inj hok
          exact OpenFile.cursor_le_of_seek hseek

/-! ### One call -/

/-- The memory of a call after a reply. -/
def memoryAfter (memory : Option ByteArray) : Reply → Option ByteArray
  | .bytes _ buffer => memory.map fun old => Bytes.overlay old 0 buffer
  | _ => memory

/-- What a call that stands for a request gives back, given the reply to the request. -/
def answer (request : Request) (reply : Reply) : Returned × Option ByteArray :=
  (told reply, memoryAfter request.memory reply)

theorem openFile_eq (hplaces : c.table.entries.size = maxHandles) {path : String}
    {flags mode : Int} {outcome : Except Error Handle} {c' : Cache σ φ}
    (hopen : Cache.openFile path (OpenFlags.ofInt flags) (mode % Nat.pow 2 intBits).toNat c =
      (outcome, c')) :
    openFile (some path) flags mode c = (told (.opened outcome), c') := by
  have hopening := Cache.openFile_opening path (OpenFlags.ofInt flags)
    (mode % Nat.pow 2 intBits).toNat c
  rw [hopen] at hopening
  rw [openFile, bind_apply, hopen]
  cases outcome with
  | error e => rfl
  | ok h =>
      obtain ⟨hlt, -⟩ := hopening.of_ok
      rw [hplaces] at hlt
      exact congrArg (fun value => (Returned.mk value none, c')) (toInt_of_lt hlt)

omit [Storage σ φ] in
theorem lseek_eq (h : Handle) {offset whence : Int} {target : SeekTarget}
    (htarget : seekTarget offset whence = .ok target) :
    lseek h.index offset whence c =
      (told (.number (Cache.seek h target c).1), (Cache.seek h target c).2) := by
  have hindex : (0 : Int) ≤ h.index := Int.natCast_nonneg _
  cases hf : c.table.get? h with
  | none =>
      rw [lseek_of_error (seekArguments_of_none hindex hf _ _), Cache.seek_of_none hf]
      rfl
  | some f =>
      have harguments := seekArguments_of_some hindex hf offset whence
      rw [htarget] at harguments
      rw [lseek_of_ok harguments, returned_eq fun n => offset_le_of_seek]
      rfl

/-- A call does to the cache what the request does that it stands for, and tells the reply. -/
theorem serve_of_standsFor (hplaces : c.table.entries.size = maxHandles) {request : Request}
    {asked : BlockCache.Request} (hstands : StandsFor request asked) :
    serve request c =
      (answer request (Cache.serve asked c).1, (Cache.serve asked c).2) := by
  cases hstands with
  | openFile path flags mode =>
      rw [serve, map_apply, openFile_eq hplaces rfl]
      rfl
  | close h =>
      rw [serve, map_apply, close, handleOf_index]
      dsimp only
      rw [map_apply, returnedUnit_eq]
      rfl
  | fsync h =>
      rw [serve, map_apply, fsync, handleOf_index]
      dsimp only
      rw [map_apply, returnedUnit_eq]
      rfl
  | @read h memory count bytes hgiven =>
      obtain ⟨hsize, hcount⟩ := hgiven.size_le
      rw [serve, read, hgiven.transfer]
      dsimp only
      rw [bind_apply, returned_eq, ← told_bytes _ (Cache.read h (Buffer.ofBytes bytes) c).1.2.bytes]
      · rfl
      · exact fun n hn => Nat.le_trans (count_le_of_read hn) (Nat.le_trans hsize hcount)
  | @write h memory count bytes hgiven =>
      obtain ⟨hsize, hcount⟩ := hgiven.size_le
      rw [serve, map_apply, write, hgiven.transfer]
      dsimp only
      rw [map_apply, returned_eq]
      · rfl
      · intro n hn
        rw [count_of_write hn]
        exact Nat.le_trans hsize hcount
  | seekStart h offset =>
      have htarget : seekTarget (offset : Int) 0 = .ok (.start offset) := by
        rw [seekTarget, if_pos rfl, if_neg (Int.not_lt.mpr (Int.natCast_nonneg _))]
        rfl
      rw [serve, map_apply, lseek_eq h htarget]
      rfl
  | seekCurrent h offset =>
      rw [serve, map_apply, lseek_eq h rfl]
      rfl
  | seekEnd h offset =>
      rw [serve, map_apply, lseek_eq h rfl]
      rfl

omit [Storage σ φ] in
theorem transfer_of_refused {h : Handle} {memory : Option ByteArray}
    {count : Nat} (hlong : maxOffset < count ∨ memory = none ∧ 0 < count) :
    ∃ e, transfer h.index memory count = .error e ∧ e.errno = Errno.invalid := by
  by_cases hcount : count ≤ maxOffset
  · obtain ⟨rfl, hpos⟩ := hlong.resolve_left (Nat.not_lt.mpr hcount)
    exact ⟨.nullBuffer, by rw [transfer_of_short hcount, if_neg (Nat.ne_of_gt hpos)], rfl⟩
  · exact ⟨.countTooLarge, transfer_of_long (Nat.not_le.mp hcount) h memory, rfl⟩

omit [Storage σ φ] in
theorem seekTarget_of_refused {offset whence : Int} (hstart : whence = 0 → offset < 0)
    (hcurrent : whence ≠ 1) (hend : whence ≠ 2) :
    ∃ e, seekTarget offset whence = .error e ∧ e.errno = Errno.invalid := by
  by_cases hzero : whence = 0
  · exact ⟨.negativeSeek, by rw [seekTarget, if_pos hzero, if_pos (hstart hzero)], rfl⟩
  · exact ⟨.unknownWhence,
      by rw [seekTarget, if_neg hzero, if_neg hcurrent, if_neg hend], rfl⟩

theorem serve_of_transfer_error {request : Request} {fd : Int} {memory : Option ByteArray}
    {count : Nat} (hfd : request.fd? = some fd)
    (htransfer : request.transfer? = some (memory, count))
    {e : Error} (he : transfer fd memory count = .error e) :
    serve request c = ((failed e.errno, request.memory), c) := by
  cases request with
  | read fd' memory' count' =>
      obtain rfl := Option.some.inj hfd
      obtain ⟨rfl, rfl⟩ := Prod.mk.inj (Option.some.inj htransfer)
      rw [serve, read, he]
      rfl
  | write fd' memory' count' =>
      obtain rfl := Option.some.inj hfd
      obtain ⟨rfl, rfl⟩ := Prod.mk.inj (Option.some.inj htransfer)
      rw [serve, map_apply, write, he]
      rfl
  | _ => cases htransfer

/-- A call that is refused changes nothing. -/
theorem serve_of_refused {request : Request} {errno : Int} (hrefused : Refused c request errno) :
    serve request c = ((failed errno, request.memory), c) := by
  cases hrefused with
  | noPath flags mode => rfl
  | @negative request fd hfd hneg =>
      cases request with
      | openFile => cases hfd
      | close =>
          obtain rfl := Option.some.inj hfd
          rw [serve, map_apply, close, handleOf_of_neg hneg]
          rfl
      | fsync =>
          obtain rfl := Option.some.inj hfd
          rw [serve, map_apply, fsync, handleOf_of_neg hneg]
          rfl
      | read | write =>
          obtain rfl := Option.some.inj hfd
          exact serve_of_transfer_error rfl rfl (transfer_of_neg hneg _ _)
      | lseek =>
          obtain rfl := Option.some.inj hfd
          rw [serve, map_apply, lseek_of_error (seekArguments_of_neg hneg _ _ _)]
          rfl
  | tooLong hfd htransfer hlong =>
      obtain ⟨e, he, herrno⟩ := transfer_of_refused (Or.inl hlong)
      rw [serve_of_transfer_error hfd htransfer he, herrno]
  | noMemory hfd htransfer hpos =>
      obtain ⟨e, he, herrno⟩ := transfer_of_refused (Or.inr ⟨rfl, hpos⟩)
      rw [serve_of_transfer_error hfd htransfer he, herrno]
  | @noHandle h offset whence hf =>
      rw [serve, map_apply,
        lseek_of_error (seekArguments_of_none (Int.natCast_nonneg h.index) hf _ _)]
      rfl
  | @noOrigin h f offset whence hf hstart hcurrent hend =>
      obtain ⟨e, he, herrno⟩ := seekTarget_of_refused hstart hcurrent hend
      have harguments := seekArguments_of_some (Int.natCast_nonneg h.index) hf offset whence
      rw [he] at harguments
      rw [serve, map_apply, lseek_of_error harguments, herrno]
      rfl

/-! ### Sessions -/

theorem session_cons (request : Request) (rest : List Request) (c : Cache σ φ) :
    session (request :: rest) c =
      ((serve request c).1 :: (session rest (serve request c).2).1,
        (session rest (serve request c).2).2) := rfl

/-- What calls do to a cache, requests do: those that the calls stand for. -/
theorem session_eq (hplaces : c.table.entries.size = maxHandles) (requests : List Request) :
    ∃ asked, (session requests c).2 = (Cache.session asked c).2 := by
  induction requests generalizing c with
  | nil => exact ⟨[], rfl⟩
  | cons request rest ih =>
      rw [session_cons]
      rcases standsFor_or_refused c request with ⟨asked, hstands⟩ | ⟨errno, hrefused⟩
      · rw [serve_of_standsFor hplaces hstands]
        obtain ⟨askedRest, hrest⟩ := ih ((Cache.places_serve asked c).trans hplaces)
        exact ⟨asked :: askedRest, hrest⟩
      · rw [serve_of_refused hrefused]
        exact ih hplaces

/-- In every session of calls, whatever the storage does: a call that stands for a request leaves
the cache as the request does and returns what its reply counts, exactly, without an error number;
if the request fails, the call returns -1 and the number of the error. A read leaves its bytes in
the memory. A call that is refused returns -1 and the number it is refused with, and changes
neither the cache nor the memory. There are no other calls. -/
theorem calls_faithful (storage : σ) (slotCount : Nat) (allocator : Allocator)
    (past : List Request) (request : Request) :
    let c : Cache σ φ := (session past (Cache.new storage slotCount allocator)).2
    let returned := (serve request c).1.1
    let memory := (serve request c).1.2
    let c' := (serve request c).2
    (∀ asked, StandsFor request asked →
      let reply := (Cache.serve asked c).1
      c' = (Cache.serve asked c).2 ∧
        (reply.failure? = none → returned = ⟨reply.value, none⟩) ∧
        (∀ e, reply.failure? = some e → returned = ⟨-1, some e.errno⟩) ∧
        ∀ outcome buffer, reply = .bytes outcome buffer →
          memory = request.memory.map fun old => Bytes.overlay old 0 buffer) ∧
      (∀ errno, Refused c request errno →
        returned = ⟨-1, some errno⟩ ∧ memory = request.memory ∧ c' = c) ∧
      ((∃ asked, StandsFor request asked) ∨ ∃ errno, Refused c request errno) := by
  intro c returned memory c'
  have hplaces : c.table.entries.size = maxHandles := by
    obtain ⟨asked, hasked⟩ :=
      session_eq (c := Cache.new storage slotCount allocator) (Cache.tabled_new _ _ _).places past
    show ((session past
      (Cache.new storage slotCount allocator)).2 : Cache σ φ).table.entries.size = _
    rw [hasked]
    exact ((Cache.tabled_new _ _ _).session asked).places
  refine ⟨fun asked hstands => ?_, fun errno hrefused => ?_, standsFor_or_refused c request⟩
  · have hserve := serve_of_standsFor hplaces hstands
    have hreturned : returned = told (Cache.serve asked c).1 := congrArg (·.1.1) hserve
    have hmemory : memory = memoryAfter request.memory (Cache.serve asked c).1 :=
      congrArg (·.1.2) hserve
    refine ⟨congrArg Prod.snd hserve, fun hok => ?_, fun e he => ?_,
      fun outcome buffer hreply => ?_⟩
    · rw [hreturned, told, hok]
    · rw [hreturned, told, he]
      rfl
    · rw [hmemory, hreply]
      rfl
  · have hserve := serve_of_refused hrefused
    exact ⟨congrArg (·.1.1) hserve, congrArg (·.1.2) hserve, congrArg Prod.snd hserve⟩

end Posix

end BlockCache
