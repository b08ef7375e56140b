import BlockCache.Proofs.Damage
import BlockCache.Proofs.Durability
import BlockCache.Proofs.Traffic

/-!
What is behind the blocks that a cache reports as lost, or as not to be had. Each time it is a call
of the storage that failed: a write of the whole block if it was to be evicted, a read of it else.
So a cache over whose storage no read and no write failed has no damaged block, and what is promised
of reads for as long as nothing goes amiss is promised for as long as their calls do not fail.
-/

namespace BlockCache

/-- Which call that failed is behind an event. It was made for the block of which the event
tells. -/
inductive Call.Explains (σ : Type) {φ : Type} [Storage σ φ] : Call φ → Event → Prop where
  | evicted {file : φ} {key : BlockId} {bytes : ByteArray} {outcome : Except Fault Nat} {e : Error}
      (hfile : Storage.descriptor σ file = key.owner) (hfailed : outcome ≠ .ok blockSize) :
      Explains σ (.writeAt file key.offset bytes outcome) (.evictionFailed key e)
  | preRead {file : φ} {key : BlockId} {fault : Fault}
      (hfile : Storage.descriptor σ file = key.owner) :
      Explains σ (.readAt file key.offset blockSize (.error fault))
        (.preReadFailed key (.storage fault))
  | read {file : φ} {key : BlockId} {fault : Fault}
      (hfile : Storage.descriptor σ file = key.owner) :
      Explains σ (.readAt file key.offset blockSize (.error fault))
        (.readFailed key (.storage fault))

namespace Call.Explains

variable {σ φ : Type} [Storage σ φ] {call : Call φ} {event : Event}

theorem isFailed (h : call.Explains σ event) :
    call.isFailedRead = true ∨ call.isFailedWrite = true := by
  cases h with
  | preRead | read => exact Or.inl rfl
  | @evicted _ _ _ outcome _ _ hfailed =>
      refine Or.inr ?_
      cases outcome with
      | error => rfl
      | ok n => exact bne_iff_ne.mpr fun hn => hfailed (hn ▸ rfl)

theorem isFailedWrite {key : BlockId} {e : Error} (h : call.Explains σ (.evictionFailed key e)) :
    call.isFailedWrite = true := by
  refine h.isFailed.resolve_left ?_
  cases h with
  | evicted => exact Bool.false_ne_true

end Call.Explains

/-- Whether a failed call is behind each block that is reported as lost, or as not to be had. -/
def AccountFor (σ : Type) {φ : Type} [Storage σ φ] (calls : List (Call φ)) (events : List Event) :
    Prop :=
  ∀ event ∈ events, event.isMishap = true → ∃ call ∈ calls, call.Explains σ event

namespace AccountFor

variable {σ φ : Type} [Storage σ φ] {calls calls' : List (Call φ)} {events events' : List Event}

theorem quiet (h : ∀ event ∈ events, event.isMishap = false) : AccountFor σ calls events :=
  fun event hmem hmishap => absurd hmishap (Bool.eq_false_iff.mp (h event hmem))

theorem single {call : Call φ} {event : Event} (h : call.Explains σ event) :
    AccountFor σ [call] [event] := by
  intro event' hmem _
  obtain rfl := List.mem_singleton.mp hmem
  exact ⟨call, List.mem_singleton_self call, h⟩

theorem append (h : AccountFor σ calls events) (h' : AccountFor σ calls' events') :
    AccountFor σ (calls ++ calls') (events ++ events') := by
  intro event hmem hmishap
  rcases List.mem_append.mp hmem with hmem | hmem
  · obtain ⟨call, hcall, hbehind⟩ := h event hmem hmishap
    exact ⟨call, List.mem_append_left _ hcall, hbehind⟩
  · obtain ⟨call, hcall, hbehind⟩ := h' event hmem hmishap
    exact ⟨call, List.mem_append_right _ hcall, hbehind⟩

/-- While no call to read or to write a block fails, there is nothing to account for. -/
theorem mishaps_none (h : AccountFor σ calls events)
    (hfine : ∀ call ∈ calls, call.isFailedRead = false ∧ call.isFailedWrite = false) :
    ∀ event ∈ events, event.isMishap = false := by
  refine fun event hmem => Bool.eq_false_iff.mpr fun hmishap => ?_
  obtain ⟨call, hcall, hbehind⟩ := h event hmem hmishap
  obtain ⟨hread, hwrite⟩ := hfine call hcall
  rcases hbehind.isFailed with hfailed | hfailed
  · exact absurd hfailed (Bool.eq_false_iff.mp hread)
  · exact absurd hfailed (Bool.eq_false_iff.mp hwrite)

end AccountFor

namespace Cache

variable {σ φ : Type} [Storage σ φ]

/-- Whether every open file is named by the descriptor that the storage gives it. -/
def Named (c : Cache σ φ) : Prop :=
  ∀ {h : Handle} {f : OpenFile φ}, c.table.get? h = some f →
    f.descriptor = Storage.descriptor σ f.file

theorem Step.named {c c' : Cache σ φ} {as : List Action} {new : List Event}
    (hstep : Step c as new c') (hnamed : c.Named) : c'.Named := by
  cases hstep with
  | move g hf hfile hdescriptor =>
      intro h f' hf'
      rcases c.table.get?_modify_cases hf' with ⟨f₀, hf₀, rfl, rfl⟩ | ⟨-, hf₀⟩
      · obtain rfl := Option.some.inj (hf.symm.trans hf₀)
        rw [hfile, hdescriptor, hnamed hf]
      · exact hnamed hf₀
  | bind hplace =>
      intro h f' hf'
      rcases c.table.get?_of_add_cases hplace hf' with ⟨-, rfl⟩ | ⟨-, hf'⟩
      · rfl
      · exact hnamed hf'
  | drop => exact fun hf' => hnamed (c.table.get?_of_remove hf').2
  | _ => exact hnamed

variable {c c' : Cache (Traced σ φ) φ} {as : List Action} {new : List Event}

/-- Storing a block makes one call, which failed if storing did. -/
theorem storeBlock_explained {file : φ} {key : BlockId} {block : Block} {s s' : Traced σ φ}
    {outcome : Except Error Unit} (hstore : storeBlock file key block s = (outcome, s'))
    (hfile : Storage.descriptor σ file = key.owner) :
    ∃ call : Call φ, s'.calls.toList = s.calls.toList ++ [call] ∧
      ∀ e, outcome = .error e → call.Explains σ (.evictionFailed key e) := by
  obtain ⟨result, hwrite, hresult, -⟩ := storeBlock_run hstore
  refine ⟨_, Traced.calls_writeAt hwrite, fun e he => .evicted hfile fun hok => ?_⟩
  cases he.symm.trans (hresult.mpr hok)

/-- Behind every event of a step that tells of a block which could not be stored or read is a call
that the step made. -/
theorem Step.explained (hstep : Step c as new c') (hnamed : c.Named) :
    ∃ calls, c'.storage.calls.toList = c.storage.calls.toList ++ calls ∧
      AccountFor σ calls new := by
  -- most steps tell of no such block, whatever calls they make
  have hquiet : ∀ {calls}, c'.storage.calls.toList = c.storage.calls.toList ++ calls →
      (∀ event ∈ new, event.isMishap = false) →
      ∃ calls, c'.storage.calls.toList = c.storage.calls.toList ++ calls ∧
        AccountFor σ calls new :=
    fun hcalls hnone => ⟨_, hcalls, .quiet hnone⟩
  have hnothing : c.storage.calls.toList = c.storage.calls.toList ++ [] :=
    (List.append_nil _).symm
  cases hstep with
  | report new hnote =>
      exact hquiet hnothing fun event hmem => Event.isMishap_of_isNote (hnote _ hmem)
  | allocate _ _ hnew | hit _ _ hnew | evictClean _ hnew =>
      exact hquiet hnothing (by simp [hnew, Event.isMishap])
  | miss | move | overwrite | replace => exact hquiet hnothing fun _ hmem => nomatch hmem
  | @evictDirty _ tenant _ f outcome _ _ _ hf howner hstore hnew =>
      obtain ⟨call, hcall, hfailed⟩ := storeBlock_explained hstore ((hnamed hf).symm.trans howner)
      cases outcome with
      | ok _ => exact hquiet hcall (by simp [hnew, Pool.Room.events, Event.isMishap])
      | error e =>
          refine ⟨[call], hcall, ?_⟩
          rw [hnew]
          -- what is told after the failure is that the block was evicted
          exact (AccountFor.single (hfailed e rfl)).append (.quiet (by simp [Event.isMishap]))
  | fill _ _ _ _ hread => exact hquiet (Traced.calls_readAt hread) fun _ hmem => nomatch hmem
  | fillFailed hf _ _ _ hread hnew =>
      exact ⟨_, Traced.calls_readAt hread, hnew ▸ .single (.read (hnamed hf).symm)⟩
  | overwriteZeros hf _ _ _ _ hread hnew =>
      exact ⟨_, Traced.calls_readAt hread, hnew ▸ .single (.preRead (hnamed hf).symm)⟩
  | flush _ hf howner hstore =>
      obtain ⟨call, hcall, -⟩ := storeBlock_explained hstore ((hnamed hf).symm.trans howner)
      exact hquiet hcall fun _ hmem => nomatch hmem
  | sync _ hsync =>
      exact hquiet (Traced.calls_record (fun outcome => .sync _ outcome) hsync)
        fun _ hmem => nomatch hmem
  | trim _ hset =>
      exact hquiet (Traced.calls_record (fun outcome => .setLen _ _ outcome) hset)
        fun _ hmem => nomatch hmem
  | trimFailed _ hset hnew =>
      exact hquiet (Traced.calls_record (fun outcome => .setLen _ _ outcome) hset)
        (by simp [hnew, Event.isMishap])
  | refuse hopen =>
      exact hquiet (Traced.calls_record (fun outcome => .openFile _ _ _ outcome) hopen)
        fun _ hmem => nomatch hmem
  | abandon hopen hsize =>
      have hopened := Traced.calls_record (fun outcome => .openFile _ _ _ outcome) hopen
      have hsized := Traced.calls_record (fun outcome => .size _ outcome) hsize
      rw [hopened, List.append_assoc] at hsized
      exact hquiet ((Traced.calls_close _).trans (by rw [hsized, List.append_assoc]))
        fun _ hmem => nomatch hmem
  | bind _ _ hopen hsize _ hnew =>
      have hopened := Traced.calls_record (fun outcome => .openFile _ _ _ outcome) hopen
      have hsized := Traced.calls_record (fun outcome => .size _ outcome) hsize
      rw [hopened, List.append_assoc] at hsized
      exact hquiet hsized (by simp [hnew, Event.isMishap])
  | drop _ hnew => exact hquiet (Traced.calls_close _) (by simp [hnew, Event.isMishap])

theorem Steps.explained (hsteps : Steps c as new c') (hnamed : c.Named) :
    c'.Named ∧ ∃ calls, c'.storage.calls.toList = c.storage.calls.toList ++ calls ∧
      AccountFor σ calls new := by
  induction hsteps with
  | nil => exact ⟨hnamed, [], (List.append_nil _).symm, fun _ hmem => nomatch hmem⟩
  | cons hstep _ ih =>
      obtain ⟨first, hfirst, hexplained⟩ := hstep.explained hnamed
      obtain ⟨hnamed', rest, hrest, hexplained'⟩ := ih (hstep.named hnamed)
      exact ⟨hnamed', first ++ rest, by rw [hrest, hfirst, List.append_assoc],
        hexplained.append hexplained'⟩

/-- Steps in which no call to read or to write a block fails tell of no block that could not be
stored or read. -/
theorem Steps.mishaps_none (hsteps : Steps c as new c') (hnamed : c.Named)
    (hfine : ∀ call ∈ c'.callsSince c, call.isFailedRead = false ∧ call.isFailedWrite = false) :
    ∀ event ∈ new, event.isMishap = false := by
  obtain ⟨-, calls, hcalls, hexplained⟩ := hsteps.explained hnamed
  rw [callsSince_of_append hcalls] at hfine
  exact hexplained.mishaps_none hfine

/-! ### Runs -/

/-- Whether the calls that were made account for the journal. -/
structure Accounted (c : Cache (Traced σ φ) φ) : Prop where
  named : c.Named
  behind : AccountFor σ c.storage.calls.toList c.journal.toList

theorem Steps.accounted (hsteps : Steps c as new c') (hc : c.Accounted) : c'.Accounted := by
  obtain ⟨hnamed', calls, hcalls, hexplained⟩ := hsteps.explained hc.named
  refine ⟨hnamed', ?_⟩
  rw [hsteps.journal_eq, hcalls]
  exact hc.behind.append hexplained

/-- Every run is accounted for, whatever failed in it. -/
theorem Reachable.accounted {storage : σ} {slotCount : Nat} {allocator : Allocator}
    (hreach : Reachable IsFresh (Cache.new (Traced.new storage) slotCount allocator) c) :
    c.Regular ∧ c.Accounted :=
  hreach.induct (fun _ _ hfresh => hfresh) (fun hstep _ => (Steps.single hstep).accounted)
    (regular_new _ _ _) ⟨fun hf => absurd hf (get?_new _ _ _), fun _ hmem => nomatch hmem⟩

namespace Accounted

/-- A block is damaged only if a call failed that was made for it: the write of it when it was
evicted, or the read of it before a part of it was written. -/
theorem of_damaged (hc : c.Accounted) {key : BlockId} (hkey : key ∈ c.damaged) :
    ∃ call ∈ c.storage.calls.toList, ∃ e, call.Explains σ (.evictionFailed key e) ∨
      call.Explains σ (.preReadFailed key e) := by
  obtain hnone | ⟨e, he | he⟩ := mem_lostAfter hkey
  · cases hnone
  · obtain ⟨call, hcall, hbehind⟩ := hc.behind _ he rfl
    exact ⟨call, hcall, e, Or.inl hbehind⟩
  · obtain ⟨call, hcall, hbehind⟩ := hc.behind _ he rfl
    exact ⟨call, hcall, e, Or.inr hbehind⟩

/-- While no read and no write fails, no block is damaged. -/
theorem damaged_none (hc : c.Accounted) (hfine : ∀ call ∈ c.storage.calls.toList,
    call.isFailedRead = false ∧ call.isFailedWrite = false) : c.damaged = [] := by
  have hnone := hc.behind.mishaps_none hfine
  refine List.eq_nil_iff_forall_not_mem.mpr fun key hkey => ?_
  obtain hnil | ⟨e, he | he⟩ := mem_lostAfter hkey
  · cases hnil
  · cases hnone _ he
  · cases hnone _ he

end Accounted

/-- Every byte that a successful read delivers is the one its file should hold, unless a call for
its block failed; and all of them are while no read and no write of the storage fails. -/
theorem Recorded.read_of_calls {disk : Disk (Traced σ φ) φ} {image : Image} {storage : σ}
    {slotCount : Nat} {allocator : Allocator} (hs : disk.Sound (Traced.new storage))
    (hrun : Recorded disk (Cache.new (Traced.new storage) slotCount allocator) c image)
    {n count : Nat} {h : Handle} {f : OpenFile φ} {buffer buffer' : Buffer n}
    (hf : c.table.get? h = some f) (hread : read h buffer c = ((.ok count, buffer'), c')) :
    (∀ i < count, buffer'.byteAt i = image h (f.cursor + i) ∨
      ∃ call ∈ c'.storage.calls.toList, ∃ e,
        call.Explains σ (.evictionFailed ⟨f.descriptor, blockOf (f.cursor + i)⟩ e) ∨
        call.Explains σ (.preReadFailed ⟨f.descriptor, blockOf (f.cursor + i)⟩ e)) ∧
    ((∀ call ∈ c'.storage.calls.toList,
      call.isFailedRead = false ∧ call.isFailedWrite = false) → ∀ i < count,
      buffer'.byteAt i = image h (f.cursor + i)) := by
  obtain ⟨hreg, haccounted⟩ := hrun.reachable.accounted
  obtain ⟨_, _, hsteps, -⟩ := read_steps hreg h buffer
  rw [hread] at hsteps
  have haccounted' := hsteps.accounted haccounted
  refine ⟨fun i hi => ?_, fun hfine i hi => hrun.read_kept hs hf hread i hi ?_⟩
  · by_cases hdamaged : ⟨f.descriptor, blockOf (f.cursor + i)⟩ ∈ c'.damaged
    · exact Or.inr (haccounted'.of_damaged hdamaged)
    · exact Or.inl (hrun.read_kept hs hf hread i hi hdamaged)
  · rw [haccounted'.damaged_none hfine]
    exact List.not_mem_nil

/-- A file that can be read from its start as long as no block could not be stored or read, can be
read as long as no call of the read fails. -/
theorem ReadsAs.of_calls {h : Handle} {bytes : ByteArray} (hreads : c.ReadsAs h bytes)
    (hreg : c.Regular) (hnamed : c.Named) :
    ∃ c₁, seek h (.start 0) c = (.ok 0, c₁) ∧
      ∀ (buffer buffer' : Buffer bytes.size) (outcome : Except Error Nat)
        (c₂ : Cache (Traced σ φ) φ), read h buffer c₁ = ((outcome, buffer'), c₂) →
        (∀ call ∈ c₂.callsSince c₁, call.isFailedRead = false ∧ call.isFailedWrite = false) →
        outcome = .ok bytes.size ∧ buffer'.bytes = bytes := by
  obtain ⟨c₁, hseek, hread⟩ := hreads
  refine ⟨c₁, hseek, fun buffer buffer' outcome c₂ hrun hfine => hread _ _ _ _ hrun ?_⟩
  obtain ⟨_, hmove, -⟩ := seek_steps c h (.start 0)
  rw [hseek] at hmove
  obtain ⟨_, _, hsteps, -⟩ := read_steps (hmove.regular hreg) h buffer
  rw [hrun] at hsteps
  rw [hsteps.since_eq]
  exact hsteps.mishaps_none (hmove.explained hnamed).1 hfine

end Cache

end BlockCache
