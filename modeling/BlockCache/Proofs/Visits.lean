import BlockCache.Proofs.Balance
import BlockCache.Proofs.Contents

/-!
The turns of the loop of a transfer. In each turn the block of one chunk is looked up, and put into
a slot if no slot holds it; then the bytes of the chunk are copied out of the slot or into it. A
turn counts one look-up, asks the storage for the block only if no slot holds it, and changes no
byte of a block that stays in its slot but those it copies.
-/

namespace BlockCache

/-- A turn of the loop of a transfer, with the states that it passes through. -/
structure Visit (σ φ : Type) where
  chunk : Chunk
  /-- The cache when the block of the chunk is looked up. -/
  before : Cache σ φ
  /-- The slot that the block is in then. -/
  slot : Nat
  /-- The cache when the block is in its slot. -/
  lodged : Cache σ φ
  /-- The cache when the bytes of the chunk are copied. -/
  after : Cache σ φ

/-- What a call of a storage reads, if it reads: the file, the offset and the length. -/
def Call.range? {φ : Type} : Call φ → Option (φ × Nat × Nat)
  | .readAt file offset length _ => some (file, offset, length)
  | _ => none

namespace Traced

variable {σ φ : Type} {s s' s'' : Traced σ φ} {ranges ranges' : List (φ × Nat × Nat)}

/-- Whether these ranges, and no other ones, are read on the way from one state of a storage to
another. -/
def Asks (ranges : List (φ × Nat × Nat)) (s s' : Traced σ φ) : Prop :=
  ∃ calls, s'.calls.toList = s.calls.toList ++ calls ∧ calls.filterMap Call.range? = ranges

theorem Asks.refl (s : Traced σ φ) : Asks [] s s := ⟨[], (List.append_nil _).symm, rfl⟩

theorem Asks.trans (h : Asks ranges s s') (h' : Asks ranges' s' s'') :
    Asks (ranges ++ ranges') s s'' := by
  obtain ⟨calls, heq, rfl⟩ := h
  obtain ⟨calls', heq', rfl⟩ := h'
  exact ⟨calls ++ calls', by rw [heq', heq, List.append_assoc], List.filterMap_append⟩

end Traced

namespace Cache

theorem filterMap_callsSince {σ φ : Type} {c c' : Cache (Traced σ φ) φ}
    {ranges : List (φ × Nat × Nat)} (h : Traced.Asks ranges c.storage c'.storage) :
    (c'.callsSince c).filterMap Call.range? = ranges := by
  obtain ⟨calls, heq, rfl⟩ := h
  rw [callsSince_of_append heq]

variable {σ φ : Type}

/-- Whether no slot holds the block of a turn when it is looked up. -/
def isMiss (f : OpenFile φ) (v : Visit σ φ) : Bool :=
  !v.before.pool.holds ⟨f.descriptor, v.chunk.block⟩

def rangeOf (f : OpenFile φ) (v : Visit σ φ) : φ × Nat × Nat :=
  (f.file, v.chunk.block * blockSize, blockSize)

variable [Storage σ φ]

/-- The turns of copying chunks out, up to the first whose block cannot be had. -/
def readVisits (f : OpenFile φ) : List Chunk → Cache σ φ → List (Visit σ φ)
  | [], _ => []
  | chunk :: rest, c =>
      match slotToRead f chunk.block c with
      | (.error _, _) => []
      | (.ok slot, c') => ⟨chunk, c, slot, c', c'⟩ :: readVisits f rest c'

def writeVisits (f : OpenFile φ) (data : ByteArray) : List Chunk → Cache σ φ → List (Visit σ φ)
  | [], _ => []
  | chunk :: rest, c =>
      let (slot, lodged) := slotToWrite f chunk.block (chunk.length = blockSize) c
      let c' := (copyIn f data [chunk] c).2
      ⟨chunk, c, slot, lodged, c'⟩ :: writeVisits f data rest c'

/-- What a transfer asks for in a turn; it writes if it has bytes to write. -/
def touchFor (f : OpenFile φ) : Option ByteArray → Chunk → Touch
  | none => touchToRead f
  | some _ => touchToWrite f

/-- What the turn of a transfer does to the pool when the block is in its slot. -/
def exchange (v : Visit σ φ) (pool : Pool Scan) : Option ByteArray → Pool Scan
  | none => pool
  | some data =>
      pool.write v.slot v.chunk.start (Bytes.slice data v.chunk.position v.chunk.length)

/-- What a turn of a transfer does: the block of its chunk is asked for and had, and then bytes are
copied. -/
structure IsTurn (f : OpenFile φ) (data : Option ByteArray) (v : Visit σ φ) : Prop where
  access : ∃ how, how ≠ .refused ∧
    Access f.file (touchFor f data v.chunk) v.before how v.slot v.lodged
  after_eq : v.after = { v.lodged with pool := exchange v v.lodged.pool data }

/-- Turns of a transfer, each of which starts where the one before has ended. -/
inductive Tour (f : OpenFile φ) (data : Option ByteArray) :
    Cache σ φ → List (Visit σ φ) → Cache σ φ → Prop where
  | nil (c : Cache σ φ) : Tour f data c [] c
  | cons {v : Visit σ φ} {rest : List (Visit σ φ)} {c c' : Cache σ φ} (hbefore : v.before = c)
      (hturn : IsTurn f data v) (hrest : Tour f data v.after rest c') :
      Tour f data c (v :: rest) c'

variable {f f' : OpenFile φ} {h : Handle} {data : Option ByteArray} {visits : List (Visit σ φ)}
  {file : φ} {touch : Touch} {how : How} {i : Nat} {c c' : Cache σ φ}

theorem key_touchFor (f : OpenFile φ) (data : Option ByteArray) (chunk : Chunk) :
    (touchFor f data chunk).key = ⟨f.descriptor, chunk.block⟩ := by
  cases data <;> rfl

theorem key_firstChunk_iff (key : BlockId) (owner : Descriptor) (offset count : Nat) {p : Nat}
    (hp : p < blockSize) :
    (key = ⟨owner, blockOf offset⟩ ∧ placeInBlock offset ≤ p ∧
        p < placeInBlock offset + chunkLength offset count) ↔
      key.owner = owner ∧ offset ≤ key.offset + p ∧
        key.offset + p < offset + chunkLength offset count := by
  rw [BlockId.offset, ← firstChunk_iff hp]
  constructor
  · rintro ⟨rfl, hplace⟩
    exact ⟨rfl, rfl, hplace⟩
  · rintro ⟨rfl, hblock, hplace⟩
    exact ⟨by rw [← hblock], hplace⟩

/-! ### One access -/

omit [Storage σ φ] in
theorem accesses_evict (pool : Pool Scan) (i : Nat) (eviction : Pool.Eviction) :
    (pool.evict i eviction).stats.accesses = pool.stats.accesses := by
  obtain ⟨key, frequency, outcome⟩ := eviction
  cases outcome with
  | none => rfl
  | some outcome => exact (Stats.wroteBack_counts _ _).1

theorem MadeRoom.accesses_eq (hroom : MadeRoom c c') :
    c'.pool.stats.accesses = c.pool.stats.accesses := by
  cases hroom with
  | free => rfl
  | clean | dirty => exact accesses_evict _ _ _

theorem Filled.accesses_eq (hfilled : Filled file touch i c how c') :
    c'.pool.stats.accesses = c.pool.stats.accesses := by
  cases hfilled <;> rfl

/-- An access counts as one look-up. -/
theorem Access.accesses_eq (haccess : Access file touch c how i c') :
    c'.pool.stats.accesses = c.pool.stats.accesses + 1 := by
  cases haccess with
  | found => rfl
  | missed _ hroom hfilled => exact hfilled.accesses_eq.trans hroom.accesses_eq

/-- A block that stays in its slot keeps its bytes. -/
theorem Access.block_eq (haccess : Access file touch c how i c') {j : Nat} {s s' : Slot}
    {key : BlockId} (hs : c.pool.slots[j]? = some s) (hkey : s.key = some key)
    (hs' : c'.pool.slots[j]? = some s') (hkey' : s'.key = some key) : s'.block = s.block := by
  cases haccess with
  | found =>
      rcases Pool.getElem?_modify_cases hs' with ⟨s₀, hs₀, rfl, rfl⟩ | ⟨-, hs₀⟩
      · obtain rfl := Option.some.inj (hs.symm.trans hs₀)
        rfl
      · obtain rfl := Option.some.inj (hs.symm.trans hs₀)
        rfl
  | missed habsent hroom hfilled =>
      obtain ⟨g, hslots, hg⟩ := hfilled.slots_eq
      rw [hslots] at hs'
      rcases Pool.getElem?_modify_cases hs' with ⟨s₀, hs₀, rfl, rfl⟩ | ⟨-, hs₀⟩
      · -- the slot was freed, so what it holds now is the block that was in no slot
        rw [hg] at hkey'
        split at hkey'
        · exact absurd rfl (hroom.kept hs₀ hkey').1
        · exact absurd (hkey.trans hkey'.symm) (habsent _ _ hs)
      · obtain rfl := Option.some.inj (hs.symm.trans (hroom.kept hs₀ hkey').2)
        rfl

/-- The block is in the slot that held it before, if one did. -/
theorem Access.slot_eq (haccess : Access file touch c how i c') (hc : c.Housed) {j : Nat} {s : Slot}
    (hs : c.pool.slots[j]? = some s) (hkey : s.key = some touch.key) : j = i := by
  cases haccess with
  | found hi hkey' => exact hc.distinct hs hi hkey hkey'
  | missed habsent => exact absurd hkey (habsent _ _ hs)

section Asked

variable {c c' : Cache (Traced σ φ) φ}

theorem MadeRoom.asks (hroom : MadeRoom c c') : Traced.Asks [] c.storage c'.storage := by
  cases hroom with
  | free | clean => exact .refl _
  | dirty _ _ hstore =>
      obtain ⟨result, hwrite, -⟩ := storeBlock_run hstore
      exact ⟨_, Traced.calls_writeAt hwrite, rfl⟩

theorem Filled.asks (hfilled : Filled file touch i c how c') :
    Traced.Asks (if touch.covers then [] else [(file, touch.key.offset, blockSize)]) c.storage
      c'.storage := by
  cases hfilled with
  | loaded hpart hread | refused hpart hread | zeroed hpart hread =>
      rw [hpart]
      exact ⟨_, Traced.calls_readAt hread, rfl⟩
  | taken hwhole =>
      rw [hwhole]
      exact .refl _

/-- A block is asked of the storage just if no slot holds it and not all of it is to be written, and
then once. -/
theorem Access.asks (haccess : Access file touch c how i c') :
    Traced.Asks (if !c.pool.holds touch.key && !touch.covers then
      [(file, touch.key.offset, blockSize)] else []) c.storage c'.storage := by
  cases haccess with
  | found hs hkey =>
      rw [holds_iff.mpr ⟨_, _, hs, hkey⟩]
      exact .refl _
  | missed habsent hroom hfilled =>
      have hasks := hroom.asks.trans hfilled.asks
      rw [holds_eq_false_iff.mpr habsent]
      cases hcovers : touch.covers <;> rwa [hcovers] at hasks

end Asked

/-! ### The turns of a transfer -/

namespace IsTurn

variable {v : Visit σ φ}

/-- The block is in its slot when the bytes are copied. -/
theorem holds (hturn : IsTurn f data v) :
    ∃ s, v.lodged.pool.slots[v.slot]? = some s ∧ s.key = some ⟨f.descriptor, v.chunk.block⟩ := by
  obtain ⟨how, hhow, haccess⟩ := hturn.access
  rw [← key_touchFor f data]
  exact haccess.holds hhow

theorem table_eq (hturn : IsTurn f data v) : v.after.table = v.before.table := by
  obtain ⟨how, -, haccess⟩ := hturn.access
  rw [hturn.after_eq]
  exact haccess.table_eq

/-- A turn is one look-up. -/
theorem accesses_eq (hturn : IsTurn f data v) :
    v.after.pool.stats.accesses = v.before.pool.stats.accesses + 1 := by
  obtain ⟨how, -, haccess⟩ := hturn.access
  rw [hturn.after_eq, ← haccess.accesses_eq]
  cases data <;> rfl

theorem housed (hturn : IsTurn f data v) (hv : v.before.Housed)
    (hf : v.before.table.get? h = some f') (howner : f'.descriptor = f.descriptor) :
    v.after.Housed := by
  obtain ⟨how, -, haccess⟩ := hturn.access
  have hlodged := haccess.housed hv hf (by rw [key_touchFor]; exact howner)
  rw [hturn.after_eq]
  cases data with
  | none => exact hlodged
  | some bytes => exact hlodged.write _ _ _

/-- A turn that reads changes no byte of a block that stays in its slot. -/
theorem block_eq (hturn : IsTurn f none v) {j : Nat} {s s' : Slot} {key : BlockId}
    (hs : v.before.pool.slots[j]? = some s) (hkey : s.key = some key)
    (hs' : v.after.pool.slots[j]? = some s') (hkey' : s'.key = some key) : s'.block = s.block := by
  obtain ⟨how, -, haccess⟩ := hturn.access
  rw [hturn.after_eq] at hs'
  exact haccess.block_eq hs hkey hs' hkey'

/-- A turn that writes changes, of a block that stays in its slot, the bytes of its chunk if it is
the block of the turn, and no other ones. -/
theorem byteAt_written {bytes : ByteArray} (hturn : IsTurn f (some bytes) v) (hv : v.before.Housed)
    (hfits : v.chunk.position + v.chunk.length ≤ bytes.size) {j : Nat} {s s' : Slot}
    {key : BlockId} (hs : v.before.pool.slots[j]? = some s) (hkey : s.key = some key)
    (hs' : v.after.pool.slots[j]? = some s') (hkey' : s'.key = some key) {p : Nat}
    (hp : p < blockSize) :
    s'.block.byteAt p =
      if key = ⟨f.descriptor, v.chunk.block⟩ ∧ v.chunk.start ≤ p ∧
          p < v.chunk.start + v.chunk.length then
        Bytes.byteAt bytes (v.chunk.position + (p - v.chunk.start))
      else s.block.byteAt p := by
  obtain ⟨t, ht, hkeyt⟩ := hturn.holds
  obtain ⟨how, -, haccess⟩ := hturn.access
  rw [hturn.after_eq] at hs'
  rcases Pool.getElem?_modify_cases hs' with ⟨s₁, hs₁, rfl, rfl⟩ | ⟨hne, hs₁⟩
  · -- the slot of the turn holds the block that is looked up, so this is the block that stays
    obtain rfl := Option.some.inj (hs₁.symm.trans ht)
    rw [Slot.key_write, hkeyt] at hkey'
    have hkey₁ := Option.some.inj hkey'
    have hblock := haccess.block_eq hs hkey hs₁ (hkeyt.trans (congrArg some hkey₁))
    rw [Slot.byteAt_write _ _ _ hp, Bytes.size_slice, hblock]
    by_cases hin : v.chunk.start ≤ p ∧ p < v.chunk.start + v.chunk.length
    · rw [if_pos (by omega), if_pos ⟨hkey₁.symm, hin⟩, Bytes.byteAt_slice, if_pos (by omega)]
    · rw [if_neg (by omega), if_neg fun hall => hin hall.2]
  · have hother : key ≠ ⟨f.descriptor, v.chunk.block⟩ := by
      rintro rfl
      exact hne (haccess.slot_eq hv hs (hkey.trans (congrArg some (key_touchFor _ _ _).symm)))
    rw [if_neg fun hall => hother hall.1, haccess.block_eq hs hkey hs₁ hkey']

end IsTurn

namespace Tour

theorem isTurn (htour : Tour f data c visits c') {v : Visit σ φ} (hv : v ∈ visits) :
    IsTurn f data v := by
  induction htour with
  | nil => cases hv
  | cons _ hturn _ ih =>
      rcases List.mem_cons.mp hv with rfl | hv
      · exact hturn
      · exact ih hv

/-- A transfer makes one look-up in each turn. -/
theorem accesses_eq (htour : Tour f data c visits c') :
    c'.pool.stats.accesses = c.pool.stats.accesses + visits.length := by
  induction htour with
  | nil => rfl
  | cons hbefore hturn _ ih =>
      rw [ih, hturn.accesses_eq, hbefore, List.length_cons]
      omega

/-- The last turn ends where the transfer does. -/
theorem last_eq (htour : Tour f data c visits c') {v : Visit σ φ}
    (hv : visits.getLast? = some v) : v.after = c' := by
  induction htour with
  | nil => cases hv
  | @cons first rest _ _ _ _ hrest ih =>
      cases rest with
      | nil =>
          obtain rfl := Option.some.inj hv
          cases hrest
          rfl
      | cons second more => exact ih (by rwa [List.getLast?_cons_cons] at hv)

/-- The blocks that are asked of the storage are those that no slot holds when they are looked up,
but for those that are to be written whole. -/
theorem asks {c c' : Cache (Traced σ φ) φ} {visits : List (Visit (Traced σ φ) φ)}
    (htour : Tour f data c visits c') :
    Traced.Asks ((visits.filter fun v => isMiss f v && !(touchFor f data v.chunk).covers).map
      (rangeOf f)) c.storage c'.storage := by
  induction htour with
  | nil => exact .refl _
  | @cons v rest _ _ hbefore hturn _ ih =>
      obtain ⟨how, -, haccess⟩ := hturn.access
      have hasked := haccess.asks
      rw [key_touchFor, hbefore] at hasked
      have hafter : v.after.storage = v.lodged.storage := by rw [hturn.after_eq]
      rw [hafter] at ih
      have hall := hasked.trans ih
      rw [List.filter_cons, isMiss, hbefore]
      split at hall
      · next hneeded => rw [if_pos hneeded]; exact hall
      · next hneeded => rw [if_neg hneeded]; exact hall

/-- A read changes no byte of a block that stays in its slot. -/
theorem block_eq (htour : Tour f none c visits c') {j : Nat} {s s' : Slot} {key : BlockId}
    (hs : c.pool.slots[j]? = some s) (hkey : s.key = some key)
    (hstays : ∀ v ∈ visits, ∃ t, v.after.pool.slots[j]? = some t ∧ t.key = some key)
    (hs' : c'.pool.slots[j]? = some s') : s'.block = s.block := by
  induction htour generalizing s with
  | nil =>
      obtain rfl := Option.some.inj (hs.symm.trans hs')
      rfl
  | @cons v rest _ _ hbefore hturn _ ih =>
      obtain ⟨t, ht, hkeyt⟩ := hstays v List.mem_cons_self
      rw [← hturn.block_eq (hbefore ▸ hs) hkey ht hkeyt]
      exact ih ht hkeyt (fun w hw => hstays w (List.mem_cons_of_mem _ hw)) hs'

/-- A write changes, of a block that stays in its slot, the bytes that it covers and no other
ones. -/
theorem byteAt_written {bytes : ByteArray} {offset position count : Nat}
    (htour : Tour f (some bytes) c visits c')
    (hchunks : visits.map (·.chunk) = chunksFrom offset position count)
    (hfits : position + count ≤ bytes.size) (hc : c.Housed) (hf : c.table.get? h = some f')
    (howner : f'.descriptor = f.descriptor) {j : Nat} {s s' : Slot} {key : BlockId}
    (hs : c.pool.slots[j]? = some s) (hkey : s.key = some key)
    (hstays : ∀ v ∈ visits, ∃ t, v.after.pool.slots[j]? = some t ∧ t.key = some key)
    (hs' : c'.pool.slots[j]? = some s') {p : Nat} (hp : p < blockSize) :
    s'.block.byteAt p =
      if key.owner = f.descriptor ∧ offset ≤ key.offset + p ∧ key.offset + p < offset + count then
        Bytes.byteAt bytes (position + (key.offset + p - offset))
      else s.block.byteAt p := by
  induction offset, position, count using chunksFrom.induct generalizing c visits s with
  | case1 offset position =>
      rw [chunksFrom_zero, List.map_eq_nil_iff] at hchunks
      subst hchunks
      cases htour
      obtain rfl := Option.some.inj (hs.symm.trans hs')
      rw [if_neg (by omega)]
  | case2 offset position count hcount hpos ih =>
      rw [chunksFrom_of_pos (Nat.pos_of_ne_zero hcount)] at hchunks
      cases htour with
      | nil => cases hchunks
      | @cons v rest _ _ hbefore hturn hrest =>
          obtain ⟨hfirst, hchunks⟩ := List.cons.inj hchunks
          have hchunk : v.chunk = ⟨blockOf offset, placeInBlock offset, position,
            chunkLength offset count⟩ := hfirst
          subst hbefore
          have hle := chunkLength_le offset count
          have hplace := blockOf_mul_add_placeInBlock offset
          obtain ⟨t, ht, hkeyt⟩ := hstays v List.mem_cons_self
          have hturned := hturn.byteAt_written hc (by rw [hchunk]; dsimp only; omega) hs hkey ht
            hkeyt hp
          have hlater := ih hrest hchunks (by omega) (hturn.housed hc hf howner)
            (hturn.table_eq ▸ hf) ht hkeyt fun w hw => hstays w (List.mem_cons_of_mem _ hw)
          rw [hchunk] at hturned
          dsimp only at hturned
          rw [hlater]
          by_cases hmore : key.owner = f.descriptor ∧
              offset + chunkLength offset count ≤ key.offset + p ∧ key.offset + p <
                offset + chunkLength offset count + (count - chunkLength offset count)
          · rw [if_pos hmore, if_pos ⟨hmore.1, by omega, by omega⟩]
            congr 1
            omega
          · have hin := key_firstChunk_iff key f.descriptor offset count hp
            rw [if_neg hmore, hturned]
            by_cases hcovered : key.owner = f.descriptor ∧ offset ≤ key.offset + p ∧
                key.offset + p < offset + count
            · have hnext : ¬ offset + chunkLength offset count ≤ key.offset + p :=
                fun hle => hmore ⟨hcovered.1, hle, by omega⟩
              have hfirst := hin.mpr ⟨hcovered.1, hcovered.2.1, Nat.not_le.mp hnext⟩
              have hoffset : key.offset = blockOf offset * blockSize := by
                rw [hfirst.1, BlockId.offset]
              have hbyte : position + (p - placeInBlock offset) =
                  position + (key.offset + p - offset) := by omega
              rw [if_pos hfirst, if_pos hcovered, hbyte]
            · have hnone := fun hall =>
                hcovered ((hin.mp hall).imp_right (And.imp_right (by omega)))
              rw [if_neg hnone, if_neg hcovered]

end Tour

/-! ### Reading -/

theorem readVisits_of_ok (chunk : Chunk) {rest : List Chunk}
    (hslot : slotToRead f chunk.block c = (.ok i, c')) :
    readVisits f (chunk :: rest) c = ⟨chunk, c, i, c', c'⟩ :: readVisits f rest c' := by
  rw [readVisits, hslot]

/-- Copying out that comes to its end is a row of turns, one for each chunk. -/
theorem readVisits_tour {n : Nat} {cs : List Chunk} {buffer buffer' : Buffer n} (hc : c.Housed)
    (hf : c.table.get? h = some f) (hcopy : copyOut f cs buffer c = ((.ok (), buffer'), c')) :
    Tour f none c (readVisits f cs c) c' ∧ (readVisits f cs c).map (·.chunk) = cs := by
  induction cs generalizing c buffer with
  | nil =>
      obtain ⟨-, rfl⟩ := Prod.mk.inj hcopy
      exact ⟨.nil c, rfl⟩
  | cons chunk rest ih =>
      obtain ⟨how, i, c₁, haccess, ⟨hslot, hhow⟩ | ⟨fault, hslot, -⟩⟩ :=
        slotToRead_access hc (hc.capacity_pos hf) f chunk.block
      · rw [copyOut_of_ok chunk hslot] at hcopy
        obtain ⟨htour, hchunks⟩ :=
          ih (haccess.housed hc hf rfl) (haccess.table_eq ▸ hf) hcopy
        have hne : how ≠ .refused := by
          rcases hhow with rfl | rfl <;> decide
        rw [readVisits_of_ok chunk hslot, List.map_cons, hchunks]
        exact ⟨.cons rfl ⟨⟨how, hne, haccess⟩, rfl⟩ htour, rfl⟩
      · rw [copyOut_of_error chunk hslot] at hcopy
        cases (Prod.mk.inj (Prod.mk.inj hcopy).1).1

/-- Every byte that is copied out is, when its turn ends, in the slot of that turn at the place of
its chunk; the rest of the buffer is left alone. -/
theorem byteAt_copyOut {n offset position count : Nat} {buffer buffer' : Buffer n}
    (hfits : position + count ≤ n)
    (hcopy : copyOut f (chunksFrom offset position count) buffer c = ((.ok (), buffer'), c')) :
    (∀ i, i < position ∨ position + count ≤ i → buffer'.byteAt i = buffer.byteAt i) ∧
      ∀ v ∈ readVisits f (chunksFrom offset position count) c, ∀ i, v.chunk.covers i = true →
        buffer'.byteAt i =
          (v.lodged.pool.blockAt v.slot).byteAt (v.chunk.start + (i - v.chunk.position)) := by
  induction offset, position, count using chunksFrom.induct generalizing c buffer with
  | case1 offset position =>
      rw [chunksFrom_zero] at hcopy ⊢
      obtain ⟨hres, -⟩ := Prod.mk.inj hcopy
      obtain ⟨-, rfl⟩ := Prod.mk.inj hres
      exact ⟨fun _ _ => rfl, fun v hv => absurd hv List.not_mem_nil⟩
  | case2 offset position count hcount hpos ih =>
      rw [chunksFrom_of_pos (Nat.pos_of_ne_zero hcount)] at hcopy ⊢
      obtain ⟨slot, c₁, hslot, hrest⟩ := copyOut_cons_ok hcopy
      rw [readVisits_of_ok _ hslot]
      have hle := chunkLength_le offset count
      have hplace := placeInBlock_lt offset
      have hlength : chunkLength offset count ≤ blockSize - placeInBlock offset :=
        Nat.min_le_left _ _
      have hblit := byteAt_blit_slice buffer (c₁.pool.blockAt slot)
        (show position + chunkLength offset count ≤ n by omega)
        (show placeInBlock offset + chunkLength offset count ≤ blockSize by omega)
      obtain ⟨houtside, hbytes⟩ := ih (by omega) hrest
      refine ⟨fun i hi => ?_, fun v hv i hcovers => ?_⟩
      · rw [houtside i (by omega), hblit, if_neg (by omega)]
      · rcases List.mem_cons.mp hv with rfl | hv
        · -- the later chunks leave the bytes of the first one alone
          rw [Chunk.covers_iff] at hcovers
          dsimp only at hcovers
          rw [houtside i (by omega), hblit, if_pos (by omega)]
        · exact hbytes v hv i hcovers

/-! ### Writing -/

/-- Copying in is a row of turns, one for each chunk. -/
theorem writeVisits_tour (bytes : ByteArray) (cs : List Chunk) (hc : c.Housed)
    (hf : c.table.get? h = some f') (howner : f'.descriptor = f.descriptor) :
    Tour f (some bytes) c (writeVisits f bytes cs c) (copyIn f bytes cs c).2 ∧
      (writeVisits f bytes cs c).map (·.chunk) = cs := by
  induction cs generalizing c with
  | nil => exact ⟨.nil c, rfl⟩
  | cons chunk rest ih =>
      obtain ⟨how, i, c₁, haccess, hslot, hhow⟩ := slotToWrite_access hc (hc.capacity_pos hf) f
        chunk.block (chunk.length = blockSize)
      have hrun : (copyIn f bytes [chunk] c).2 = _ := copyIn_single hslot
      obtain ⟨htour, hchunks⟩ := ih (c := (copyIn f bytes [chunk] c).2)
        (by rw [hrun]; exact (haccess.housed hc hf howner).write _ _ _)
        (by rw [hrun]; exact (congrArg (·.get? h) haccess.table_eq).trans hf)
      have hturns : writeVisits f bytes (chunk :: rest) c =
          ⟨chunk, c, i, c₁, (copyIn f bytes [chunk] c).2⟩ ::
            writeVisits f bytes rest (copyIn f bytes [chunk] c).2 := by
        rw [writeVisits, hslot]
      rw [hturns, List.map_cons, hchunks]
      exact ⟨.cons rfl ⟨⟨how, hhow, haccess⟩, hrun⟩ htour, rfl⟩

/-- Every byte that is copied in is in the slot of its turn when the turn ends. -/
theorem IsTurn.byteAt_copied {bytes : ByteArray} {v : Visit σ φ} (hturn : IsTurn f (some bytes) v)
    (hstart : v.chunk.start + v.chunk.length ≤ blockSize)
    (hfits : v.chunk.position + v.chunk.length ≤ bytes.size) {i : Nat}
    (hcovers : v.chunk.covers i = true) :
    (v.after.pool.blockAt v.slot).byteAt (v.chunk.start + (i - v.chunk.position)) =
      Bytes.byteAt bytes i := by
  obtain ⟨s, hs, -⟩ := hturn.holds
  rw [Chunk.covers_iff] at hcovers
  have hslot : v.after.pool.slots[v.slot]? = some (s.write v.chunk.start
      (Bytes.slice bytes v.chunk.position v.chunk.length)) := by
    rw [hturn.after_eq]
    exact Pool.getElem?_modify_self hs
  rw [Pool.blockAt_of_getElem? _ hslot, Slot.byteAt_write _ _ _ (by omega), Bytes.size_slice,
    if_pos (by omega), Bytes.byteAt_slice, if_pos (by omega)]
  congr 1
  omega

end Cache

end BlockCache
