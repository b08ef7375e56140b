import BlockCache.Pool

/-!
Operations on a pool as data. An operation that has a block read or written comes with the function
of the caller that does it, on a state `β` of the caller's own; that function may fail as it likes.
A pool is observed operation by operation: what the operation answered, which blocks the caller's
functions were given meanwhile, and what the pool and the caller have afterwards.
-/

namespace BlockCache

namespace Pool

variable {ι β α : Type}

/-- An operation on a pool with its arguments. -/
inductive Operation (β : Type) where
  | lookup (key : BlockId)
  | victim
  | makeRoom (writeBack : BlockId → Block → StateM β (Except Error Unit))
  | fill (slot : Nat) (key : BlockId) (read : Block → StateM β (Except Error Nat × Block))
  | fillOrZero (slot : Nat) (key : BlockId) (read : Block → StateM β (Except Error Nat × Block))
  | assign (slot : Nat) (key : BlockId)
  /-- Replaces the bytes of a slot. -/
  | setBlock (slot : Nat) (block : Block)
  | setDirty (slot : Nat)
  /-- Replaces the bytes of a slot from `start` on and makes it dirty. -/
  | write (slot start : Nat) (bytes : ByteArray)
  | flush (owner : Descriptor) (writeBack : BlockId → Block → StateM β (Except Error Unit))
  | forget (owner : Descriptor)

/-- What an operation answers. -/
inductive Answer where
  | hit (hit : Option Hit)
  | slot (slot : Nat)
  | room (room : Room)
  | filled (outcome : Except Error Unit)
  | zeroed (failure : Option Error)
  | done
  /-- Whether there is such a slot, and what is written to it falls in its block. -/
  | inRange (fits : Bool)
  | flushed (flush : Flush)
  | forgotten (count : Nat)

/-- A use of a function of the caller, with what it was given. -/
inductive Consultation where
  | writeBack (key : BlockId) (block : Block)
  | read (block : Block)

/-- A function of the caller that also notes that it was used. -/
def noted (consultation : Consultation) (f : StateM β α) : StateM (β × List Consultation) α :=
  fun (b, log) =>
    match f b with
    | (a, b) => (a, (b, log ++ [consultation]))

/-- Writing a block back, noted with the block. -/
def notedWriteBack (writeBack : BlockId → Block → StateM β (Except Error Unit)) (key : BlockId)
    (block : Block) : StateM (β × List Consultation) (Except Error Unit) :=
  noted (.writeBack key block) (writeBack key block)

/-- Reading a block in, noted with the bytes that were there. -/
def notedRead (read : Block → StateM β (Except Error Nat × Block)) (block : Block) :
    StateM (β × List Consultation) (Except Error Nat × Block) :=
  noted (.read block) (read block)

/-- The pool after a change that may be out of range. -/
def changed? (pool : Pool ι) (result : Option (Pool ι)) : Answer × Pool ι :=
  (.inRange result.isSome, result.getD pool)

variable [Lookup ι]

namespace Operation

/-- Carries an operation out, noting how the functions of the caller are used. -/
def run (pool : Pool ι) : Operation β → StateM (β × List Consultation) (Answer × Pool ι)
  | lookup key => do
      let (hit, pool) := pool.lookup key
      pure (.hit hit, pool)
  | victim => pure (.slot pool.victim, pool)
  | makeRoom writeBack => do
      let (room, pool) ← pool.makeRoom (notedWriteBack writeBack)
      pure (.room room, pool)
  | fill slot key read => do
      let (outcome, pool) ← pool.fill slot key (notedRead read)
      pure (.filled outcome, pool)
  | fillOrZero slot key read => do
      let (failure, pool) ← pool.fillOrZero slot key (notedRead read)
      pure (.zeroed failure, pool)
  | assign slot key => pure (.done, pool.assign slot key)
  | setBlock slot block =>
      pure (pool.changed?
        (if slot < pool.capacity then some (pool.modifySlot slot (·.setBlock block)) else none))
  | setDirty slot => pure (pool.changed? (pool.setDirty? slot))
  | write slot start bytes => pure (pool.changed? (pool.write? slot start bytes))
  | flush owner writeBack => do
      let (outcome, pool) ← pool.flush owner (notedWriteBack writeBack)
      pure (.flushed outcome, pool)
  | forget owner => do
      let (count, pool) := pool.forget owner
      pure (.forgotten count, pool)

/-- Whether an operation that lets a block into a slot finds that slot free, and the block in none
of the slots. -/
def isAdmitted (pool : Pool ι) : Operation β → Bool
  | fill slot key _ | fillOrZero slot key _ | assign slot key =>
      pool.slots[slot]?.any Slot.isFree && !pool.holds key
  | _ => true

end Operation

/-- What is seen of an operation: its answer, the uses of the caller's functions, and what the pool
and the caller have afterwards. -/
structure Observation (β : Type) where
  answer : Answer
  consultations : List Consultation
  slots : Array Slot
  stats : Stats
  caller : β

/-- Carries operations out one after the other. -/
def observe : List (Operation β) → Pool ι → β → List (Observation β)
  | [], _, _ => []
  | operation :: rest, pool, b =>
      match operation.run pool (b, []) with
      | ((answer, pool), (b, log)) =>
          ⟨answer, log, pool.slots, pool.stats, b⟩ :: observe rest pool b

def allAdmitted : List (Operation β) → Pool ι → β → Bool
  | [], _, _ => true
  | operation :: rest, pool, b =>
      operation.isAdmitted pool &&
        match operation.run pool (b, []) with
        | ((_, pool), (b, _)) => allAdmitted rest pool b

end Pool

end BlockCache
