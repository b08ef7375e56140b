import BlockCache.Cache.Transfer

/-!
The cache behind calls in the style of a system: a handle is a signed number, a failure is the value
-1 with an error number beside it, and arguments that no call could take are refused before the
cache is asked. The order in which arguments are judged decides which error a call with several bad
ones reports.
-/

namespace BlockCache

namespace Posix

/-- What a call gives back: its value, and the error number if it set one. -/
structure Returned where
  value : Int
  errno : Option Int
  deriving DecidableEq, Repr

def intBits : Nat := 32

/-- The number of bits in an offset or a size with a sign. -/
def offsetBits : Nat := 64

def failed (errno : Int) : Returned := ⟨-1, some errno⟩

/-- An outcome as the value of a call, a signed word of `bits` bits. -/
def returned (bits : Nat) : Except Error Nat → Returned
  | .ok n => ⟨Int.bmod n (Nat.pow 2 bits), none⟩
  | .error e => failed e.errno

/-- The outcome of a call that has no value of its own. -/
def returnedUnit (outcome : Except Error Unit) : Returned :=
  returned intBits (outcome.map fun _ => 0)

def handleOf (fd : Int) : Except Error Handle :=
  match Handle.ofInt? fd with
  | some h => .ok h
  | none => .error .negativeHandle

/-- The length of a transfer, which has to fit the value of its call. -/
def transferLength (count : Nat) : Except Error Nat :=
  if maxOffset < count then .error .countTooLarge else .ok count

/-- Where a seek by an offset goes: from the start, from the cursor or from the end. -/
def seekTarget (offset whence : Int) : Except Error SeekTarget :=
  if whence = 0 then
    if offset < 0 then .error .negativeSeek else .ok (.start offset.toNat)
  else if whence = 1 then .ok (.current offset)
  else if whence = 2 then .ok (.fromEnd offset)
  else .error .unknownWhence

variable {σ φ : Type} [Storage σ φ]

/-- Opens a file; `none` is the null path. -/
def openFile (path : Option String) (flags mode : Int) : StateM (Cache σ φ) Returned := do
  match path with
  | none => pure (failed Errno.badAddress)
  | some path =>
      let outcome ← Cache.openFile path (OpenFlags.ofInt flags) (mode % Nat.pow 2 intBits).toNat
      pure <|
        match outcome with
        | .ok h => ⟨h.toInt, none⟩
        | .error e => failed e.errno

def close (fd : Int) : StateM (Cache σ φ) Returned := do
  match handleOf fd with
  | .error e => pure (failed e.errno)
  | .ok h => returnedUnit <$> Cache.close h

def fsync (fd : Int) : StateM (Cache σ φ) Returned := do
  match handleOf fd with
  | .error e => pure (failed e.errno)
  | .ok h => returnedUnit <$> Cache.sync h

/-- The arguments of a transfer: a handle, a number of bytes, and memory unless that number is zero.
-/
def transfer (fd : Int) (memory : Option ByteArray) (count : Nat) :
    Except Error (Handle × ByteArray) := do
  let h ← handleOf fd
  let count ← transferLength count
  if count = 0 then return (h, ByteArray.empty)
  match memory with
  | none => throw .nullBuffer
  | some bytes => return (h, Bytes.slice bytes 0 count)

/-- Reads `count` bytes into memory, and gives the memory back; `none` is the null pointer. -/
def read (fd : Int) (memory : Option ByteArray) (count : Nat) :
    StateM (Cache σ φ) (Returned × Option ByteArray) := do
  match transfer fd memory count with
  | .error e => pure (failed e.errno, memory)
  | .ok (h, bytes) =>
      let (outcome, buffer) ← Cache.read h (Buffer.ofBytes bytes)
      pure (returned offsetBits outcome, memory.map fun old => Bytes.overlay old 0 buffer.bytes)

/-- Writes `count` bytes from memory; `none` is the null pointer. -/
def write (fd : Int) (memory : Option ByteArray) (count : Nat) : StateM (Cache σ φ) Returned := do
  match transfer fd memory count with
  | .error e => pure (failed e.errno)
  | .ok (h, bytes) => returned offsetBits <$> Cache.write h bytes

/-- The arguments of a seek. The handle is judged before the origin of the offset. -/
def seekArguments (table : FileTable φ) (fd offset whence : Int) :
    Except Error (Handle × SeekTarget) := do
  let h ← handleOf fd
  let _ ← table.get h
  let target ← seekTarget offset whence
  return (h, target)

def lseek (fd offset whence : Int) : StateM (Cache σ φ) Returned := do
  match seekArguments (← get).table fd offset whence with
  | .error e => pure (failed e.errno)
  | .ok (h, target) => returned offsetBits <$> Cache.seek h target

end Posix

end BlockCache
