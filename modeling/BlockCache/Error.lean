import BlockCache.Errno

/-!
Why a call fails. A storage reports a `Fault` in words of its own; an `Error` is either such a
fault, passed on unchanged, or one of the causes the cache itself finds. Every error has a kind, a
message and, if the system named one, a code; `Error.errno` is the number a caller in the style of
system calls is given.
-/

namespace BlockCache

/-- The kinds of errors a caller can tell apart. -/
inductive ErrorKind where
  | io
  | invalidInput
  | badHandle
  | tooManyOpenFiles
  | outOfMemory
  deriving DecidableEq, Repr

namespace ErrorKind

/-- The name of a kind, as it stands before a message. -/
def name : ErrorKind → String
  | io => "Io"
  | invalidInput => "InvalidInput"
  | badHandle => "BadHandle"
  | tooManyOpenFiles => "TooManyOpenFiles"
  | outOfMemory => "OutOfMemory"

def all : List ErrorKind := [io, invalidInput, badHandle, tooManyOpenFiles, outOfMemory]

/-- The kind of a given name. -/
def ofName? (name : String) : Option ErrorKind := all.find? (·.name == name)

end ErrorKind

/-- A failure that a storage reports. -/
structure Fault where
  kind : ErrorKind
  message : String
  code : Option Int
  deriving DecidableEq, Repr

namespace Fault

/-- The message of every failure that the system reports. -/
def systemMessage : String := "underlying storage operation failed"

/-- The kind of a failure with a system code: a bad argument and a lack of memory are kinds of their
own, everything else is an input or output error. -/
def kindOfCode (code : Int) : ErrorKind :=
  if code = Errno.invalid then .invalidInput
  else if code = Errno.noMemory then .outOfMemory
  else .io

/-- The failure the system reports by a code. -/
def ofCode (code : Int) : Fault := ⟨kindOfCode code, systemMessage, some code⟩

/-- A failure of the system that comes without a code. -/
def uncoded (kind : ErrorKind) : Fault := ⟨kind, systemMessage, none⟩

/-- The failure without a code whose kind the system names: a bad argument and a lack of memory keep
their kind, everything else is an input or output error. -/
def ofKindName (name : String) : Fault :=
  if name = ErrorKind.invalidInput.name then uncoded .invalidInput
  else if name = ErrorKind.outOfMemory.name then uncoded .outOfMemory
  else uncoded .io

end Fault

/-- Why a call fails. -/
inductive Error where
  /-- The storage failed. -/
  | storage (fault : Fault)
  /-- A pool was asked for without slots. -/
  | emptyPool
  /-- There is no memory for the table of the slots of a pool. -/
  | poolTooLarge
  /-- There is no memory for the block of a slot. -/
  | noBlock
  /-- The pool of a cache could not be created. -/
  | poolUnavailable
  /-- Every handle is in use. -/
  | tableFull
  /-- The handle is not open. -/
  | notOpen
  /-- The handle is a negative number. -/
  | negativeHandle
  /-- A cursor would be moved before the start of the file. -/
  | negativeSeek
  /-- A cursor would be moved past the largest offset. -/
  | seekTooFar
  /-- A write would end past the largest offset. -/
  | writeTooFar
  /-- The storage took only a part of a block. -/
  | shortWrite
  /-- A block to be written back belongs to no open file. -/
  | noOwner
  /-- Blocks could not be written back. -/
  | blocksNotWritten
  /-- A transfer was asked for that is longer than any result. -/
  | countTooLarge
  /-- A transfer was asked for without a buffer. -/
  | nullBuffer
  /-- A seek was asked for from an unknown origin. -/
  | unknownWhence
  deriving DecidableEq, Repr

namespace Error

def kind : Error → ErrorKind
  | storage fault => fault.kind
  | emptyPool | negativeSeek | seekTooFar | writeTooFar | countTooLarge | nullBuffer
  | unknownWhence => .invalidInput
  | poolTooLarge | noBlock | poolUnavailable => .outOfMemory
  | tableFull => .tooManyOpenFiles
  | notOpen | negativeHandle | noOwner => .badHandle
  | shortWrite | blocksNotWritten => .io

def message : Error → String
  | storage fault => fault.message
  | emptyPool => "slot pool capacity must be non-zero"
  | poolTooLarge => "failed to allocate slot table"
  | noBlock => "failed to allocate aligned block"
  | poolUnavailable => "failed to allocate slot pool"
  | tableFull => "handle table is full"
  | notOpen => "handle is not open"
  | negativeHandle => "negative handle"
  | negativeSeek => "seek to a negative offset"
  | seekTooFar => "seek offset overflows off_t"
  | writeTooFar => "write would overflow off_t"
  | shortWrite => "short block write"
  | noOwner => "evicted block has no open owner"
  | blocksNotWritten => "failed to write back dirty blocks"
  | countTooLarge => "count exceeds ssize_t"
  | nullBuffer => "null buffer"
  | unknownWhence => "unknown whence"

/-- The system's code of an error, if it came with one. -/
def code : Error → Option Int
  | storage fault => fault.code
  | _ => none

/-- The number a caller is given for an error: the system's own code for an input or output error
that has one, and otherwise the number of the error's kind. -/
def errno (e : Error) : Int :=
  match e.kind with
  | .io => e.code.getD Errno.io
  | .invalidInput => Errno.invalid
  | .badHandle => Errno.badDescriptor
  | .tooManyOpenFiles => Errno.tooManyOpen
  | .outOfMemory => Errno.noMemory

def text (e : Error) : String :=
  e.kind.name ++ ": " ++ e.message ++
    match e.code with
    | some code => " (os error " ++ toString code ++ ")"
    | none => ""

end Error

end BlockCache
