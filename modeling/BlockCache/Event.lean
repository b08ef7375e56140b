import BlockCache.Error
import BlockCache.Slot

/-!
What a cache reports while it works. An event is kept as data; its level says how grave it is, and
its message is the text of its line in a log.
-/

namespace BlockCache

/-- How grave an event is. -/
inductive Level where
  | error
  | warn
  | debug
  | trace
  deriving DecidableEq, Repr

namespace Level

def name : Level → String
  | error => "ERROR"
  | warn => "WARN"
  | debug => "DEBUG"
  | trace => "TRACE"

/-- The place of a level among the levels, the gravest first. -/
def rank : Level → Nat
  | error => 0
  | warn => 1
  | debug => 2
  | trace => 3

/-- The level of a given name, in small letters. -/
def ofName? : String → Option Level
  | "error" => some error
  | "warn" => some warn
  | "debug" => some debug
  | "trace" => some trace
  | _ => none

/-- Whether a log kept at this level has the events of another one. -/
def admits (kept level : Level) : Bool := level.rank ≤ kept.rank

end Level

/-- What a cache reports. -/
inductive Event where
  | poolReady (capacity : Nat)
  | hit (key : BlockId) (slot frequency : Nat)
  | evictionFailed (key : BlockId) (error : Error)
  | evicted (slot : Nat) (key : BlockId) (frequency : Nat) (dirty : Bool)
  | preReadFailed (key : BlockId) (error : Error)
  | writeBackFailed (key : BlockId) (error : Error)
  | flushed (owner : Descriptor) (written failed : Nat)
  | poolFailed (error : Error)
  | tableFull (path : String)
  | opened (path : String) (handle : Nat) (descriptor : Descriptor) (size : Nat)
  | closeSyncFailed (handle : Nat) (error : Error)
  | closed (handle : Nat) (descriptor : Descriptor) (forgotten : Nat)
  | resizeFailed (descriptor : Descriptor) (size : Nat) (error : Error)
  | readFailed (key : BlockId) (error : Error)
  | hasRead (descriptor : Descriptor) (offset length : Nat)
  | hasWritten (descriptor : Descriptor) (offset length : Nat)
  deriving DecidableEq, Repr

namespace Event

def level : Event → Level
  | evictionFailed .. | writeBackFailed .. | poolFailed .. | resizeFailed ..
  | readFailed .. => .error
  | tableFull .. | closeSyncFailed .. => .warn
  | poolReady .. | evicted .. | preReadFailed .. | flushed .. | opened .. | closed .. => .debug
  | hit .. | hasRead .. | hasWritten .. => .trace

def message : Event → String
  | poolReady capacity => s!"[CACHE] slot pool ready: {capacity} slots x {blockSize} bytes"
  | hit key slot frequency =>
      s!"[CACHE] hit fd={key.owner} block={key.index} slot={slot} freq={frequency}"
  | evictionFailed key error =>
      s!"[CACHE] eviction write-back failed fd={key.owner} block={key.index}: {error.text}"
  | evicted slot key frequency dirty =>
      s!"[CACHE] evict slot={slot} fd={key.owner} block={key.index} freq={frequency} dirty=" ++
        boolText dirty
  | preReadFailed key error =>
      s!"[CACHE] pre-read failed fd={key.owner} block={key.index}, zero-filling: {error.text}"
  | writeBackFailed key error =>
      s!"[CACHE] write-back failed fd={key.owner} block={key.index}: {error.text}"
  | flushed owner written failed =>
      s!"[CACHE] flushed fd={owner}: {written} written, {failed} failed"
  | poolFailed error => s!"[VTPC] slot pool allocation failed: {error.text}"
  | tableFull path => s!"[VTPC] open {path}: handle table is full"
  | opened path handle descriptor size =>
      s!"[VTPC] open {path} -> handle={handle} fd={descriptor} size={size}"
  | closeSyncFailed handle error => s!"[VTPC] close handle={handle}: sync failed: {error.text}"
  | closed handle descriptor forgotten =>
      s!"[VTPC] close handle={handle} fd={descriptor}, {forgotten} slots invalidated"
  | resizeFailed descriptor size error =>
      s!"[VTPC] resize fd={descriptor} to {size} failed: {error.text}"
  | readFailed key error => s!"[VTPC] read fd={key.owner} block={key.index} failed: {error.text}"
  | hasRead descriptor offset length => s!"[VTPC] read fd={descriptor} offset={offset} len={length}"
  | hasWritten descriptor offset length =>
      s!"[VTPC] write fd={descriptor} offset={offset} len={length}"

def line (e : Event) : String := e.level.name ++ " " ++ e.message

def log (kept : Level) (events : List Event) : List String :=
  (events.filter fun e => kept.admits e.level).map line

end Event

end BlockCache
