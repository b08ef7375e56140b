import BlockCache.Posix
import BlockCache.Cache.Session

/-!
Sessions of calls in the style of a system, one after the other. A call gives back its value and the
error number it set, and leaves the memory it was given with the bytes it read.
-/

namespace BlockCache

namespace Posix

inductive Request where
  /-- `none` is the null path. -/
  | openFile (path : Option String) (flags mode : Int)
  | close (fd : Int)
  | fsync (fd : Int)
  /-- `none` is the null pointer. -/
  | read (fd : Int) (memory : Option ByteArray) (count : Nat)
  | write (fd : Int) (memory : Option ByteArray) (count : Nat)
  | lseek (fd offset whence : Int)

namespace Request

def fd? : Request → Option Int
  | openFile .. => none
  | close fd | fsync fd | read fd .. | write fd .. | lseek fd .. => some fd

/-- The memory and the number of bytes of a transfer. -/
def transfer? : Request → Option (Option ByteArray × Nat)
  | read _ memory count | write _ memory count => some (memory, count)
  | openFile .. | close _ | fsync _ | lseek .. => none

def memory (request : Request) : Option ByteArray := request.transfer?.bind (·.1)

end Request

variable {σ φ : Type} [Storage σ φ]

/-- Serves a call, and gives its memory back. -/
def serve : Request → StateM (Cache σ φ) (Returned × Option ByteArray)
  | .openFile path flags mode => (·, none) <$> openFile path flags mode
  | .close fd => (·, none) <$> close fd
  | .fsync fd => (·, none) <$> fsync fd
  | .read fd memory count => read fd memory count
  | .write fd memory count => (·, memory) <$> write fd memory count
  | .lseek fd offset whence => (·, none) <$> lseek fd offset whence

def session : List Request → StateM (Cache σ φ) (List (Returned × Option ByteArray))
  | [] => pure []
  | request :: rest => do
      let answer ← serve request
      let answers ← session rest
      pure (answer :: answers)

end Posix

end BlockCache
