/-!
The flags a file is opened with, a word of 32 bits. The two lowest bits are the access mode; bits
without a name are kept as they are.
-/

namespace BlockCache

structure OpenFlags where
  bits : BitVec 32
  deriving DecidableEq, Repr

namespace OpenFlags

def readOnly : OpenFlags := ⟨0#32⟩

def writeOnly : OpenFlags := ⟨0o1#32⟩

def readWrite : OpenFlags := ⟨0o2#32⟩

def create : OpenFlags := ⟨0o100#32⟩

/-- Together with `create`: fail if the file exists. -/
def exclusive : OpenFlags := ⟨0o200#32⟩

def truncate : OpenFlags := ⟨0o1000#32⟩

/-- Every write starts at the end of the file. -/
def append : OpenFlags := ⟨0o2000#32⟩

/-- Writes are durable when they return. -/
def synchronous : OpenFlags := ⟨0o4010000#32⟩

/-- Transfers pass by the system's own cache. -/
def direct : OpenFlags := ⟨0o40000#32⟩

/-- The path has to name a directory. -/
def directory : OpenFlags := ⟨0o200000#32⟩

/-- The flags that have a name of their own, in the order in which they are listed. -/
def named : List (String × OpenFlags) :=
  [("WRONLY", writeOnly), ("RDWR", readWrite), ("CREAT", create), ("EXCL", exclusive),
    ("TRUNC", truncate), ("APPEND", append), ("SYNC", synchronous), ("DIRECT", direct)]

/-- The flags of a signed number. -/
def ofInt (n : Int) : OpenFlags := ⟨BitVec.ofInt 32 n⟩

def toInt (flags : OpenFlags) : Int := flags.bits.toInt

def union (a b : OpenFlags) : OpenFlags := ⟨a.bits ||| b.bits⟩

/-- The union of the named flags in a list; other names add nothing. -/
def ofNames (names : List String) : OpenFlags :=
  names.foldl (fun flags name => flags.union ((named.lookup name).getD ⟨0#32⟩)) ⟨0#32⟩

/-- Whether every bit of `b` is set in `a`. -/
def contains (a b : OpenFlags) : Bool := a.bits &&& b.bits == b.bits

/-- Whether a bit of `b` is set in `a`. -/
def intersects (a b : OpenFlags) : Bool := a.bits &&& b.bits != 0#32

def names (flags : OpenFlags) : List String :=
  (named.filter fun entry => flags.contains entry.2).map (·.1)

def isReadable (flags : OpenFlags) : Bool := !flags.contains writeOnly || flags.contains readWrite

def isWritable (flags : OpenFlags) : Bool := flags.intersects (writeOnly.union readWrite)

end OpenFlags

end BlockCache
