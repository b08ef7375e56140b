import BlockCache.Catalog
import BlockCache.Path
import BlockCache.Storage
import BlockCache.Storage.SparseBytes

/-!
A storage in a tree of directories, as a system's calls show it. A path is walked from the root of
the tree: every name but the last has to be that of a directory, and the last one is opened, or
created if that was asked for. Everything belongs to the caller, who is held to the permissions of
the owner. An open file has the lowest descriptor from 3 on that is not in use.
-/

namespace BlockCache

namespace FileTree

/-- A file or a directory, with its permissions. -/
inductive Node where
  | file (bytes : SparseBytes) (mode : Nat)
  | directory (mode : Nat)

/-- The place of a node: the names from the root of the tree on. -/
abbrev Location := List String

/-- An open file or directory. -/
structure File where
  location : Location
  descriptor : Nat
  readable : Bool
  writable : Bool
  deriving DecidableEq, Repr

def maxName : Nat := 255

def maxPath : Nat := 4095

/-- The size past which no file grows. -/
def sizeLimit : Nat := 16 * 1024 * 1024 * 1024 * 1024 - blockSize

/-- The size past which the bytes of a file do not fit in memory all at once. -/
def wholeLimit : Nat := 32 * 1024 * 1024 * 1024

def directorySize : Nat := 4096

/-! ### Permissions -/

def permissions (mode : Nat) : Nat := mode % 0o10000

def fileMode : Nat := 0o666

def directoryMode : Nat := 0o777

/-- Whether a mode has one of some bits. -/
def hasBit (mode bits : Nat) : Bool := mode &&& bits != 0

def ownerReads (mode : Nat) : Bool := hasBit mode 0o400

def ownerWrites (mode : Nat) : Bool := hasBit mode 0o200

/-- The mode of a file after its bytes have changed: it does not run as its owner any longer, nor as
its group if the group may run it. -/
def afterChange (mode : Nat) : Nat :=
  if hasBit mode 0o2000 && hasBit mode 0o10 then mode &&& 0o1777 else mode &&& 0o3777

/-- Whether a file with a mode may be opened; emptying it counts as writing. -/
def permits (mode : Nat) (flags : OpenFlags) : Bool :=
  (!flags.isReadable || ownerReads mode) &&
    (!(flags.isWritable || flags.contains OpenFlags.truncate) || ownerWrites mode)

end FileTree

/-- A tree of files and directories, the descriptors in use, and whether transfers pass by the
system's own cache. -/
structure FileTree where
  nodes : Catalog FileTree.Location FileTree.Node
  inUse : List Nat
  direct : Bool

namespace FileTree

def empty (direct : Bool) : FileTree := ⟨Catalog.empty, [], direct⟩

/-- The node at a location; the root is a directory. -/
def node? (t : FileTree) (location : Location) : Option Node :=
  if location = [] then some (.directory directoryMode) else t.nodes.get? location

/-! ### Walking a path -/

/-- Where a path leads: a location, at which there may be nothing, and whether the path goes on with
a slash after the name of it. -/
structure Target where
  location : Location
  slash : Bool
  deriving DecidableEq, Repr

/-- Whether the last name of a location is too long. -/
def isTooLong (location : Location) : Bool :=
  match location.getLast? with
  | some name => maxName < name.utf8ByteSize
  | none => false

/-- Goes from a directory to another one by a name. -/
def enter (t : FileTree) (place : Location) (name : String) : Except Fault Location :=
  if name = "." then .ok place
  else if name = ".." then .ok place.dropLast
  else if isTooLong (place ++ [name]) then .error (Fault.ofCode Errno.nameTooLong)
  else
    match t.node? (place ++ [name]) with
    | some (.directory _) => .ok (place ++ [name])
    | some (.file ..) => .error (Fault.ofCode Errno.notDirectory)
    | none => .error (Fault.ofCode Errno.noEntry)

/-- Goes from a directory to another one by names. -/
def walk (t : FileTree) (place : Location) : List String → Except Fault Location
  | [] => .ok place
  | name :: rest => do
      let place ← t.enter place name
      walk t place rest

/-- The target of a path. -/
def locate (t : FileTree) (path : String) : Except Fault Target :=
  if path.isEmpty then .error (Fault.ofCode Errno.noEntry)
  else if maxPath < path.utf8ByteSize then .error (Fault.ofCode Errno.nameTooLong)
  else
    match (Path.pieces path).getLast? with
    | none => .ok ⟨[], false⟩
    | some name => do
        let place ← t.walk [] (Path.pieces path).dropLast
        if name = "." then return ⟨place, false⟩
        else if name = ".." then return ⟨place.dropLast, false⟩
        else return ⟨place ++ [name], Path.endsInSlash path⟩

/-- What opening a target comes to: the node to be put there, if there is to be another one. The
checks are made in the order of the system, which decides which of several failures is reported. -/
def grant (t : FileTree) (target : Target) (flags : OpenFlags) (mode : Nat) :
    Except Fault (Option Node) :=
  let create := flags.contains OpenFlags.create
  let truncate := flags.contains OpenFlags.truncate
  if create && target.slash then .error (Fault.ofCode Errno.isDirectory)
  else if isTooLong target.location then .error (Fault.ofCode Errno.nameTooLong)
  else
    match t.node? target.location with
    | none =>
        if create then .ok (some (.file SparseBytes.empty (permissions mode)))
        else .error (Fault.ofCode Errno.noEntry)
    | some node =>
        if create && flags.contains OpenFlags.exclusive then
          .error (Fault.ofCode Errno.alreadyExists)
        else
          match node with
          | .directory _ =>
              if create || truncate || flags.isWritable then
                .error (Fault.ofCode Errno.isDirectory)
              else if flags.contains OpenFlags.direct then .error (Fault.ofCode Errno.invalid)
              else .ok none
          | .file _ mode =>
              if target.slash || flags.contains OpenFlags.directory then
                .error (Fault.ofCode Errno.notDirectory)
              else if !permits mode flags then .error (Fault.ofCode Errno.accessDenied)
              else if truncate then .ok (some (.file SparseBytes.empty (afterChange mode)))
              else .ok none

/-- Opens a path: its location, and the tree with what opening it changes. A path with a zero byte
never reaches the system, and no directory can be created by opening it. -/
def reach (t : FileTree) (path : String) (flags : OpenFlags) (mode : Nat) :
    Except Fault (Location × FileTree) := do
  if path.toList.contains '\x00' then throw (Fault.uncoded .invalidInput)
  if flags.contains (OpenFlags.create.union OpenFlags.directory) then
    throw (Fault.ofCode Errno.invalid)
  let target ← t.locate path
  match ← t.grant target flags mode with
  | some node => return (target.location, { t with nodes := t.nodes.insert target.location node })
  | none => return (target.location, t)

/-! ### Calls -/

/-- The lowest descriptor from 3 on that is not in use. -/
def lowestUnused (inUse : List Nat) : Nat :=
  ((List.range (inUse.length + 1)).find? fun i => !inUse.contains (i + 3)).getD inUse.length + 3

/-- The tree with the bytes of a file changed. -/
def changeFile (t : FileTree) (location : Location) (f : SparseBytes → SparseBytes) : FileTree :=
  match t with
  | ⟨nodes, inUse, direct⟩ =>
      let change : Option Node → Node
        | some (.file bytes mode) => .file (f bytes) (afterChange mode)
        | some (.directory mode) => .directory mode
        | none => .file (f SparseBytes.empty) fileMode
      ⟨nodes.update location change, inUse, direct⟩

instance : Storage FileTree File where
  descriptor file := file.descriptor
  openFile path flags mode := fun t =>
    let asked := if t.direct then flags.union OpenFlags.direct else flags
    match t.reach path asked mode with
    | .error fault => (.error fault, t)
    | .ok (location, t) =>
        let descriptor := lowestUnused t.inUse
        (.ok ⟨location, descriptor, flags.isReadable, flags.isWritable⟩,
          { t with inUse := descriptor :: t.inUse })
  size file := fun t =>
    match t.node? file.location with
    | some (.file bytes _) => (.ok bytes.size, t)
    | _ => (.ok directorySize, t)
  readAt {n} file buffer offset := fun t =>
    if !file.readable then ((.error (Fault.ofCode Errno.badDescriptor), buffer), t)
    else if maxOffset < offset + n then ((.error (Fault.ofCode Errno.invalid), buffer), t)
    else
      match t.node? file.location with
      | some (.file bytes _) =>
          let bytes := bytes.slice offset n
          ((.ok bytes.size, buffer.blit 0 bytes), t)
      | _ => ((.error (Fault.ofCode Errno.isDirectory), buffer), t)
  writeAt {n} file buffer offset := fun t =>
    if !file.writable then (.error (Fault.ofCode Errno.badDescriptor), t)
    else if maxOffset < offset + n then (.error (Fault.ofCode Errno.invalid), t)
    else if sizeLimit < offset + n then (.error (Fault.ofCode Errno.tooLarge), t)
    else (.ok n, t.changeFile file.location (·.overlay offset buffer.bytes))
  sync _ := pure (.ok ())
  setLen file size := fun t =>
    if !file.writable then (.error (Fault.ofCode Errno.invalid), t)
    else if sizeLimit < size then (.error (Fault.ofCode Errno.tooLarge), t)
    else (.ok (), t.changeFile file.location (·.resize size))
  close file := fun t => ((), { t with inUse := t.inUse.erase file.descriptor })

/-! ### The tree from outside -/

/-- The tree with a directory at a path, and directories on the way to it. -/
def makeDirectory (t : FileTree) (path : String) : FileTree :=
  let names := Path.pieces path
  let make (t : FileTree) (location : Location) : FileTree :=
    match t.node? location with
    | some _ => t
    | none => { t with nodes := t.nodes.insert location (.directory directoryMode) }
  ((List.range names.length).map fun i => names.take (i + 1)).foldl make t

/-- The tree with the bytes of the file at a path replaced, or with a new file there. There is none
if the file may not be written. -/
def put? (t : FileTree) (path : String) (bytes : ByteArray) : Option FileTree :=
  let flags := (OpenFlags.writeOnly.union OpenFlags.create).union OpenFlags.truncate
  match t.reach path flags fileMode with
  | .ok (location, t) => some (t.changeFile location fun _ => SparseBytes.ofBytes bytes)
  | .error _ => none

/-- All the bytes of a file, if they fit in memory. -/
def whole? (bytes : SparseBytes) : Option ByteArray :=
  if wholeLimit < bytes.size then none else some bytes.toBytes

/-- The bytes of the file at a path, if it can be read. -/
def contents? (t : FileTree) (path : String) : Option ByteArray :=
  match t.reach path OpenFlags.readOnly fileMode with
  | .ok (location, t) =>
      match t.node? location with
      | some (.file bytes _) => whole? bytes
      | _ => none
  | .error _ => none

/-- The size and the permissions of the node at a path. -/
def stat? (t : FileTree) (path : String) : Option (Nat × Nat) :=
  match t.locate path with
  | .error _ => none
  | .ok target =>
      match t.node? target.location with
      | some (.file bytes mode) => if target.slash then none else some (bytes.size, mode)
      | some (.directory mode) => some (directorySize, mode)
      | none => none

/-- What is seen at a name: the bytes of a file, or a directory. -/
inductive Entry where
  | file (bytes : ByteArray)
  | directory

/-- What a node shows, if it can be read. -/
def Node.entry? : Node → Option Entry
  | .file bytes mode => if ownerReads mode then .file <$> whole? bytes else none
  | .directory _ => some .directory

/-- The entries in the root of the tree by their names, if all of them can be read. -/
def listing? (t : FileTree) : Option (List (String × Entry)) :=
  t.nodes.entries.foldr
    (fun
      | ([name], node), listed => do
          let entry ← node.entry?
          let rest ← listed
          return (name, entry) :: rest
      | _, listed => listed)
    (some [])

end FileTree

end BlockCache
