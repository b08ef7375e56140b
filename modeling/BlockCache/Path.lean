/-!
Paths. A path is read as its pieces, the names between its slashes. Spellings that differ only in
doubled slashes, in slashes at the end and in dots that stay in place stand for the same path; a dot
at the very start counts.
-/

namespace BlockCache

/-- A path: whether it starts at a root, and its names. -/
structure Path where
  rooted : Bool
  names : List String
  deriving DecidableEq, Repr

namespace Path

/-- Cuts characters at the slashes, into a first part and the parts after it. -/
def cut : List Char → List Char × List (List Char)
  | [] => ([], [])
  | c :: rest =>
      match cut rest with
      | (part, parts) => if c = '/' then ([], part :: parts) else (c :: part, parts)

/-- The names between the slashes of a path; between two slashes in a row there is none. -/
def pieces (path : String) : List String :=
  match cut path.toList with
  | (part, parts) => ((part :: parts).filter (!·.isEmpty)).map String.ofList

def startsAtRoot (path : String) : Bool := path.toList.head? == some '/'

def endsInSlash (path : String) : Bool := path.toList.getLast? == some '/'

def ofString (path : String) : Path :=
  let names := (pieces path).filter fun name => name ≠ "."
  if startsAtRoot path then ⟨true, names⟩
  else if (pieces path).head? = some "." then ⟨false, "." :: names⟩
  else ⟨false, names⟩

end Path

end BlockCache
