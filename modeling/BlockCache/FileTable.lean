import BlockCache.OpenFile

/-!
The table of open files. A new file is bound to the first free place, whose number is its handle.
-/

namespace BlockCache

structure FileTable (φ : Type) where
  entries : Array (Option (OpenFile φ))

namespace FileTable

variable {φ : Type}

def create (capacity : Nat) : FileTable φ := ⟨Array.replicate capacity none⟩

def capacity (t : FileTable φ) : Nat := t.entries.size

def openCount (t : FileTable φ) : Nat := t.entries.countP Option.isSome

def lowestFree (t : FileTable φ) : Option Nat := t.entries.findIdx? Option.isNone

def get? (t : FileTable φ) (h : Handle) : Option (OpenFile φ) := t.entries[h.index]?.join

/-- The open file of a handle, or the error that there is none. -/
def get (t : FileTable φ) (h : Handle) : Except Error (OpenFile φ) :=
  match t.get? h with
  | some file => .ok file
  | none => .error .notOpen

/-- The table with the open file of a handle changed. -/
def modify (t : FileTable φ) (h : Handle) (f : OpenFile φ → OpenFile φ) : FileTable φ :=
  match t with
  | ⟨entries⟩ => ⟨entries.modify h.index (·.map f)⟩

/-- Binds a file to the first free place. -/
def add (t : FileTable φ) (file : OpenFile φ) : Except Error (Handle × FileTable φ) :=
  match t.lowestFree with
  | some index => .ok (⟨index⟩, ⟨t.entries.modify index fun _ => some file⟩)
  | none => .error .tableFull

def remove (t : FileTable φ) (h : Handle) : FileTable φ :=
  match t with
  | ⟨entries⟩ => ⟨entries.modify h.index fun _ => none⟩

def seek (t : FileTable φ) (h : Handle) (target : SeekTarget) :
    Except Error (Nat × FileTable φ) := do
  let file ← t.get h
  let file ← file.seek target
  return (file.cursor, t.modify h fun _ => file)

/-- The first open file that a storage names by a descriptor. -/
def ownerOf (t : FileTable φ) (descriptor : Descriptor) : Option (OpenFile φ) :=
  t.entries.findSome? fun
    | some file => if file.descriptor = descriptor then some file else none
    | none => none

end FileTable

end BlockCache
