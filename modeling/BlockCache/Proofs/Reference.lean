import BlockCache.Cache.Session
import BlockCache.Path
import Mathlib.Logic.Function.Basic

/-!
Files without a cache, as a reference for what a cache answers. Each path has its bytes and each
handle a cursor; a call reads or changes these at once, and nothing is kept anywhere else.
-/

namespace BlockCache

/-- An open file of the reference. -/
structure Cursor where
  path : Path
  offset : Nat
  flags : OpenFlags

namespace Cursor

/-- Where a write starts in a file of some size. -/
def start (f : Cursor) (size : Nat) : Nat :=
  if f.flags.contains OpenFlags.append then size else f.offset

/-- The offset a seek is to in a file of some size. -/
def target (f : Cursor) (size : Nat) : SeekTarget → Int
  | .start offset => offset
  | .current delta => f.offset + delta
  | .fromEnd delta => size + delta

end Cursor

/-- The bytes of the files that exist, and the cursors of the handles that are open. -/
structure Reference where
  files : Path → Option ByteArray
  cursors : Handle → Option Cursor

namespace Reference

/-- The files as they are stored, with none of them open. -/
def ofFiles (files : Path → Option ByteArray) : Reference := ⟨files, fun _ => none⟩

def bytes (r : Reference) (path : Path) : ByteArray := (r.files path).getD ByteArray.empty

def cursor (r : Reference) (h : Handle) : Except Error Cursor :=
  match r.cursors h with
  | some f => .ok f
  | none => .error .notOpen

/-- The reference with the cursor of a handle at an offset. -/
def moveTo (r : Reference) (h : Handle) (f : Cursor) (offset : Nat) : Reference :=
  { r with cursors := Function.update r.cursors h (some { f with offset }) }

def lowestFree (r : Reference) : Option Nat :=
  (List.range maxHandles).find? fun i => (r.cursors ⟨i⟩).isNone

/-- What a file holds once it is open, or why it cannot be opened. -/
def opening (found : Option ByteArray) (flags : OpenFlags) : Except Fault ByteArray :=
  match found with
  | some bytes =>
      if flags.contains (OpenFlags.create.union OpenFlags.exclusive) then
        .error (Fault.ofCode Errno.alreadyExists)
      else .ok (if flags.contains OpenFlags.truncate then ByteArray.empty else bytes)
  | none =>
      if flags.contains OpenFlags.create then .ok ByteArray.empty
      else .error (Fault.ofCode Errno.noEntry)

def openFile (path : String) (flags : OpenFlags) (r : Reference) :
    Except Error Handle × Reference :=
  match r.lowestFree with
  | none => (.error .tableFull, r)
  | some i =>
      match opening (r.files (Path.ofString path)) flags with
      | .error fault => (.error (.storage fault), r)
      | .ok bytes =>
          (.ok ⟨i⟩,
            { files := Function.update r.files (Path.ofString path) (some bytes)
              cursors := Function.update r.cursors ⟨i⟩ (some ⟨Path.ofString path, 0, flags⟩) })

/-- Reads into a buffer that has some bytes already. -/
def read (h : Handle) (buffer : ByteArray) (r : Reference) :
    (Except Error Nat × ByteArray) × Reference :=
  match r.cursors h with
  | none => ((.error .notOpen, buffer), r)
  | some f =>
      let data := Bytes.slice (r.bytes f.path) f.offset buffer.size
      ((.ok data.size, Bytes.overlay buffer 0 data), r.moveTo h f (f.offset + data.size))

/-- Writes at the cursor or the end; a gap that a seek has left before it is zero. -/
def write (h : Handle) (data : ByteArray) (r : Reference) : Except Error Nat × Reference :=
  match r.cursors h with
  | none => (.error .notOpen, r)
  | some f =>
      let start := f.start (r.bytes f.path).size
      let bytes := Bytes.overlay (r.bytes f.path) start data
      (.ok data.size,
        { r with files := Function.update r.files f.path (some bytes) }.moveTo h f
          (start + data.size))

def seek (h : Handle) (target : SeekTarget) (r : Reference) : Except Error Nat × Reference :=
  match r.cursors h with
  | none => (.error .notOpen, r)
  | some f =>
      let offset := f.target (r.bytes f.path).size target
      if offset < 0 then (.error .negativeSeek, r)
      else if (maxOffset : Int) < offset then (.error .seekTooFar, r)
      else (.ok offset.toNat, r.moveTo h f offset.toNat)

def serve : Request → Reference → Reply × Reference
  | .openFile path flags _, r => ((.opened (r.openFile path flags).1), (r.openFile path flags).2)
  | .close h, r =>
      (.done ((fun _ => ()) <$> r.cursor h), { r with cursors := Function.update r.cursors h none })
  | .sync h, r => (.done ((fun _ => ()) <$> r.cursor h), r)
  | .read h buffer, r => (.bytes (r.read h buffer).1.1 (r.read h buffer).1.2, (r.read h buffer).2)
  | .write h data, r => (.number (r.write h data).1, (r.write h data).2)
  | .seek h target, r => (.number (r.seek h target).1, (r.seek h target).2)
  | .position h, r => (.number ((·.offset) <$> r.cursor h), r)
  | .length h, r => (.number ((fun f => (r.bytes f.path).size) <$> r.cursor h), r)
  | .flags h, r => (.flags ((·.flags) <$> r.cursor h), r)
  | .isResident h _, r => (.truth ((fun _ => false) <$> r.cursor h), r)

def session : List Request → Reference → List Reply × Reference
  | [], r => ([], r)
  | request :: rest, r =>
      ((r.serve request).1 :: (session rest (r.serve request).2).1,
        (session rest (r.serve request).2).2)

/-- The requests that a cache is to answer like the reference: no file is opened that is open, no
write reaches too far, and the cache is not asked for its blocks. -/
def Admits (r : Reference) : Request → Prop
  | .openFile path _ _ => ∀ h f, r.cursors h = some f → f.path ≠ Path.ofString path
  | .write h data => ∀ f, r.cursors h = some f →
      f.start (r.bytes f.path).size + data.size ≤ maxOffset
  | .isResident .. => False
  | _ => True

def AdmitsAll : List Request → Reference → Prop
  | [], _ => True
  | request :: rest, r => r.Admits request ∧ AdmitsAll rest (r.serve request).2

end Reference

end BlockCache
