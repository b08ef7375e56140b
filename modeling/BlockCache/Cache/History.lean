import BlockCache.Cache.Session

/-!
What happens in a session, in its order: the calls of the storage, every change of a block in the
pool by a write, and when a handle gets a file and is given up. The calls are those that a traced
storage has written down. A write changes one block after the other, and each of them after the
calls that were needed to have it in a slot.
-/

namespace BlockCache

/-- What can happen in a session. -/
inductive Moment (φ : Type) where
  | call (call : Call φ)
  /-- Bytes of a block were replaced in the pool by a write. -/
  | changed (h : Handle) (block : Nat)
  | opened (h : Handle) (file : φ)
  | closed (h : Handle)

namespace Moment

variable {φ : Type}

def call? : Moment φ → Option (Call φ)
  | call made => some made
  | _ => none

/-- The file of a handle, given what it was before. -/
def fileOfNext (files : Handle → Option φ) : Moment φ → Handle → Option φ
  | opened h file, h' => if h' = h then some file else files h'
  | closed h, h' => if h' = h then none else files h'
  | _, h' => files h'

/-- The files that the handles have after what happened. -/
def fileOf (past : List (Moment φ)) : Handle → Option φ := past.foldl fileOfNext fun _ => none

/-- Whether a block was changed through a handle that has a file, and since then the block was not
written to the file as a whole, nor the handle opened. -/
def ChangedSince (past : List (Moment φ)) (h : Handle) (file : φ) (block : Nat) : Prop :=
  ∃ earlier later, past = earlier ++ changed h block :: later ∧
    (∀ file', opened h file' ∉ later) ∧
    ∀ bytes, call (.writeAt file (block * blockSize) bytes (.ok blockSize)) ∉ later

end Moment

namespace Cache

variable {σ φ : Type}

/-- The calls of the storage since another state. -/
def callsSince (c' c : Cache (Traced σ φ) φ) : List (Call φ) :=
  c'.storage.calls.toList.drop c.storage.calls.size

theorem callsSince_of_append {c c' : Cache (Traced σ φ) φ} {calls : List (Call φ)}
    (h : c'.storage.calls.toList = c.storage.calls.toList ++ calls) : c'.callsSince c = calls := by
  rw [callsSince, h, ← Array.length_toList, List.drop_left]

theorem callsSince_of_storage_eq {c c' : Cache (Traced σ φ) φ} (h : c'.storage = c.storage) :
    c'.callsSince c = [] :=
  callsSince_of_append (by rw [h, List.append_nil])

variable [Storage σ φ]

/-- What happens while chunks of a byte string are copied into the pool: for each of them the calls
of the storage, and then the change of its block. -/
def chunkMoments (h : Handle) (f : OpenFile φ) (data : ByteArray) :
    List Chunk → Cache (Traced σ φ) φ → List (Moment φ)
  | [], _ => []
  | chunk :: rest, c =>
      let c' := (copyIn f data [chunk] c).2
      (c'.callsSince c).map .call ++ .changed h chunk.block :: chunkMoments h f data rest c'

/-- What happens while a request is served. -/
def moments (c : Cache (Traced σ φ) φ) (request : Request) : List (Moment φ) :=
  let c' := (serve request c).2
  match request with
  | .write h data =>
      match c.table.get? h with
      | none => []
      | some f =>
          let offset := if f.flags.contains OpenFlags.append then f.size else f.cursor
          if maxOffset < offset + data.size then []
          else
            chunkMoments h f data (chunks offset data.size)
              { c with table := c.table.modify h (·.moveTo offset) }
  | .openFile path flags mode =>
      (c'.callsSince c).map .call ++
        match (openFile path flags mode c).1 with
        | .ok h => ((c'.table.get? h).map fun f => .opened h f.file).toList
        | .error _ => []
  | .close h =>
      (c'.callsSince c).map .call ++ ((c.table.get? h).map fun _ => .closed h).toList
  | _ => (c'.callsSince c).map .call

def history : List Request → Cache (Traced σ φ) φ → List (Moment φ)
  | [], _ => []
  | request :: rest, c => c.moments request ++ history rest (serve request c).2

end Cache

end BlockCache
