import BlockCache.Cache.Transfer

/-!
Sessions with a cache. A request names a call with its arguments, a reply has its outcome; a session
serves requests one after the other.
-/

namespace BlockCache

/-- A call of a cache with its arguments. -/
inductive Request where
  | openFile (path : String) (flags : OpenFlags) (mode : Nat)
  | close (h : Handle)
  | sync (h : Handle)
  /-- Reads into a buffer that has some bytes already. -/
  | read (h : Handle) (buffer : ByteArray)
  | write (h : Handle) (data : ByteArray)
  | seek (h : Handle) (target : SeekTarget)
  | position (h : Handle)
  | length (h : Handle)
  | flags (h : Handle)
  | isResident (h : Handle) (block : Nat)

/-- The outcome of a call. -/
inductive Reply where
  | opened (outcome : Except Error Handle)
  | done (outcome : Except Error Unit)
  | number (outcome : Except Error Nat)
  /-- The number of bytes read, and the buffer afterwards. -/
  | bytes (outcome : Except Error Nat) (buffer : ByteArray)
  | flags (outcome : Except Error OpenFlags)
  | truth (outcome : Except Error Bool)

namespace Cache

variable {σ φ : Type} [Storage σ φ]

def serve : Request → StateM (Cache σ φ) Reply
  | .openFile path flags mode => .opened <$> openFile path flags mode
  | .close h => .done <$> close h
  | .sync h => .done <$> sync h
  | .read h buffer => do
      let (outcome, buffer) ← read h (Buffer.ofBytes buffer)
      pure (.bytes outcome buffer.bytes)
  | .write h data => .number <$> write h data
  | .seek h target => .number <$> seek h target
  | .position h => do pure (.number ((← get).position h))
  | .length h => do pure (.number ((← get).length h))
  | .flags h => do pure (.flags ((← get).flags h))
  | .isResident h block => do pure (.truth ((← get).isResident h block))

def session : List Request → StateM (Cache σ φ) (List Reply)
  | [] => pure []
  | request :: rest => do
      let reply ← serve request
      let replies ← session rest
      pure (reply :: replies)

end Cache

end BlockCache
