import BlockCache.Storage

/-!
A storage that fails by a script. A rule names the calls it is for; the first rule that fits a call
decides how the call goes: it fails, it transfers fewer bytes than asked for, or it reports another
number than it should. A rule can be used up.
-/

namespace BlockCache

namespace Scripted

/-- The calls a rule can be for. -/
inductive Operation where
  | openFile
  | read
  | write
  | size
  | sync
  | resize
  deriving DecidableEq, Repr

/-- A rule for calls of one operation, where given only those of one file or at some offsets. -/
structure Rule where
  operation : Operation
  descriptor : Option Descriptor := none
  offsets : Option (List Nat) := none
  /-- How often the rule can still be used. -/
  uses : Option Nat := none
  /-- The failure of the call. -/
  fault : Option Fault := none
  /-- The number of bytes at most transferred. -/
  short : Option Nat := none
  /-- The number reported by a call that succeeds. -/
  reported : Option Nat := none

namespace Rule

/-- Whether a rule is for a call, which may have a file and an offset. -/
def fits (rule : Rule) (operation : Operation) (descriptor : Option Descriptor)
    (offset : Option Nat) : Bool :=
  rule.operation == operation &&
    (match rule.descriptor with
      | some d => descriptor == some d
      | none => true) &&
    (match rule.offsets with
      | some offsets => (offset.map offsets.contains).getD false
      | none => true)

/-- The rule after it was used once, if it can be used again. -/
def afterUse (rule : Rule) : Option Rule :=
  match rule.uses with
  | some n => if n ≤ 1 then none else some { rule with uses := some (n - 1) }
  | none => some rule

/-- What a rule makes of an outcome. -/
def report (rule : Rule) (outcome : Except Fault Nat) : Except Fault Nat :=
  outcome.map fun n => rule.reported.getD n

end Rule

end Scripted

/-- A storage with the rules by which it fails. -/
structure Scripted (σ : Type) where
  inner : σ
  rules : List Scripted.Rule

namespace Scripted

variable {σ φ α : Type}

/-- The first rule for a call, and the rules that are left after it was used. -/
def consult (operation : Operation) (descriptor : Option Descriptor) (offset : Option Nat) :
    List Rule → Option Rule × List Rule
  | [] => (none, [])
  | rule :: rest =>
      if rule.fits operation descriptor offset then (some rule, rule.afterUse.toList ++ rest)
      else
        let (found, rest) := consult operation descriptor offset rest
        (found, rule :: rest)

def pass (call : StateM σ α) : StateM (Scripted σ) α :=
  fun ⟨inner, rules⟩ =>
    match call inner with
    | (a, inner) => (a, ⟨inner, rules⟩)

/-- Uses the first rule for a call. -/
def use (operation : Operation) (descriptor : Option Descriptor) (offset : Option Nat) :
    StateM (Scripted σ) (Option Rule) :=
  fun ⟨inner, rules⟩ =>
    match consult operation descriptor offset rules with
    | (rule, rules) => (rule, ⟨inner, rules⟩)

/-- A call that a rule can only make fail. -/
def unlessFaulty (rule : Option Rule) (call : StateM σ (Except Fault α)) :
    StateM (Scripted σ) (Except Fault α) :=
  match rule.bind (·.fault) with
  | some fault => pure (.error fault)
  | none => pass call

/-- The outcome that a rule, if there is one, makes of an outcome. -/
def reported (rule : Option Rule) (outcome : Except Fault Nat) : Except Fault Nat :=
  match rule with
  | some rule => rule.report outcome
  | none => outcome

instance [Storage σ φ] : Storage (Scripted σ) φ where
  descriptor := Storage.descriptor σ
  openFile path flags mode := do
    let rule ← use .openFile none none
    unlessFaulty rule (Storage.openFile path flags mode)
  size file := do
    let rule ← use .size (some (Storage.descriptor σ file)) none
    reported rule <$> unlessFaulty rule (Storage.size file)
  readAt file buffer offset := do
    let rule ← use .read (some (Storage.descriptor σ file)) (some offset)
    match rule.bind (·.fault) with
    | some fault => pure (.error fault, buffer)
    | none =>
        match rule.bind (·.short) with
        | some count =>
            let (outcome, read) ← pass (Storage.readAt file (buffer.first count) offset)
            pure (reported rule outcome, buffer.blit 0 read.bytes)
        | none =>
            let (outcome, buffer) ← pass (Storage.readAt file buffer offset)
            pure (reported rule outcome, buffer)
  writeAt file buffer offset := do
    let rule ← use .write (some (Storage.descriptor σ file)) (some offset)
    match rule.bind (·.short) with
    | some count =>
        reported rule <$> unlessFaulty rule (Storage.writeAt file (buffer.first count) offset)
    | none => reported rule <$> unlessFaulty rule (Storage.writeAt file buffer offset)
  sync file := do
    let rule ← use .sync (some (Storage.descriptor σ file)) none
    unlessFaulty rule (Storage.sync file)
  setLen file size := do
    let rule ← use .resize (some (Storage.descriptor σ file)) none
    unlessFaulty rule (Storage.setLen file size)
  close file := pass (Storage.close file)

end Scripted

end BlockCache
