/-!
Finite maps as lists of entries. The first entry of a key counts, and updating a key replaces that
entry in place.
-/

namespace BlockCache

/-- A finite map from keys to values. -/
structure Catalog (κ α : Type) where
  entries : List (κ × α)
  deriving Repr

namespace Catalog

variable {κ α : Type} [DecidableEq κ]

def empty : Catalog κ α := ⟨[]⟩

/-- The first entry of a key in a list. -/
def find? (key : κ) : List (κ × α) → Option α
  | [] => none
  | (k, a) :: rest => if k = key then some a else find? key rest

def get? (c : Catalog κ α) (key : κ) : Option α := find? key c.entries

/-- A list with the first entry of a key changed, or with an entry of its own at the end. -/
def adjust (key : κ) (f : Option α → α) : List (κ × α) → List (κ × α)
  | [] => [(key, f none)]
  | (k, a) :: rest => if k = key then (k, f (some a)) :: rest else (k, a) :: adjust key f rest

def update (c : Catalog κ α) (key : κ) (f : Option α → α) : Catalog κ α :=
  match c with
  | ⟨entries⟩ => ⟨adjust key f entries⟩

def insert (c : Catalog κ α) (key : κ) (a : α) : Catalog κ α := c.update key fun _ => a

def erase (c : Catalog κ α) (key : κ) : Catalog κ α := ⟨c.entries.filter fun entry => entry.1 ≠ key⟩

/-! ### What the operations do to the value of a key -/

theorem find?_adjust (key key' : κ) (f : Option α → α) (entries : List (κ × α)) :
    find? key' (adjust key f entries) =
      if key = key' then some (f (find? key entries)) else find? key' entries := by
  induction entries with
  | nil => simp [adjust, find?]
  | cons entry rest ih =>
      obtain ⟨k, a⟩ := entry
      by_cases hk : k = key
      · subst hk
        by_cases hk' : k = key' <;> simp [adjust, find?, hk']
      · by_cases hk' : key = key'
        · subst hk'
          simp [adjust, find?, hk, ih]
        · by_cases hkk : k = key'
          · subst hkk
            simp [adjust, find?, hk, hk']
          · simp [adjust, find?, hk, hk', hkk, ih]

theorem find?_filter_ne (key key' : κ) (entries : List (κ × α)) :
    find? key' (entries.filter fun entry => entry.1 ≠ key) =
      if key = key' then none else find? key' entries := by
  induction entries with
  | nil => simp [find?]
  | cons entry rest ih =>
      obtain ⟨k, a⟩ := entry
      by_cases hk : k = key
      · subst hk
        by_cases hk' : k = key'
        · simpa [find?, hk'] using ih
        · simpa [find?, hk'] using ih
      · by_cases hk' : k = key'
        · subst hk'
          have : ¬ key = k := fun h => hk h.symm
          simp [find?, hk, this]
        · simpa [find?, hk, hk'] using ih

@[simp] theorem get?_empty (key : κ) : (empty : Catalog κ α).get? key = none := rfl

theorem get?_update (c : Catalog κ α) (key key' : κ) (f : Option α → α) :
    (c.update key f).get? key' = if key = key' then some (f (c.get? key)) else c.get? key' :=
  find?_adjust key key' f c.entries

theorem get?_insert (c : Catalog κ α) (key key' : κ) (a : α) :
    (c.insert key a).get? key' = if key = key' then some a else c.get? key' :=
  get?_update c key key' fun _ => a

theorem get?_erase (c : Catalog κ α) (key key' : κ) :
    (c.erase key).get? key' = if key = key' then none else c.get? key' :=
  find?_filter_ne key key' c.entries

end Catalog

end BlockCache
