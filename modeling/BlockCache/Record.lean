/-!
The text of a record: its name, then its fields between braces, each written `name: value`.
-/

namespace BlockCache

/-- The text of a record with the given field names and field texts. -/
def recordText (name : String) (fields : List (String × String)) : String :=
  name ++ " \x7b " ++ ", ".intercalate (fields.map fun (field, text) => field ++ ": " ++ text) ++
    " \x7d"

def boolText (b : Bool) : String := if b then "true" else "false"

end BlockCache
