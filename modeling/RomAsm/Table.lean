/-!
# Tables

A table maps names to values and keeps its names in the order in which they were first put in.
-/

namespace RomAsm

/-- Names with their values, oldest first. -/
abbrev Table (α : Type) := List (String × α)

namespace Table

variable {α : Type}

/-- The value of a name. -/
def get? (t : Table α) (name : String) : Option α := t.lookup name

/-- Whether a name has a value. -/
def has (t : Table α) (name : String) : Bool := (get? t name).isSome

/-- Gives a name a value. A new name goes to the end, a known one stays where it is. -/
def put (t : Table α) (name : String) (value : α) : Table α :=
  if has t name then t.map fun entry => if entry.1 == name then (name, value) else entry
  else t ++ [(name, value)]

/-- The table in which later entries for a name take the place of earlier ones. -/
def ofEntries (entries : List (String × α)) : Table α :=
  entries.foldl (fun t entry => put t entry.1 entry.2) []

/-- The names of a table. -/
def names (t : Table α) : List String := t.map (·.1)

/-- The entries in the order of their names. -/
def sorted (t : Table α) : List (String × α) := t.mergeSort fun a b => decide (a.1 ≤ b.1)

end Table

end RomAsm
