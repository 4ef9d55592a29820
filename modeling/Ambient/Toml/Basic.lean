/-!
# TOML values

The data model of a TOML text. Numbers and moments of time keep the spelling they were written
with. A table remembers what brought it about, because that decides what may still be added to it.
-/

namespace Ambient

/-- What brought a table about. -/
inductive Toml.Origin where
  /-- Braces. -/
  | inline
  /-- A header of its own, or the start of the text. -/
  | header
  /-- The header of a table below it. -/
  | path
  /-- A dotted key. -/
  | dotted
deriving DecidableEq, Repr, Inhabited

/-- A value. An array is headed if its tables have headers. -/
inductive Toml where
  | text (content : String)
  | bool (value : Bool)
  | number (written : String)
  | moment (written : String)
  | array (isHeaded : Bool) (items : List Toml)
  | table (origin : Toml.Origin) (entries : List (String × Toml))
deriving Repr, Inhabited

namespace Toml

/-- The entries of a table. -/
abbrev Entries := List (String × Toml)

/-- Whether a table came about on the way to something else. -/
def Origin.isImplicit : Origin → Bool
  | .path | .dotted => true
  | .inline | .header => false

/-- The value of a key. -/
def Entries.get? (entries : Entries) (key : String) : Option Toml := entries.lookup key

/-- Gives a key another value, or adds it at the end. -/
def Entries.put (entries : Entries) (key : String) (value : Toml) : Entries :=
  if (entries.get? key).isSome then
    entries.map fun entry => if entry.1 = key then (key, value) else entry
  else entries ++ [(key, value)]

/-- Changes the table at a path below a table. Tables that are missing on the way come about with
`made`; of the tables of a headed array the last is taken. Nothing leads into an inline table, and
dotted keys do not lead through a table with a header. -/
def within (made : Origin) (change : Origin → Entries → Option Entries) :
    List String → Origin → Entries → Option Entries
  | [], origin, entries => change origin entries
  | key :: path, _, entries => do
    match entries.get? key with
    | none => return entries.put key (.table made (← within made change path made []))
    | some (.table origin inner) =>
      if origin = .inline ∨ made = .dotted ∧ !origin.isImplicit then none
      else return entries.put key (.table origin (← within made change path origin inner))
    | some (.array true items) =>
      match items.getLast? with
      | some (.table origin inner) =>
        let last := Toml.table origin (← within made change path origin inner)
        return entries.put key (.array true (items.dropLast ++ [last]))
      | _ => none
    | some _ => none

/-- Assigns a value to a dotted key of a table: its last part must be new, and the tables on the
way must have come about by dotted keys. -/
def assign (path : List String) (value : Toml) (origin : Origin) (entries : Entries) :
    Option Entries := do
  let key ← path.getLast?
  let owners := path.dropLast
  let add (owner : Origin) (inner : Entries) : Option Entries :=
    if (owner == .dotted) == owners.isEmpty || (inner.get? key).isSome then none
    else some (inner.put key value)
  within .dotted add owners origin entries

end Toml

end Ambient
