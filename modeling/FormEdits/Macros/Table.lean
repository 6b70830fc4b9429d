import FormEdits.Assoc
import FormEdits.Macros.Reference
import FormEdits.Macros.Supply

/-! # Macro tables

A table has the values of each macro, in the order in which they were declared. A declared value
may be pending: macros that it refers to are to be put in before it is used. The generated macros
are in every table and cannot be declared. -/

namespace FormEdits

/-- A value of a macro: a text, or one that is generated at each use. -/
inductive MacroValue
  | text (t : Text)
  | generated (g : Generator)
deriving DecidableEq, Repr

/-- A value in a table, with the names that it refers to if it is pending. A pending value that
refers to no name is an ordinary one. -/
structure MacroEntry where
  value : MacroValue
  references : List Text
deriving DecidableEq, Repr

def MacroEntry.isPending (e : MacroEntry) : Bool := !e.references.isEmpty

def MacroEntry.isGenerated (e : MacroEntry) : Bool := e.value matches .generated _

abbrev MacroTable := Assoc Text (List MacroEntry)

namespace MacroTable

def initial : MacroTable := Generator.all.map fun g => (g.name, [⟨.generated g, []⟩])

/-- The entry that a declared text makes. -/
def entry (pending : Bool) (t : Text) : MacroEntry :=
  ⟨.text t, if pending then Macros.names t else []⟩

/-- Adds values to those of a macro, unless it is a generated one. -/
def declare (table : MacroTable) (name : Text) (values : List Text) (pending : Bool) : MacroTable :=
  if (Generator.ofName? name).isSome || values.isEmpty then table
  else table.alter name fun old => old.getD [] ++ values.map (entry pending)

def contains (table : MacroTable) (name : Text) : Bool := (table.find? name).isSome

def entries? (table : MacroTable) (name : Text) : Option (List MacroEntry) := table.find? name

/-- The names that an entry refers to, by code points, of those that the table has. -/
def boundReferences (table : MacroTable) (e : MacroEntry) : List Text :=
  (e.references.mergeSort Text.precedes).filter table.contains

/-- The macros that the values of a macro refer to, each once: entry by entry, and within an entry
by code points. -/
def dependencies (table : MacroTable) (name : Text) : List Text :=
  (((table.entries? name).getD []).flatMap table.boundReferences).eraseDups

end MacroTable

end FormEdits
