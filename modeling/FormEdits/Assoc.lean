/-! # Association lists

Keys with values, in the order in which the keys were first inserted. A key that is inserted again
keeps its place and takes the new value. -/

namespace FormEdits

abbrev Assoc (κ α : Type) := List (κ × α)

namespace Assoc

variable {κ α : Type} [BEq κ]

def find? (m : Assoc κ α) (k : κ) : Option α := List.lookup k m

/-- Changes the value of a key, `none` standing for the value of a new one. -/
def alter (m : Assoc κ α) (k : κ) (f : Option α → α) : Assoc κ α :=
  match m with
  | [] => [(k, f none)]
  | (k', a) :: r => if k' == k then (k', f (some a)) :: r else (k', a) :: alter r k f

def insert (m : Assoc κ α) (k : κ) (a : α) : Assoc κ α := m.alter k fun _ => a

/-- Gives each key of `n` its value there. -/
def overlay (m n : Assoc κ α) : Assoc κ α := n.foldl (fun m e => m.insert e.1 e.2) m

/-- The association list of entries in which keys may repeat: the last value of a key counts. -/
def ofEntries (entries : List (κ × α)) : Assoc κ α := overlay [] entries

/-- All values of each key, in order. -/
def collect (entries : List (κ × α)) : Assoc κ (List α) :=
  entries.foldl (fun m e => m.alter e.1 fun old => old.getD [] ++ [e.2]) []

def keys (m : Assoc κ α) : List κ := m.map Prod.fst

end Assoc

end FormEdits
