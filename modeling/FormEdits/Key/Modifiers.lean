import FormEdits.Error

/-! # Modifiers

The first word of a statement key may say what happens to the statements: insert or delete them,
overwrite those there are, or reverse subject and object. -/

namespace FormEdits

inductive Modifier
  | insert
  | delete
  | overwrite
  | reverse
deriving DecidableEq, Repr

namespace Modifier

def sign : Modifier → Char
  | insert => '+'
  | delete => '-'
  | overwrite => '='
  | reverse => '!'

def ofSign? (c : Char) : Option Modifier :=
  [insert, delete, overwrite, reverse].find? (·.sign = c)

/-- The name of a modifier, in capitals. -/
def name : Modifier → Text
  | insert => "INSERT"
  | delete => "DELETE"
  | overwrite => "OVERWRITE"
  | reverse => "REVERSE"

end Modifier

structure Modifiers where
  insert : Bool
  delete : Bool
  overwrite : Bool
  reverse : Bool
deriving DecidableEq, Repr

namespace Modifiers

def empty : Modifiers := ⟨false, false, false, false⟩

def add (s : Modifiers) : Modifier → Modifiers
  | .insert => { s with insert := true }
  | .delete => { s with delete := true }
  | .overwrite => { s with overwrite := true }
  | .reverse => { s with reverse := true }

def toList (s : Modifiers) : List Modifier :=
  (if s.delete then [.delete] else []) ++ (if s.insert then [.insert] else [])
    ++ (if s.overwrite then [.overwrite] else []) ++ (if s.reverse then [.reverse] else [])

/-- The set of the modifiers whose signs a text consists of. -/
def ofSigns : Text → Except Error Modifiers
  | [] => .ok empty
  | c :: r =>
    match Modifier.ofSign? c with
    | some m => (ofSigns r).map (·.add m)
    | none => .error (.value (.notModifier c))

/-- The words that are modifiers of a statement key: one sign, or `!` with `+` or `-` on either
side of it. -/
def words : List (Text × Modifiers) :=
  [("+", ⟨true, false, false, false⟩), ("-", ⟨false, true, false, false⟩),
    ("=", ⟨false, false, true, false⟩), ("!", ⟨false, false, false, true⟩),
    ("!+", ⟨true, false, false, true⟩), ("+!", ⟨true, false, false, true⟩),
    ("!-", ⟨false, true, false, true⟩), ("-!", ⟨false, true, false, true⟩)]

def ofWord? (w : Text) : Option Modifiers := words.lookup w

end Modifiers

end FormEdits
