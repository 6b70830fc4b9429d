import FormEdits.Key.Name

/-! # Macro references

A text refers to the macro `x` by `$x` or by `${x}`; the name of an unbraced reference is as long as
it can be. `pieces` cuts a text into its references and the literal texts between them, from which
`Piece.text` gives the text back. -/

namespace FormEdits

/-- A part of a text: one that stands for itself, or a reference to a macro. -/
inductive Piece
  | literal (t : Text)
  | reference (name : Text) (braced : Bool)
deriving DecidableEq, Repr

namespace Piece

/-- The part as it is written. -/
def text : Piece → Text
  | literal t => t
  | reference name false => '$' :: name
  | reference name true => ['$', '{'] ++ name ++ ['}']

def name? : Piece → Option Text
  | literal _ => none
  | reference name _ => some name

end Piece

namespace Macros

/-- The longest name at the front of a text, empty if there is none. -/
def nameAtFront : Text → Text
  | [] => []
  | c :: r => if isNameStart c then c :: r.takeWhile isNameChar else []

/-- The reference at the front of a text that follows a `$`. -/
def referenceAfterSign? : Text → Option Piece
  | [] => none
  | c :: r =>
    if c = '{' then
      let name := nameAtFront r
      if name.isEmpty || r[name.length]? != some '}' then none else some (.reference name true)
    else
      let name := nameAtFront (c :: r)
      if name.isEmpty then none else some (.reference name false)

def referenceAtFront? : Text → Option Piece
  | [] => none
  | c :: r => if c = '$' then referenceAfterSign? r else none

/-- Puts a character that stands for itself before the parts of a text. -/
def consLiteral (c : Char) : List Piece → List Piece
  | .literal t :: ps => .literal (c :: t) :: ps
  | ps => .literal [c] :: ps

/-- The parts of what follows the first `skip` characters of a text, which belong to a part that has
been taken already. -/
def piecesFrom : (skip : Nat) → Text → List Piece
  | _, [] => []
  | skip + 1, _ :: r => piecesFrom skip r
  | 0, c :: r =>
    match referenceAtFront? (c :: r) with
    | some p => p :: piecesFrom (p.text.length - 1) r
    | none => consLiteral c (piecesFrom 0 r)

/-- The references of a text and the literal texts between them. -/
def pieces (t : Text) : List Piece := piecesFrom 0 t

/-- The names that a text refers to, in the order of their first appearance. -/
def names (t : Text) : List Text := ((pieces t).filterMap Piece.name?).eraseDups

def hasReferences (t : Text) : Bool := (pieces t).any (·.name?.isSome)

end Macros

end FormEdits
