import FormEdits.Macros.Table

/-! # Expanding macros in a text

Each reference to a bound macro is replaced by each value of the macro, so that a text expands to
all combinations of the values; the values of the leftmost reference vary slowest. A reference to
an unbound macro stays as it is written, and the values put in are not looked at again. Generated
values are drawn from left to right, a new one for each text that was begun before the reference. -/

namespace FormEdits

/-- The values of each macro after its own references have been replaced. -/
abbrev Expansions := Assoc Text (List MacroValue)

/-- The text of a value, drawn from the supply if it is generated. -/
def MacroValue.render : MacroValue → Supply → Text × Supply
  | text t, s => (t, s)
  | generated g, s => g.draw s

namespace Macros

/-- The texts of values, drawn from left to right. -/
def renderAll : List MacroValue → Supply → List Text × Supply
  | [], s => ([], s)
  | v :: vs, s =>
    let (t, s) := v.render s
    let (ts, s) := renderAll vs s
    (t :: ts, s)

/-- Each of the texts begun so far, followed by each of the values. -/
def appendEach (values : List MacroValue) : (begun : List Text) → Supply → List Text × Supply
  | [], s => ([], s)
  | b :: bs, s =>
    let (ts, s) := renderAll values s
    let (rest, s) := appendEach values bs s
    (ts.map (b ++ ·) ++ rest, s)

/-- The values that a part stands for. -/
def valuesOf (m : Expansions) : Piece → List MacroValue
  | .literal t => [.text t]
  | .reference name braced => (m.find? name).getD [.text (Piece.reference name braced).text]

/-- Goes on with the texts begun so far through the parts of a text. -/
def expandFrom (m : Expansions) : List Piece → (begun : List Text) → Supply → List Text × Supply
  | [], begun, s => (begun, s)
  | p :: ps, begun, s =>
    let (begun, s) := appendEach (valuesOf m p) begun s
    expandFrom m ps begun s

def expand (m : Expansions) (t : Text) (s : Supply) : List Text × Supply :=
  expandFrom m (pieces t) [[]] s

def expandAll (m : Expansions) : List Text → Supply → List Text × Supply
  | [], s => ([], s)
  | t :: ts, s =>
    let (expanded, s) := expand m t s
    let (rest, s) := expandAll m ts s
    (expanded ++ rest, s)

end Macros

end FormEdits
