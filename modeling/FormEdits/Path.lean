import FormEdits.Error

/-! # Paths of files

What a run knows of files is what reading the file at a path gives: its text, or the reason why there
is none. -/

namespace FormEdits

abbrev FileReader := Text → Except FileFault Text

namespace Path

/-- The parts of a path between slashes that lead anywhere. -/
def parts (path : Text) : List Text :=
  (path.splitOn '/').filter fun p => !p.isEmpty && p ≠ "."

/-- The shortest path to the same place; a path that leads nowhere else is a single point. -/
def simplify (path : Text) : Text :=
  let root : Text := if path.head? = some '/' then "/" else []
  let simple := root ++ ['/'].intercalate (parts path)
  if simple.isEmpty then "." else simple

end Path

end FormEdits
