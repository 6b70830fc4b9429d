import FormEdits.Key.Name

/-! # Prefix lines

A prefix is bound by a line with its name, a colon and the IRI it stands for, which must be free of
blanks; blanks may surround each of the three. The name is as long as it can be. -/

namespace FormEdits

structure PrefixLine where
  name : Text
  iri : Text
deriving DecidableEq, Repr

namespace PrefixLine

/-- The name in the part of a line before the colon. -/
def name? (t : Text) : Option Text :=
  (Text.runs isBlank t).findSome? fun gap =>
    ((namesAtFront gap.2 ++ schemesAtFront gap.2).find? fun s => s.2.all isBlank).map Prod.fst

def parse? (line : Text) : Option PrefixLine := do
  let (before, after) ← Text.cut? ':' line
  let name ← name? before
  let iri := after.trim
  if iri.isEmpty || iri.any isBlank then none else some ⟨name, iri⟩

end PrefixLine

end FormEdits
