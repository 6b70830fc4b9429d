import FormEdits.Key.Name

/-! # Macro declarations

A key declares a macro if it consists of a `$`, a name and perhaps a second `$`, separated by
blanks. The second `$` says that the values refer to macros themselves. Since one blank, U+1680, is
a name character too, a key may be cut in several ways; the cut with the longest gap before the
name counts, and among these the one with the longest name. -/

namespace FormEdits

structure Declaration where
  name : Text
  pending : Bool
deriving DecidableEq, Repr

namespace Declaration

/-- Whether what follows the name marks the values as pending, if it may follow a name. -/
def ending? (t : Text) : Option Bool :=
  match t.trimStart with
  | [] => some false
  | c :: r =>
    if c = '$' && t.head?.any isBlank && r.all isBlank then some true else none

/-- The declaration in a text that stands after the `$`. -/
def afterSign? (t : Text) : Option Declaration :=
  (Text.runs isBlank t).findSome? fun gap =>
    if gap.1.isEmpty then none
    else (namesAtFront gap.2).findSome? fun name => (ending? name.2).map fun p => ⟨name.1, p⟩

def parse? (key : Text) : Option Declaration :=
  match key.trimStart with
  | [] => none
  | c :: r => if c = '$' then afterSign? r else none

end Declaration

end FormEdits
