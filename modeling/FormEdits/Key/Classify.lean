import FormEdits.Key.Declaration
import FormEdits.Key.Template
import FormEdits.Macros.Reference

/-! # What a key is

A key declares a macro, or is a statement template, or is neither and is ignored. A key that refers
to macros may turn out to be a template when the macros are expanded, so it is kept for then. -/

namespace FormEdits

inductive Key
  | declaration (d : Declaration)
  | statement (t : Template)
  | unexpanded (text : Text)
  | unrecognized
deriving DecidableEq, Repr

/-- What a key does, judged by its text alone. -/
def Key.classify (key : Text) : Key :=
  match Declaration.parse? key with
  | some d => .declaration d
  | none =>
    if Macros.hasReferences key then .unexpanded key
    else
      match Template.parse? key with
      | some t => .statement t
      | none => .unrecognized

end FormEdits
