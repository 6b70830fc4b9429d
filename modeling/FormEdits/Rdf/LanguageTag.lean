import FormEdits.Text.Basic

/-! # Language tags

A language tag is a primary part of letters, followed by parts of letters and digits, each after a
hyphen. -/

namespace FormEdits

def isLanguageTag (t : Text) : Bool :=
  match t.splitOn '-' with
  | [] => false
  | primary :: parts =>
    (!primary.isEmpty && primary.all isAsciiLetter) &&
      parts.all fun p => !p.isEmpty && p.all fun c => isAsciiLetter c || isAsciiDigit c

end FormEdits
