import FormEdits.Text.Blank

/-! # Names and term tokens

A name is an XML name without a colon. The part of a term token before its first colon is a name
or has the form of a URI scheme; what follows the colon is free of blanks. U+1680 is a name
character and a blank at once. -/

namespace FormEdits

def isNameStart : Char → Bool :=
  Text.inRanges [(0x41, 0x5A), (0x5F, 0x5F), (0x61, 0x7A), (0xC0, 0xD6), (0xD8, 0xF6),
    (0xF8, 0x2FF), (0x370, 0x37D), (0x37F, 0x1FFF), (0x200C, 0x200D), (0x2070, 0x218F),
    (0x2C00, 0x2FEF), (0x3001, 0xD7FF), (0xF900, 0xFDCF), (0xFDF0, 0xFFFD), (0x10000, 0xEFFFF)]

def isNameChar (c : Char) : Bool :=
  isNameStart c ||
    Text.inRanges [(0x2D, 0x2E), (0x30, 0x39), (0xB7, 0xB7), (0x300, 0x36F), (0x203F, 0x2040)] c

def isName : Text → Bool
  | [] => false
  | c :: r => isNameStart c && r.all isNameChar

/-- The ways to take a name off the front of a text, longest name first. -/
def namesAtFront : Text → List (Text × Text)
  | [] => []
  | c :: r =>
    if isNameStart c then (Text.runs isNameChar r).map fun s => (c :: s.1, s.2) else []

/-- Characters that a URI scheme may go on with. -/
def isSchemeChar (c : Char) : Bool :=
  isAsciiLetter c || isAsciiDigit c || c = '.' || c = '+' || c = '-'

def isScheme : Text → Bool
  | [] => false
  | c :: r => isAsciiLetter c && r.all isSchemeChar

/-- The ways to take a URI scheme off the front of a text, longest scheme first. -/
def schemesAtFront : Text → List (Text × Text)
  | [] => []
  | c :: r =>
    if isAsciiLetter c then (Text.runs isSchemeChar r).map fun s => (c :: s.1, s.2) else []

/-- Whether a text may stand before the colon of a term token. -/
def isPrefixName (t : Text) : Bool := isName t || isScheme t

def isTermToken (t : Text) : Bool :=
  match Text.cut? ':' t with
  | some (name, rest) => isPrefixName name && rest.all (!isBlank ·)
  | none => false

end FormEdits
