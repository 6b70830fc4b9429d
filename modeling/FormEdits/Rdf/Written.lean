import FormEdits.Error

/-! # Terms as they are written

An IRI is written between angle brackets, if no character in it could end it, and a blank node as
its label after `_:`, unchanged. A literal is written between double quotes, or between triple ones
if it holds a line feed; in lines of quads it is always on one line. -/

namespace FormEdits

namespace Written

/-- Characters that an IRI must not hold to be written: they could end it or break its line. -/
def isForbidden (c : Char) : Bool := ("<>\" \x7b\x7d|\\^`" : Text).contains c

def iri (t : Text) : Except Error Text :=
  if t.any isForbidden then .error (.unwritable t) else .ok ("<" ++ t ++ ">")

def blank (label : Text) : Text := "_:" ++ label

/-- A double quote, a backslash and the line ends are escaped. -/
def escape (c : Char) : Text :=
  if c = '\\' then "\\\\"
  else if c = '"' then "\\\""
  else if c = '\n' then "\\n"
  else if c = '\r' then "\\r"
  else [c]

/-- A text on one line. -/
def line (t : Text) : Text := ['"'] ++ t.flatMap escape ++ ['"']

/-- A double quote at the end is escaped, unless a backslash stands before it. -/
def escapeLast (t : Text) : Text :=
  match t.reverse with
  | '"' :: c :: _ => if c = '\\' then t else t.dropLast ++ "\\\""
  | _ => t

/-- A text between triple quotes, with its line feeds as they are. -/
def block (t : Text) : Text :=
  let doubled := t.flatMap fun c => if c = '\\' then ['\\', '\\'] else [c]
  let quotes : Text := "\"\"\""
  let body := escapeLast (Text.replaceAll quotes "\\\"\\\"\\\"" doubled)
  quotes ++ body.flatMap (fun c => if c = '\r' then ['\\', 'r'] else [c]) ++ quotes

/-- The names of special numbers as XML Schema spells them. -/
def specialNumbers (l : Literal) (quoted : Text) : Text :=
  match l.datatype.filter Datatype.hasSpecialNumbers, Double.read? l.text with
  | some _, some x =>
    if x.isInf then Text.replaceAll "Infinity" "INF" (Text.replaceAll "inf" "INF" quoted)
    else if x.isNaN then Text.replaceAll "nan" "NaN" quoted
    else quoted
  | _, _ => quoted

/-- What follows the quoted text of a literal. -/
def suffix : Literal → Text
  | .plain _ => []
  | .inLanguage _ tag => '@' :: tag
  | .ofDatatype _ iri => "^^<" ++ iri ++ ">"

def literal (l : Literal) : Text :=
  let quoted := if l.text.contains '\n' then block l.text else line l.text
  specialNumbers l quoted ++ suffix l

/-- A term in N3. -/
def term : Term → Except Error Text
  | .iri t => iri t
  | .blank label => .ok (blank label)
  | .literal l => .ok (literal l)

/-- A term in a line of quads. -/
def termOnLine : Term → Except Error Text
  | .iri t => iri t
  | .blank label => .ok (blank label)
  | .literal l => .ok (line l.text ++ suffix l)

end Written

end FormEdits
