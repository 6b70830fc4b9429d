import FormEdits.Text.Quoted

/-! # Writing JSON

Texts between double quotes, and arrays and objects with one item a line, indented by two blanks
for each level. -/

namespace FormEdits

namespace Json

/-- How a character is written in a JSON text. -/
def escape (c : Char) : Text :=
  if c = '"' || c = '\\' then ['\\', c]
  else if c = '\x08' then "\\b"
  else if c = '\t' then "\\t"
  else if c = '\n' then "\\n"
  else if c = '\x0c' then "\\f"
  else if c = '\r' then "\\r"
  else if c.toNat < 0x20 then "\\u" ++ Quoted.hex 4 c.toNat
  else [c]

def quoted (t : Text) : Text := ['"'] ++ t.flatMap escape ++ ['"']

/-- A text between double quotes, or the word for none. -/
def quotedOrNull (t : Option Text) : Text := (t.map quoted).getD "null"

/-- Items between two brackets, at a given level. -/
def items (level : Nat) (opening closing : Char) (ts : List Text) : Text :=
  if ts.isEmpty then [opening, closing]
  else
    let indent (n : Nat) : Text := ['\n'] ++ List.replicate (2 * n) ' '
    [opening] ++ [','].intercalate (ts.map (indent (level + 1) ++ ·)) ++ indent level ++ [closing]

def object (level : Nat) (entries : List (Text × Text)) : Text :=
  items level '{' '}' (entries.map fun e => quoted e.1 ++ ": " ++ e.2)

def array (level : Nat) (ts : List Text) : Text := items level '[' ']' ts

end Json

end FormEdits
