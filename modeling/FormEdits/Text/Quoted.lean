import FormEdits.Text.Printable

/-! # Quoted text

Messages show a text between quotes, on one line and with nothing invisible in it: a backslash and
the quote itself are escaped by a backslash, line feed, carriage return and tab by a letter, and
every other character that is not printable by its number. The quote is the apostrophe, unless the
text holds an apostrophe and no double quote. Bytes are quoted likewise, after a `b`. -/

namespace FormEdits

namespace Quoted

/-- The lower-case hexadecimal digit of a value below sixteen. -/
def hexDigit (n : Nat) : Char := if n < 10 then Char.ofNat (48 + n) else Char.ofNat (87 + n)

/-- The last `width` hexadecimal digits of `n`. -/
def hex : (width n : Nat) → Text
  | 0, _ => []
  | width + 1, n => hex width (n / 16) ++ [hexDigit (n % 16)]

/-- The quote that a text is put between. -/
def quoteFor (t : Text) : Char := if t.contains '\'' && !t.contains '"' then '"' else '\''

/-- How a character is written between two quotes `q`. -/
def escape (q c : Char) : Text :=
  if c = q || c = '\\' then ['\\', c]
  else if c = '\n' then "\\n"
  else if c = '\r' then "\\r"
  else if c = '\t' then "\\t"
  else if isPrintable c then [c]
  else if c.toNat < 0x100 then "\\x" ++ hex 2 c.toNat
  else if c.toNat < 0x10000 then "\\u" ++ hex 4 c.toNat
  else "\\U" ++ hex 8 c.toNat

end Quoted

/-- The text between quotes. -/
def Text.quoted (t : Text) : Text :=
  let q := Quoted.quoteFor t
  [q] ++ t.flatMap (Quoted.escape q) ++ [q]

/-- Bytes between quotes, those outside printable ASCII by their number. -/
def quotedBytes (bs : List UInt8) : Text :=
  let t : Text := bs.map fun b => Char.ofNat b.toNat
  let q := Quoted.quoteFor t
  let escape (c : Char) : Text :=
    if c.toNat < 0x7F then Quoted.escape q c else "\\x" ++ Quoted.hex 2 c.toNat
  ['b', q] ++ t.flatMap escape ++ [q]

end FormEdits
