import FormEdits.Assoc
import FormEdits.Text.Digit
import FormEdits.Text.Quoted
import FormEdits.Text.Utf8

/-! # URL-encoded forms

A form can be given as pairs of a key and a value, joined by `=` and separated by `&`. In both a
plus sign stands for a space, and a percent sign with two hexadecimal digits for a byte; the bytes
between two characters outside ASCII are read as UTF-8. `Encoded.read` collects the values of each
key, and `Encoded.write` gives the pairs of a form. -/

namespace FormEdits

namespace Encoded

/-- The byte that two hexadecimal digits write. -/
def byte? (a b : Char) : Option UInt8 := do
  let high ← hexDigitValue? a
  let low ← hexDigitValue? b
  some (UInt8.ofNat (high * 16 + low))

/-- The bytes at the front of a text, up to the first character outside ASCII, and the text from
there on with its escapes replaced. -/
def unescapeFrom : Text → List UInt8 × Text
  | [] => ([], [])
  | '%' :: a :: b :: r =>
    match byte? a b with
    | some n =>
      let (bytes, rest) := unescapeFrom r
      (n :: bytes, rest)
    | none =>
      let (bytes, rest) := unescapeFrom (a :: b :: r)
      (0x25 :: bytes, rest)
  | c :: r =>
    let (bytes, rest) := unescapeFrom r
    if c.toNat < 0x80 then (UInt8.ofNat c.toNat :: bytes, rest)
    else ([], c :: (Utf8.decodeLenient bytes ++ rest))

def unescape (t : Text) : Text :=
  let (bytes, rest) := unescapeFrom (t.map fun c => if c = '+' then ' ' else c)
  Utf8.decodeLenient bytes ++ rest

/-- The key and the value of a pair; without a `=` the value is empty. -/
def pair (t : Text) : Text × Text :=
  match Text.cut? '=' t with
  | some (key, value) => (unescape key, unescape value)
  | none => (unescape t, [])

def read (t : Text) : List (Text × List Text) :=
  Assoc.collect (((t.splitOn '&').filter (!·.isEmpty)).map pair)

/-- Characters that stand for themselves. -/
def isPlain (c : Char) : Bool :=
  isAsciiLetter c || isAsciiDigit c || c = '_' || c = '.' || c = '-' || c = '~'

/-- The upper-case hexadecimal digits of a byte, after a percent sign. -/
def escapeByte (b : UInt8) : Text := '%' :: (Quoted.hex 2 b.toNat).map Char.toUpper

/-- How a character is written in a key or value. -/
def escape (c : Char) : Text :=
  if isPlain c then [c]
  else if c = ' ' then ['+']
  else (Utf8.encode [c]).flatMap escapeByte

/-- The encoded form with the given keys and values, each pair in order. -/
def write (fields : List (Text × List Text)) : Text :=
  let pairs := fields.flatMap fun f => f.2.map fun v => (f.1, v)
  ['&'].intercalate (pairs.map fun p => p.1.flatMap escape ++ ['='] ++ p.2.flatMap escape)

end Encoded

end FormEdits
