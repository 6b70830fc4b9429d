import FormEdits.Text.Blank
import FormEdits.Text.Digit

/-! # Numerals

What the readers of integers, decimals and doubles have in common: digits of any script count as
ASCII digits, a single underscore may stand between two digits, and a number in scientific form is
a coefficient and a power of ten. -/

namespace FormEdits

namespace Numeral

/-- Blanks that may surround a numeral: the information separators are not among them. -/
def isBlank (c : Char) : Bool := FormEdits.isBlank c && !(0x1C ≤ c.toNat && c.toNat ≤ 0x1F)

/-- A text without the blanks that may surround a numeral. -/
def trim (t : Text) : Text :=
  ((t.dropWhile isBlank).reverse.dropWhile isBlank).reverse

/-- The text with ASCII digits for the digits of all scripts, if nothing else in it is outside
ASCII. -/
def ascii? (t : Text) : Option Text :=
  t.mapM fun c => if c.toNat < 128 then some c else (digitValue? c).map asciiDigit

/-- Removes the underscores of a text; `afterDigit` says whether a digit stands before it. An
underscore that does not stand between two digits is refused. -/
def ungroupFrom : (afterDigit : Bool) → Text → Option Text
  | _, [] => some []
  | afterDigit, c :: r =>
    if c = '_' then
      if afterDigit && r.head?.any isAsciiDigit then ungroupFrom false r else none
    else (ungroupFrom (isAsciiDigit c) r).map (c :: ·)

/-- The text without its underscores, all of which have to stand between two digits. -/
def ungroup? (t : Text) : Option Text := ungroupFrom false t

/-- The number that ASCII digits write. -/
def value (digits : Text) : Nat := digits.foldl (fun n c => n * 10 + (c.toNat - 48)) 0

/-- The ASCII digits of a number. -/
def digits (n : Nat) : Text := Nat.toDigits 10 n

/-- Whether a minus sign leads the text, and the text after a leading sign. -/
def takeSign : Text → Bool × Text
  | [] => (false, [])
  | c :: r => if c = '-' then (true, r) else if c = '+' then (false, r) else (false, c :: r)

end Numeral

/-- A number in scientific form, `coefficient * 10 ^ exponent`, with a sign that zero keeps. -/
structure Scientific where
  negative : Bool
  coefficient : Nat
  exponent : Int
deriving DecidableEq, Repr

namespace Scientific

/-- The exponent that a text writes: nothing, or `e` and a signed numeral. -/
def exponent? : Text → Option Int
  | [] => some 0
  | c :: r =>
    let (negative, digits) := Numeral.takeSign r
    if (c = 'e' || c = 'E') && !digits.isEmpty && digits.all isAsciiDigit then
      some (if negative then -(Numeral.value digits : Int) else Numeral.value digits)
    else none

/-- The number that an ASCII text writes: a sign, digits before or after a point, an exponent. -/
def read? (t : Text) : Option Scientific :=
  let (negative, t) := Numeral.takeSign t
  let whole := t.takeWhile isAsciiDigit
  let (fraction, rest) :=
    match t.dropWhile isAsciiDigit with
    | [] => (([] : Text), ([] : Text))
    | c :: r =>
      if c = '.' then (r.takeWhile isAsciiDigit, r.dropWhile isAsciiDigit) else ([], c :: r)
  if whole.isEmpty && fraction.isEmpty then none
  else
    (exponent? rest).map fun e =>
      ⟨negative, Numeral.value (whole ++ fraction), e - fraction.length⟩

/-- The digits with a point before the last `places` of them, zeros in front as needed. -/
def pointed (digits : Text) (places : Nat) : Text :=
  let filled := List.replicate (places + 1 - digits.length) '0' ++ digits
  let whole := filled.take (filled.length - places)
  if places = 0 then whole else whole ++ ['.'] ++ filled.drop (filled.length - places)

/-- Positional form without a sign: all digits, in their places. -/
def positional (s : Scientific) : Text :=
  match s.exponent with
  | .ofNat n =>
    if s.coefficient = 0 then ['0'] else Numeral.digits s.coefficient ++ List.replicate n '0'
  | .negSucc n => pointed (Numeral.digits s.coefficient) (n + 1)

/-- The sign of a number, as it is written: a minus or nothing. -/
def sign (negative : Bool) : Text := if negative then ['-'] else []

end Scientific

end FormEdits
