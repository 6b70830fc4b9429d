import FormEdits.Number.Numeral

/-! # Integers

An integer is read from digits of any script, with a sign, blanks around it and single underscores
between digits, and written with ASCII digits alone. Numerals of more than 4300 digits are not
read. -/

namespace FormEdits

namespace Integer

/-- The most digits that are read. -/
def maxDigits : Nat := 4300

/-- The integer that a text writes. -/
def read? (t : Text) : Option Int := do
  let ascii ← Numeral.ascii? (Numeral.trim t)
  let (negative, digits) := Numeral.takeSign (← Numeral.ungroup? ascii)
  if digits.isEmpty || !digits.all isAsciiDigit || digits.length > maxDigits then none
  else some (if negative then -(Numeral.value digits : Int) else Numeral.value digits)

/-- The plain form of an integer. -/
def text : Int → Text
  | .ofNat n => Numeral.digits n
  | .negSucc n => '-' :: Numeral.digits (n + 1)

end Integer

end FormEdits
