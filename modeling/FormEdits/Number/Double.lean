import FormEdits.Number.Shortest

/-! # Doubles

A double is read from a scientific numeral, correctly rounded, or from the names of the infinities
and of NaN. It is written with the fewest digits that read back: positionally if its first digit
stands between the fourth place after the point and the sixteenth before it, with a signed
exponent of at least two digits otherwise. -/

namespace FormEdits

namespace Double

def infinity : Float := 1.0 / 0.0

def notANumber : Float := 0.0 / 0.0

/-- The double closest to a number, sign apart. Numbers far outside the range of doubles are not
computed. -/
def magnitude (s : Scientific) : Float :=
  let top := s.exponent + (Numeral.digits s.coefficient).length
  if s.coefficient = 0 || top < -400 then 0.0
  else if top > 400 then infinity
  else Float.ofScientific s.coefficient (s.exponent < 0) s.exponent.natAbs

/-- The double closest to a number. -/
def ofScientific (s : Scientific) : Float :=
  if s.negative then -(magnitude s) else magnitude s

/-- The double that a text writes. -/
def read? (t : Text) : Option Float := do
  let t ← Numeral.ungroup? (← Numeral.ascii? (Numeral.trim t))
  let (negative, body) := Numeral.takeSign t
  let name := Text.asciiLower body
  if name = "inf" || name = "infinity" then some (if negative then -infinity else infinity)
  else if name = "nan" then some notANumber
  else (Scientific.read? t).map ofScientific

/-- The decimal exponents of the first digit for which a double is written positionally. -/
def isPositional (firstDigit : Int) : Bool := -4 ≤ firstDigit && firstDigit < 16

/-- The form of the number `c * 10 ^ g`, sign apart. -/
def layout (c : Nat) (g : Int) : Text :=
  let digits := Numeral.digits c
  let first := g + digits.length - 1
  if c = 0 then "0.0"
  else if isPositional first then
    let s : Scientific := ⟨false, c, g⟩
    if g < 0 then s.positional else s.positional ++ ".0"
  else
    let point : Text := if digits.length = 1 then [] else ['.']
    let exponent := Numeral.digits first.natAbs
    digits.take 1 ++ point ++ digits.drop 1 ++ ['e', if first < 0 then '-' else '+']
      ++ List.replicate (2 - exponent.length) '0' ++ exponent

/-- The shortest form of a double that reads back. -/
def text (x : Float) : Text :=
  let bits := x.toBits
  let sign := Scientific.sign (bits >>> 63 != 0)
  if (bits >>> 52) &&& 0x7FF != 0x7FF then
    let (c, g) := (Binary.ofBits bits).shortest
    sign ++ layout c g
  else if bits &&& 0xFFFFFFFFFFFFF != 0 then "nan"
  else sign ++ "inf"

end Double

end FormEdits
