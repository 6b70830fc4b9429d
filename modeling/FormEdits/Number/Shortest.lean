import FormEdits.Number.Numeral

/-! # Shortest decimals

The decimal with the fewest digits that reads back as a given binary number. All reals between the
two midpoints to its neighbours read back as the number, the midpoints themselves if its
significand is even. For one digit, two digits and so on, the two multiples of the power of ten
next to the number are tried; the first grid that has one of them inside wins, of two the closer,
and of two equally close ones the even multiple. All comparisons are exact. -/

namespace FormEdits

/-- A binary number `significand * 2 ^ exponent`. Its lower neighbour is half as far away as its
upper one if `narrow` is set. -/
structure Binary where
  significand : Nat
  exponent : Int
  narrow : Bool
deriving DecidableEq, Repr

namespace Binary

/-- The finite number that the bits of a double stand for, sign apart. -/
def ofBits (bits : UInt64) : Binary :=
  let e := ((bits >>> 52) &&& 0x7FF).toNat
  let f := (bits &&& 0xFFFFFFFFFFFFF).toNat
  if e = 0 then ⟨f, -1074, false⟩ else ⟨0x10000000000000 + f, (e : Int) - 1075, f = 0 && e > 1⟩

/-- Compares `c * 10 ^ g` with `b * 2 ^ e`. -/
def compareGrid (c : Nat) (g : Int) (b : Nat) (e : Int) : Ordering :=
  compare (c * Nat.pow 10 g.toNat * Nat.pow 2 (-e).toNat)
    (b * Nat.pow 2 e.toNat * Nat.pow 10 (-g).toNat)

/-- Whether `c * 10 ^ g` reads back as the number. -/
def readsBack (x : Binary) (c : Nat) (g : Int) : Bool :=
  let e := x.exponent - 2
  let low := compareGrid c g (4 * x.significand - (if x.narrow then 1 else 2)) e
  let high := compareGrid c g (4 * x.significand + 2) e
  let even := x.significand % 2 = 0
  (low = .gt || (even && low = .eq)) && (high = .lt || (even && high = .eq))

/-- The least `j` below `bound` with `den ≤ num * 10 ^ j`. -/
def scaleUp : (bound num den : Nat) → Nat
  | 0, _, _ => 0
  | bound + 1, num, den => if den ≤ num then 0 else scaleUp bound (num * 10) den + 1

/-- The `k` with `10 ^ (k - 1) ≤ x < 10 ^ k`, for a number other than zero. -/
def scale (x : Binary) : Int :=
  let num := x.significand * Nat.pow 2 x.exponent.toNat
  let den := Nat.pow 2 (-x.exponent).toNat
  if den ≤ num then ((Numeral.digits (num / den)).length : Int)
  else 1 - (scaleUp 400 num den : Int)

/-- The multiple of `10 ^ g` that reads back as the number and is closest to it, if one does. -/
def onGrid? (x : Binary) (g : Int) : Option Nat :=
  let num := x.significand * Nat.pow 2 x.exponent.toNat * Nat.pow 10 (-g).toNat
  let den := Nat.pow 2 (-x.exponent).toNat * Nat.pow 10 g.toNat
  let below := num / den
  match x.readsBack below g, x.readsBack (below + 1) g with
  | true, true =>
    match compare (2 * num) ((2 * below + 1) * den) with
    | .lt => some below
    | .gt => some (below + 1)
    | .eq => some (if below % 2 = 0 then below else below + 1)
  | true, false => some below
  | false, true => some (below + 1)
  | false, false => none

/-- Moves the zeros at the end of a coefficient, at most `bound` of them, to the exponent. -/
def strip : (bound coefficient : Nat) → (exponent : Int) → Nat × Int
  | 0, c, g => (c, g)
  | bound + 1, c, g => if c ≠ 0 ∧ c % 10 = 0 then strip bound (c / 10) (g + 1) else (c, g)

/-- The coefficient and the exponent of the shortest decimal that reads back as the number. -/
def shortest (x : Binary) : Nat × Int :=
  if x.significand = 0 then (0, 0)
  else
    let k := x.scale
    let found := (List.range 17).findSome? fun (n : Nat) =>
      let g := k - (n + 1 : Nat)
      (x.onGrid? g).map fun c => (c, g)
    match found with
    | some (c, g) => strip 20 c g
    | none =>
      (x.significand * Nat.pow 2 x.exponent.toNat * Nat.pow 5 (-x.exponent).toNat,
        if x.exponent < 0 then x.exponent else 0)

end Binary

end FormEdits
