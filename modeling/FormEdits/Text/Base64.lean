import FormEdits.Text.Basic

/-! # Base 64

Bytes in groups of three become four digits of six bits. `digits` gives the digits alone; the
standard form writes them with `+` and `/` and pads the last group with `=`. Reading is lenient:
characters that are no digit are passed over, and only a last group that cannot be completed is
refused. -/

namespace FormEdits

namespace Base64

/-- The digits of the bytes; a last group of one or two bytes is filled up with zero bits. -/
def digits : List UInt8 → List Nat
  | a :: b :: c :: r =>
    a.toNat / 4 :: (a.toNat % 4 * 16 + b.toNat / 16) :: (b.toNat % 16 * 4 + c.toNat / 64) ::
      c.toNat % 64 :: digits r
  | [a, b] => [a.toNat / 4, a.toNat % 4 * 16 + b.toNat / 16, b.toNat % 16 * 4]
  | [a] => [a.toNat / 4, a.toNat % 4 * 16]
  | [] => []

/-- The letter of a digit; the last two digits of the alphabet are written as given. -/
def letter (c62 c63 : Char) (d : Nat) : Char :=
  if d < 26 then Char.ofNat (65 + d)
  else if d < 52 then Char.ofNat (71 + d)
  else if d < 62 then Char.ofNat (d - 4)
  else if d = 62 then c62 else c63

/-- The standard form, padded. -/
def encode (bs : List UInt8) : Text :=
  (digits bs).map (letter '+' '/') ++ List.replicate ((3 - bs.length % 3) % 3) '='

/-- The digit of a letter of the standard alphabet. -/
def digit? (c : Char) : Option Nat :=
  if 'A' ≤ c && c ≤ 'Z' then some (c.toNat - 65)
  else if 'a' ≤ c && c ≤ 'z' then some (c.toNat - 71)
  else if isAsciiDigit c then some (c.toNat + 4)
  else if c = '+' then some 62
  else if c = '/' then some 63
  else none

/-- Reads on with `held`, the digits of the group begun so far, and `pads`, the padding seen since
the last digit. -/
def decodeFrom : (held : List Nat) → (pads : Nat) → Text → Option (List UInt8)
  | held, _, [] => if held.isEmpty then some [] else none
  | held, pads, c :: r =>
    if c = '=' then
      if held.length ≥ 2 && held.length + pads + 1 ≥ 4 then
        match held with
        | [p, q] => some [UInt8.ofNat (p * 4 + q / 16)]
        | [p, q, s] => some [UInt8.ofNat (p * 4 + q / 16), UInt8.ofNat (q * 16 + s / 4)]
        | _ => none
      else decodeFrom held (if held.length ≥ 2 then pads + 1 else pads) r
    else
      match digit? c with
      | none => decodeFrom held pads r
      | some d =>
        match held with
        | [p, q, s] =>
          (decodeFrom [] 0 r).map
            ([UInt8.ofNat (p * 4 + q / 16), UInt8.ofNat (q * 16 + s / 4), UInt8.ofNat (s * 64 + d)]
              ++ ·)
        | _ => decodeFrom (held ++ [d]) 0 r

/-- The bytes that a text is a form of, if it is ASCII and its last group is complete. -/
def decode? (t : Text) : Option (List UInt8) :=
  if t.all (·.toNat < 128) then decodeFrom [] 0 t else none

end Base64

end FormEdits
