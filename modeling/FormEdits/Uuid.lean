import FormEdits.Text.Base64
import FormEdits.Text.Quoted

/-! # Unique identifiers

A random unique identifier is sixteen bytes, of which six bits are fixed: the version in the
seventh byte and the variant in the ninth. It is written in hexadecimal, in groups of 8, 4, 4, 4
and 12 digits, or as the label of a blank node. -/

namespace FormEdits

namespace Uuid

/-- The `count` low bytes of `n`, most significant first. -/
def bytesOf : (count n : Nat) → List UInt8
  | 0, _ => []
  | count + 1, n => bytesOf count (n / 256) ++ [UInt8.ofNat n]

/-- Sixteen bytes that carry the version and the variant of a random identifier. -/
def IsRandom (bs : List UInt8) : Prop :=
  bs.length = 16 ∧ (∀ b, bs[6]? = some b → b / 16 = 4) ∧ (∀ b, bs[8]? = some b → b / 64 = 2)

/-- The identifier with the given 128 bits, but for the fixed ones. -/
def ofBits (n : Nat) : List UInt8 :=
  ((bytesOf 16 n).modify 6 fun b => b % 16 + 64).modify 8 fun b => b % 64 + 128

def hex (bs : List UInt8) : Text := bs.flatMap fun b => Quoted.hex 2 b.toNat

/-- An identifier in groups of hexadecimal digits. -/
def text (bs : List UInt8) : Text :=
  List.intercalate "-" [hex (bs.take 4), hex ((bs.drop 4).take 2), hex ((bs.drop 6).take 2),
    hex ((bs.drop 8).take 2), hex (bs.drop 10)]

def urn (bs : List UInt8) : Text := "urn:uuid:" ++ text bs

/-- The blank node that is named by an identifier: its label is a `b` and the digits of the bytes
in base 64, the last two of which are both written as an underscore. -/
def blankNode (bs : List UInt8) : Text :=
  "_:b" ++ (Base64.digits bs).map (Base64.letter '_' '_')

end Uuid

end FormEdits
