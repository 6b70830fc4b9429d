import FormEdits.Text.Basic

/-! # UTF-8

Reading bytes as UTF-8, either strictly, where the first ill-formed part is reported with its
place, or leniently, where each ill-formed part becomes U+FFFD. An ill-formed part is a byte that
starts no sequence, or as much of a sequence as is well formed before it breaks off. -/

namespace FormEdits

namespace Utf8

/-- What is wrong with an ill-formed part. -/
inductive Flaw
  | invalidStart
  | invalidContinuation
  | unexpectedEnd
deriving DecidableEq, Repr

/-- The first ill-formed part of a sequence of bytes: its bytes, its place and what is wrong. -/
structure Fault where
  bytes : List UInt8
  position : Nat
  flaw : Flaw
deriving DecidableEq, Repr

/-- What stands at the front of a sequence of bytes, and how many bytes it takes up. -/
inductive Front
  | char (c : Char) (size : Nat)
  | illFormed (size : Nat) (flaw : Flaw)

/-- Reads `count` continuation bytes, the first of them between `low` and `high`. The bytes before
them number `taken` and carry `value`. -/
def continuation : (count value taken low high : Nat) → List UInt8 → Front
  | 0, value, taken, _, _, _ => .char (Char.ofNat value) taken
  | _ + 1, _, taken, _, _, [] => .illFormed taken .unexpectedEnd
  | count + 1, value, taken, low, high, b :: bs =>
    if low ≤ b.toNat && b.toNat ≤ high then
      continuation count (value * 64 + b.toNat % 64) (taken + 1) 0x80 0xBF bs
    else .illFormed taken .invalidContinuation

/-- The front of a sequence that starts with the byte `b`. -/
def front (b : UInt8) (bs : List UInt8) : Front :=
  let n := b.toNat
  if n < 0x80 then .char (Char.ofNat n) 1
  else if n < 0xC2 then .illFormed 1 .invalidStart
  else if n < 0xE0 then continuation 1 (n % 32) 1 0x80 0xBF bs
  else if n = 0xE0 then continuation 2 (n % 16) 1 0xA0 0xBF bs
  else if n = 0xED then continuation 2 (n % 16) 1 0x80 0x9F bs
  else if n < 0xF0 then continuation 2 (n % 16) 1 0x80 0xBF bs
  else if n = 0xF0 then continuation 3 (n % 8) 1 0x90 0xBF bs
  else if n < 0xF4 then continuation 3 (n % 8) 1 0x80 0xBF bs
  else if n = 0xF4 then continuation 3 (n % 8) 1 0x80 0x8F bs
  else .illFormed 1 .invalidStart

/-- Strict reading from a position on, where the first `skip` bytes are already read. -/
def decodeFrom : (position skip : Nat) → List UInt8 → Except Fault Text
  | _, _, [] => .ok []
  | position, skip + 1, _ :: bs => decodeFrom (position + 1) skip bs
  | position, 0, b :: bs =>
    match front b bs with
    | .char c size => (decodeFrom (position + 1) (size - 1) bs).map (c :: ·)
    | .illFormed size flaw => .error ⟨(b :: bs).take size, position, flaw⟩

/-- The text that the bytes are the UTF-8 form of. -/
def decode (bs : List UInt8) : Except Fault Text := decodeFrom 0 0 bs

/-- Lenient reading, where the first `skip` bytes are already read. -/
def decodeLenientFrom : (skip : Nat) → List UInt8 → Text
  | _, [] => []
  | skip + 1, _ :: bs => decodeLenientFrom skip bs
  | 0, b :: bs =>
    match front b bs with
    | .char c size => c :: decodeLenientFrom (size - 1) bs
    | .illFormed size _ => '\uFFFD' :: decodeLenientFrom (size - 1) bs

/-- The text of the bytes, with U+FFFD for each ill-formed part. -/
def decodeLenient (bs : List UInt8) : Text := decodeLenientFrom 0 bs

/-- The UTF-8 form of a text. -/
def encode (t : Text) : List UInt8 := t.flatMap String.utf8EncodeChar

end Utf8

end FormEdits
