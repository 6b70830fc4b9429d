import FormEdits.Number.Numeral

/-! # Authorities of references

The authority of a reference may be any text, with three exceptions. Its brackets have to match; what
stands between them has to be an address of version six, or one of a later version after a `v`; and
no character of it may turn into a delimiter when compatibility characters are normalized. The first
of these that fails is the fault of the authority. -/

namespace FormEdits

namespace Uri

/-- Why an authority is refused. -/
inductive Fault
  | unbalancedBrackets
  | badFutureAddress
  | bracketedIpv4
  | notAddress (host : Text)
  | hiddenDelimiter (authority : Text)
deriving DecidableEq, Repr

/-! ### Addresses -/

/-- A decimal number below 256, without a needless zero in front. -/
def isOctet (t : Text) : Bool :=
  !t.isEmpty && t.length ≤ 3 && t.all isAsciiDigit && (t = ['0'] || t.head? ≠ some '0')
    && Numeral.value t < 256

def isIpv4 (t : Text) : Bool :=
  let octets := t.splitOn '.'
  octets.length = 4 && octets.all isOctet

def isHexDigit (c : Char) : Bool := (hexDigitValue? c).isSome

/-- Sixteen bits in hexadecimal digits. -/
def isGroup (t : Text) : Bool := !t.isEmpty && t.length ≤ 4 && t.all isHexDigit

/-- How many groups of sixteen bits there are, if each part is one. The last part may be a dotted
address instead, which stands for two. -/
def groupCount? : List Text → Option Nat
  | [] => some 0
  | [t] => if isGroup t then some 1 else if isIpv4 t then some 2 else none
  | t :: ts => if isGroup t then (groupCount? ts).map (· + 1) else none

/-- The texts before and after the first two colons in a row, which stand for groups of zeros. -/
def cutZeros? : Text → Option (Text × Text)
  | ':' :: ':' :: r => some ([], r)
  | c :: r => (cutZeros? r).map fun s => (c :: s.1, s.2)
  | [] => none

/-- The parts between colons; the empty text has none. -/
def groups (t : Text) : List Text := if t.isEmpty then [] else t.splitOn ':'

/-- Eight groups, or fewer of them with two colons in a row for the groups that are left out. -/
def isIpv6 (t : Text) : Bool :=
  match cutZeros? t with
  | none => groupCount? (groups t) = some 8
  | some (front, back) =>
    (groups front).all isGroup
      && (groupCount? (groups back)).any fun n => (groups front).length + n < 8

/-- An address of version six, which may name its zone after a percent sign. -/
def isZonedIpv6 (t : Text) : Bool :=
  match Text.cut? '%' t with
  | some (address, zone) => isIpv6 address && !zone.isEmpty && !zone.contains '%'
  | none => isIpv6 t

/-- An address of a later version, without the `v` in front: the version, a point, the address. -/
def isFutureAddress (t : Text) : Bool :=
  match Text.cut? '.' t with
  | some (version, address) => !version.isEmpty && version.all isHexDigit && !address.isEmpty
  | none => false

/-- What is wrong with the text between the brackets of an authority. -/
def hostFault? : Text → Option Fault
  | 'v' :: r => if isFutureAddress r then none else some .badFutureAddress
  | t =>
    if isIpv4 t then some .bracketedIpv4
    else if isZonedIpv6 t then none
    else some (.notAddress t)

/-! ### Authorities -/

/-- Both brackets or none of them. -/
def hasBalancedBrackets (t : Text) : Bool := t.contains '[' == t.contains ']'

/-- The text after the first opening bracket, up to a closing one. -/
def bracketed (t : Text) : Text := (Text.cutOff ']' (Text.cutOff '[' t).2).1

/-- The characters beyond ASCII that have one of `/`, `?`, `#`, `@` and `:` in their compatibility
decomposition, by version 14 of the Unicode character database. -/
def hidingDelimiter : List Nat := [
  0x2047, 0x2048, 0x2049, 0x2100, 0x2101, 0x2105, 0x2106, 0x2A74, 0xFE13, 0xFE16, 0xFE55, 0xFE56,
  0xFE5F, 0xFE6B, 0xFF03, 0xFF0F, 0xFF1A, 0xFF1F, 0xFF20]

def hidesDelimiter (c : Char) : Bool := hidingDelimiter.contains c.toNat

def authorityFault? (t : Text) : Option Fault :=
  if !hasBalancedBrackets t then some .unbalancedBrackets
  else
    let host := if t.contains '[' then hostFault? (bracketed t) else none
    host.or (if t.any hidesDelimiter then some (.hiddenDelimiter t) else none)

end Uri

end FormEdits
