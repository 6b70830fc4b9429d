import FormEdits.Error
import FormEdits.Number.Double
import FormEdits.Number.Integer

/-! # Reading JSON

A document is one value with blanks around it. Beside the numbers of the format the words `NaN`,
`Infinity` and `-Infinity` are read, a key that is repeated keeps its place and takes its last
value, and half a surrogate pair becomes U+FFFD. The first problem is reported with its place. -/

namespace FormEdits

namespace Json

/-- What is wrong at a place of a document. -/
inductive Problem
  | byteOrderMark
  | noValue
  | noPropertyName
  | noColon
  | noComma
  | extraData
  | unterminated
  | controlCharacter
  | badEscape
  | badUnicodeEscape
deriving DecidableEq, Repr

def Problem.message : Problem → Text
  | byteOrderMark => "Unexpected UTF-8 BOM (decode using utf-8-sig)"
  | noValue => "Expecting value"
  | noPropertyName => "Expecting property name enclosed in double quotes"
  | noColon => "Expecting ':' delimiter"
  | noComma => "Expecting ',' delimiter"
  | extraData => "Extra data"
  | unterminated => "Unterminated string starting at"
  | controlCharacter => "Invalid control character at"
  | badEscape => "Invalid \\escape"
  | badUnicodeEscape => "Invalid \\uXXXX escape"

/-- Why a document cannot be read: a problem before the last `left` characters, or an integer with
too many digits. -/
inductive Fault
  | malformed (problem : Problem) (left : Nat)
  | tooManyDigits (count : Nat)
deriving DecidableEq, Repr

/-- A problem with its line, its column and its place in a document. -/
def place (document : Text) (problem : Problem) (left : Nat) : Text :=
  let position := document.length - left
  let before := document.take position
  let column := (before.reverse.takeWhile (· != '\n')).length + 1
  problem.message ++ ": line " ++ Numeral.digits (before.count '\n' + 1) ++ " column "
    ++ Numeral.digits column ++ " (char " ++ Numeral.digits position ++ ")"

/-- The result of reading something off the front of a text, with what follows it. -/
abbrev Reading (α : Type) := Except Fault (α × Text)

/-- Fails with a problem at the front of a text. -/
def failAt {α : Type} (problem : Problem) (t : Text) : Except Fault α :=
  .error (.malformed problem t.length)

/-- The text without the blanks at its front. -/
def skipBlanks (t : Text) : Text :=
  t.dropWhile fun c => c = ' ' || c = '\t' || c = '\n' || c = '\r'

/-! ### Texts -/

/-- The character that a letter after a backslash stands for. -/
def escaped? (c : Char) : Option Char :=
  if c = '"' || c = '\\' || c = '/' then some c
  else [('b', '\x08'), ('f', '\x0c'), ('n', '\n'), ('r', '\r'), ('t', '\t')].lookup c

/-- The number that four hexadecimal digits write. -/
def hexValue4? (a b c d : Char) : Option Nat := do
  let a ← hexDigitValue? a
  let b ← hexDigitValue? b
  let c ← hexDigitValue? c
  let d ← hexDigitValue? d
  some (((a * 16 + b) * 16 + c) * 16 + d)

def isHighSurrogate (n : Nat) : Bool := 0xD800 ≤ n && n < 0xDC00

def isLowSurrogate (n : Nat) : Bool := 0xDC00 ≤ n && n < 0xE000

/-- The character with a number; half a surrogate pair has none of its own. -/
def unit (n : Nat) : Char :=
  if isHighSurrogate n || isLowSurrogate n then '\uFFFD' else Char.ofNat n

/-- The character of a surrogate pair. -/
def pair (high low : Nat) : Char :=
  Char.ofNat (0x10000 + (high - 0xD800) * 0x400 + (low - 0xDC00))

/-- Puts a character before the text that is read. -/
def cons (c : Char) (r : Reading Text) : Reading Text := r.map fun s => (c :: s.1, s.2)

/-- Reads a text up to its closing quote; `start` characters are left at its opening one. After the
digits of an escape the document has to go on, and the second half of a pair only counts if it goes
on after that too. -/
def textFrom (start : Nat) : Text → Reading Text
  | [] => .error (.malformed .unterminated start)
  | '"' :: r => .ok ([], r)
  | ['\\'] => .error (.malformed .unterminated start)
  | '\\' :: 'u' :: a :: b :: c :: d :: '\\' :: 'u' :: e :: f :: g :: h :: x :: r =>
    match hexValue4? a b c d with
    | none => .error (.malformed .badUnicodeEscape (r.length + 12))
    | some high =>
      if isHighSurrogate high then
        match hexValue4? e f g h with
        | none => .error (.malformed .badUnicodeEscape (r.length + 6))
        | some low =>
          if isLowSurrogate low then cons (pair high low) (textFrom start (x :: r))
          else cons (unit high) (textFrom start ('\\' :: 'u' :: e :: f :: g :: h :: x :: r))
      else cons (unit high) (textFrom start ('\\' :: 'u' :: e :: f :: g :: h :: x :: r))
  | '\\' :: 'u' :: a :: b :: c :: d :: x :: r =>
    match hexValue4? a b c d with
    | none => .error (.malformed .badUnicodeEscape (r.length + 6))
    | some n => cons (unit n) (textFrom start (x :: r))
  | '\\' :: 'u' :: r => .error (.malformed .badUnicodeEscape (r.length + 1))
  | '\\' :: c :: r =>
    match escaped? c with
    | none => .error (.malformed .badEscape (r.length + 2))
    | some c => cons c (textFrom start r)
  | c :: r =>
    if c.toNat < 0x20 then failAt .controlCharacter (c :: r) else cons c (textFrom start r)

/-! ### Numbers -/

/-- The whole part at the front of a text: a zero, or digits that do not start with one. -/
def whole? : Text → Option (Text × Text)
  | [] => none
  | c :: r =>
    if c = '0' then some ([c], r)
    else if isAsciiDigit c then some (c :: r.takeWhile isAsciiDigit, r.dropWhile isAsciiDigit)
    else none

/-- The fraction at the front of a text, empty if there is none. -/
def fraction : Text → Text × Text
  | '.' :: d :: r =>
    if isAsciiDigit d then ('.' :: d :: r.takeWhile isAsciiDigit, r.dropWhile isAsciiDigit)
    else ([], '.' :: d :: r)
  | t => ([], t)

/-- The exponent at the front of a text, empty if there is none. -/
def exponent (t : Text) : Text × Text :=
  match t with
  | [] => ([], [])
  | e :: r =>
    let (sign, digits) : Text × Text :=
      match r with
      | '-' :: r' => (['-'], r')
      | '+' :: r' => (['+'], r')
      | _ => ([], r)
    if (e = 'e' || e = 'E') && digits.head?.any isAsciiDigit then
      (e :: sign ++ digits.takeWhile isAsciiDigit, digits.dropWhile isAsciiDigit)
    else ([], t)

/-- The number of digits that an integer may have. -/
def maxDigits : Nat := 4300

def number (t : Text) : Reading Value :=
  let (sign, body) : Text × Text :=
    match t with
    | '-' :: r => (['-'], r)
    | _ => ([], t)
  match whole? body with
  | none => failAt .noValue t
  | some (digits, r) =>
    let (decimals, r) := fraction r
    let (power, r) := exponent r
    if decimals.isEmpty && power.isEmpty then
      if digits.length > maxDigits then .error (.tooManyDigits digits.length)
      else
        let n : Int := Numeral.value digits
        .ok (.int (if sign.isEmpty then n else -n), r)
    else
      let x := (Double.read? (sign ++ digits ++ decimals ++ power)).getD Double.notANumber
      .ok (.float x, r)

/-! ### Values -/

/-- The values that are written as words. -/
def words : List (Text × Value) :=
  [("null", .null), ("true", .bool true), ("false", .bool false),
    ("NaN", .float Double.notANumber), ("Infinity", .float Double.infinity),
    ("-Infinity", .float (-Double.infinity))]

def word? (t : Text) : Option (Value × Text) :=
  words.findSome? fun w => (Text.after? w.1 t).map fun r => (w.2, r)

/-- The object with the given members, in which keys may repeat. -/
def objectOf (members : List (Text × Value)) : Value :=
  .mapping ((Assoc.ofEntries members).map fun m => (.text m.1, m.2))

mutual

/-- Reads a value. The first argument bounds the number of values, items and members that are begun
one after the other or one in the other. -/
def value : Nat → Text → Reading Value
  | 0, t => failAt .noValue t
  | bound + 1, t =>
    match t with
    | [] => failAt .noValue t
    | c :: r =>
      if c = '"' then (textFrom t.length r).map fun s => (.text s.1, s.2)
      else if c = '{' then
        match skipBlanks r with
        | '}' :: r' => .ok (.mapping [], r')
        | r' => (members bound r').map fun s => (objectOf s.1, s.2)
      else if c = '[' then
        match skipBlanks r with
        | ']' :: r' => .ok (.list [], r')
        | r' => (elements bound r').map fun s => (.list s.1, s.2)
      else
        match word? t with
        | some w => .ok w
        | none => number t

def members : Nat → Text → Except Fault (List (Text × Value) × Text)
  | 0, t => failAt .noValue t
  | bound + 1, t =>
    match t with
    | '"' :: r => do
      let (key, r) ← textFrom t.length r
      match skipBlanks r with
      | ':' :: r => do
        let (v, r) ← value bound (skipBlanks r)
        match skipBlanks r with
        | '}' :: r => .ok ([(key, v)], r)
        | ',' :: r => (members bound (skipBlanks r)).map fun s => ((key, v) :: s.1, s.2)
        | r => failAt .noComma r
      | r => failAt .noColon r
    | _ => failAt .noPropertyName t

def elements : Nat → Text → Except Fault (List Value × Text)
  | 0, t => failAt .noValue t
  | bound + 1, t => do
    let (v, r) ← value bound t
    match skipBlanks r with
    | ']' :: r => .ok ([v], r)
    | ',' :: r => (elements bound (skipBlanks r)).map fun s => (v :: s.1, s.2)
    | r => failAt .noComma r

end

/-- The value that a document writes. -/
def read (document : Text) : Except Fault Value := do
  if document.head? = some '\uFEFF' then failAt .byteOrderMark document
  else
    let (v, r) ← value (2 * document.length + 1) (skipBlanks document)
    match skipBlanks r with
    | [] => .ok v
    | r => failAt .extraData r

end Json

end FormEdits
