/-! # Texts

A text is a list of characters, so that every fact about lists is a fact about texts. String
literals stand for texts wherever a text is expected. A text is taken apart at a character by
`cut?` and `cutOff` at its first occurrence, by `cutLast?` at the last one, and by `List.splitOn` at
all of them. -/

namespace FormEdits

abbrev Text := List Char

instance : Coe String Text := ⟨String.toList⟩

namespace Text

/-- The part of `t` before the first `sep`, and the part after it. -/
def cut? (sep : Char) : Text → Option (Text × Text)
  | [] => none
  | c :: r => if c = sep then some ([], r) else (cut? sep r).map fun s => (c :: s.1, s.2)

/-- The part of `t` before the last `sep`, and the part after it. -/
def cutLast? (sep : Char) : Text → Option (Text × Text)
  | [] => none
  | c :: r =>
    match cutLast? sep r with
    | some s => some (c :: s.1, s.2)
    | none => if c = sep then some ([], r) else none

/-- The part of `t` before the first `sep` and the part after it, which is empty if there is no
`sep`. -/
def cutOff (sep : Char) (t : Text) : Text × Text := (cut? sep t).getD (t, [])

/-- What follows `start` in `t`, if `t` begins with it. -/
def after? : (start t : Text) → Option Text
  | [], t => some t
  | _ :: _, [] => none
  | s :: ss, c :: r => if c = s then after? ss r else none

/-- Every occurrence of `old`, from the left and without overlap, becomes `new`. The number counts
the characters of an occurrence that are still to be dropped. -/
def replaceFrom (old new : Text) : Nat → Text → Text
  | _, [] => []
  | n + 1, _ :: r => replaceFrom old new n r
  | 0, c :: r =>
    if old.isPrefixOf (c :: r) then new ++ replaceFrom old new (old.length - 1) r
    else c :: replaceFrom old new 0 r

/-- Every occurrence of the non-empty text `old`, from the left and without overlap, becomes
`new`. -/
def replaceAll (old new t : Text) : Text := replaceFrom old new 0 t

/-- The ways to take a run of characters satisfying `p` off the front, longest run first. -/
def runs (p : Char → Bool) : Text → List (Text × Text)
  | [] => [([], [])]
  | c :: r =>
    if p c then (runs p r).map (fun s => (c :: s.1, s.2)) ++ [([], c :: r)] else [([], c :: r)]

/-- A text without its final line feed, if it ends in one. -/
def dropFinalLineFeed : Text → Text
  | [] => []
  | [c] => if c = '\n' then [] else [c]
  | c :: r => c :: dropFinalLineFeed r

/-- Lower case of the ASCII letters; other characters stay. -/
def asciiLower (t : Text) : Text := t.map Char.toLower

/-- Whether `t` comes before `u`, or is `u`, in the order of the numbers of their characters. -/
def precedes : (t u : Text) → Bool
  | [], _ => true
  | _ :: _, [] => false
  | c :: r, d :: s => c.toNat < d.toNat || (c = d && precedes r s)

/-- The characters whose number lies in one of the ranges, bounds included. -/
def inRanges (ranges : List (Nat × Nat)) (c : Char) : Bool :=
  ranges.any fun r => r.1 ≤ c.toNat && c.toNat ≤ r.2

end Text

/-- ASCII letters. -/
def isAsciiLetter (c : Char) : Bool := ('a' ≤ c && c ≤ 'z') || ('A' ≤ c && c ≤ 'Z')

/-- ASCII digits. -/
def isAsciiDigit (c : Char) : Bool := '0' ≤ c && c ≤ '9'

end FormEdits
