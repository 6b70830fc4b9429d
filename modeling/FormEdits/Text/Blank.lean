import FormEdits.Text.Basic

/-! # Blank characters, trimming and words

The blank characters are the white space of Unicode together with the four information separators
U+001C to U+001F. `words` gives the maximal runs of characters that are not blank. -/

namespace FormEdits

/-- White space of Unicode, and the information separators. -/
def isBlank : Char → Bool :=
  Text.inRanges [(0x09, 0x0D), (0x1C, 0x20), (0x85, 0x85), (0xA0, 0xA0), (0x1680, 0x1680),
    (0x2000, 0x200A), (0x2028, 0x2029), (0x202F, 0x202F), (0x205F, 0x205F), (0x3000, 0x3000)]

namespace Text

def trimStart (t : Text) : Text := t.dropWhile isBlank

def trimEnd (t : Text) : Text := (t.reverse.dropWhile isBlank).reverse

/-- The text without the blanks at its two ends. -/
def trim (t : Text) : Text := trimEnd (trimStart t)

/-- The words of a text: its maximal runs of characters that are not blank. -/
def words : Text → List Text
  | [] => []
  | c :: r =>
    if isBlank c then words r
    else if r.head?.all isBlank then [c] :: words r
    else (words r).modifyHead (c :: ·)

end Text

end FormEdits
