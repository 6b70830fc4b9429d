import FormEdits.Proofs.Edit.Written
import FormEdits.Proofs.Key.Template
import FormEdits.Proofs.Rdf.Quoted

/-! # Tokens of a SPARQL update

The part of SPARQL 1.1 that updates are written in, cut into tokens: terms and variables, words,
braces, points and semicolons, with blanks between them. What stands in no update that is written here
is no token: prefixed names, numbers, labels of blank nodes, comments and numbers of characters. A
text spells tokens if these are read off it whatever stands behind it (`Spells`), and the terms that
are read as they were before they were written are the readable ones (`spells_slot`). -/

namespace FormEdits

namespace Sparql

inductive Token
  | slot (s : Slot)
  | word (w : Text)
  | opening
  | closing
  | point
  | semicolon
deriving DecidableEq, Repr

def isSpace (c : Char) : Bool := c = ' ' || c = '\t' || c = '\r' || c = '\n'

/-- The characters of an IRI between angle brackets. -/
def isIriChar (c : Char) : Bool := 0x20 < c.toNat && !Written.isForbidden c

def isVariableChar (c : Char) : Bool := isAsciiLetter c || isAsciiDigit c || c = '_'

def isTagChar (c : Char) : Bool := isAsciiLetter c || isAsciiDigit c || c = '-'

/-! ### Reading -/

/-- Reads an IRI after its opening bracket. No base is declared, and so it stands for itself. -/
def iri? (t : Text) : Option (Text × Text) :=
  match t.dropWhile isIriChar with
  | [] => none
  | c :: rest => if c = '>' then some (t.takeWhile isIriChar, rest) else none

/-- Reads what makes a literal of a text: a language, a datatype or nothing. -/
def suffixed? (text t : Text) : Option (Literal × Text) :=
  match Text.after? "@" t, Text.after? "^^<" t with
  | some r, _ =>
    let tag := r.takeWhile isTagChar
    if isLanguageTag tag then some (.inLanguage text tag, r.dropWhile isTagChar) else none
  | none, some r => (iri? r).map fun s => (.ofDatatype text s.1, s.2)
  | none, none => some (.plain text, t)

/-- Reads a literal after its first quote. -/
def literal? (t : Text) : Option (Literal × Text) :=
  match Text.after? ['"', '"'] t with
  | some r => (quoted? ['"', '"', '"'] false r).bind fun s => suffixed? s.1 s.2
  | none => (quoted? ['"'] true t).bind fun s => suffixed? s.1 s.2

/-- Reads a token off the front of a text. The words are taken without their case. -/
def token? : Text → Option (Token × Text)
  | [] => none
  | c :: r =>
    if c = '\x7b' then some (.opening, r)
    else if c = '\x7d' then some (.closing, r)
    else if c = '.' then some (.point, r)
    else if c = ';' then some (.semicolon, r)
    else if c = '<' then (iri? r).map fun s => (.slot (.term (.iri s.1)), s.2)
    else if c = '"' then (literal? r).map fun s => (.slot (.term (.literal s.1)), s.2)
    else if c = '?' then
      let name := r.takeWhile isVariableChar
      if name.isEmpty then none else some (.slot (.variable name), r.dropWhile isVariableChar)
    else if isAsciiLetter c then
      some (.word (Text.asciiLower ((c :: r).takeWhile isAsciiLetter)),
        (c :: r).dropWhile isAsciiLetter)
    else none

/-- The tokens of a text. The number counts the characters of a token that are still to be
dropped. -/
def tokensFrom : Nat → Text → Option (List Token)
  | _, [] => some []
  | n + 1, _ :: r => tokensFrom n r
  | 0, c :: r =>
    if isSpace c then tokensFrom 0 r
    else
      match token? (c :: r) with
      | none => none
      | some (token, rest) => (tokensFrom (r.length - rest.length) r).map (token :: ·)

def tokens? (t : Text) : Option (List Token) := tokensFrom 0 t

/-! ### Spelling -/

/-- The text is read as the tokens, whatever stands behind it. -/
def Spells (w : Text) (ts : List Token) : Prop :=
  ∀ rest, tokens? (w ++ rest) = (tokens? rest).map (ts ++ ·)

variable {c : Char} {w w' t rest : Text} {ts ts' : List Token} {token : Token}

theorem tokensFrom_append (w rest : Text) : tokensFrom w.length (w ++ rest) = tokens? rest := by
  induction w with
  | nil => rfl
  | cons c w ih => exact ih

theorem token?_of_isSpace (h : isSpace c) : token? (c :: t) = none := by
  simp only [isSpace, Bool.or_eq_true, decide_eq_true_eq] at h
  rcases h with ((rfl | rfl) | rfl) | rfl
  · rfl
  · rfl
  · rfl
  · rfl

theorem tokens?_of_token? (hne : w ≠ []) (h : token? (w ++ rest) = some (token, rest)) :
    tokens? (w ++ rest) = (tokens? rest).map (token :: ·) := by
  rcases w with _ | ⟨c, w⟩
  · exact (hne rfl).elim
  have hc : isSpace c = false := by
    by_contra hc
    rw [List.cons_append, token?_of_isSpace (by simpa using hc)] at h
    cases h
  -- the characters of the token behind its first one are dropped one by one
  have hlength : (w ++ rest).length - rest.length = w.length := by simp
  rw [List.cons_append] at h ⊢
  rw [tokens?, tokensFrom, hc, if_neg Bool.false_ne_true, h]
  dsimp only
  rw [hlength, tokensFrom_append]

namespace Spells

theorem nil : Spells [] [] := fun rest => by
  rw [List.nil_append]
  cases tokens? rest <;> rfl

theorem append (h : Spells w ts) (h' : Spells w' ts') : Spells (w ++ w') (ts ++ ts') := by
  intro rest
  rw [List.append_assoc, h, h', Option.map_map]
  congr 1
  funext us
  exact (List.append_assoc ts ts' us).symm

theorem of_token? (hne : w ≠ []) (h : ∀ rest, token? (w ++ rest) = some (token, rest)) :
    Spells w [token] := fun rest => tokens?_of_token? hne (h rest)

theorem space (h : isSpace c) : Spells [c] [] := by
  intro rest
  show tokensFrom 0 (c :: rest) = _
  rw [tokensFrom, if_pos h]
  exact nil rest

theorem of_token?_space (hne : w ≠ [])
    (h : ∀ rest, token? (w ++ ' ' :: rest) = some (token, ' ' :: rest)) :
    Spells (w ++ [' ']) [token] := by
  intro rest
  rw [List.append_assoc, List.singleton_append, tokens?_of_token? hne (h rest)]
  rfl

theorem spaces (h : w.all isSpace) : Spells w [] := by
  induction w with
  | nil => exact nil
  | cons c w ih =>
    simp only [List.all_cons, Bool.and_eq_true] at h
    exact (space h.1).append (ih h.2)

theorem flatMap {α : Type} {f : α → Text} {g : α → List Token} {as : List α}
    (h : ∀ a ∈ as, Spells (f a) (g a)) : Spells (as.flatMap f) (as.flatMap g) := by
  induction as with
  | nil => exact nil
  | cons a as ih =>
    rw [List.forall_mem_cons] at h
    rw [List.flatMap_cons, List.flatMap_cons]
    exact h.1.append (ih h.2)

theorem tokens?_eq (h : Spells w ts) : tokens? w = some ts := by
  have hw := h []
  rw [List.append_nil] at hw
  rw [hw]
  exact congrArg some (List.append_nil ts)

theorem opening : Spells ['\x7b'] [.opening] := of_token? (List.cons_ne_nil _ _) fun _ => rfl

theorem closing : Spells ['\x7d'] [.closing] := of_token? (List.cons_ne_nil _ _) fun _ => rfl

theorem point : Spells ['.'] [.point] := of_token? (List.cons_ne_nil _ _) fun _ => rfl

theorem semicolon : Spells [';'] [.semicolon] := of_token? (List.cons_ne_nil _ _) fun _ => rfl

end Spells

/-! ### Words and variables -/

theorem Spells.word {w : Text} (hne : w ≠ []) (h : w.all isAsciiLetter) :
    Spells (w ++ [' ']) [.word (Text.asciiLower w)] := by
  refine .of_token?_space hne fun rest => ?_
  rcases w with _ | ⟨c, w⟩
  · exact (hne rfl).elim
  have hc : isAsciiLetter c := by simp only [List.all_cons, Bool.and_eq_true] at h; exact h.1
  have hsign : ∀ d : Char, isAsciiLetter d = false → c ≠ d := by
    rintro d hd rfl
    rw [hc] at hd
    cases hd
  have hspace : ∀ d ∈ (' ' :: rest).head?, isAsciiLetter d = false := by
    rintro d ⟨⟩
    decide
  have htake := Text.takeWhile_append_of_head h hspace
  have hdrop := Text.dropWhile_append_of_head h hspace
  rw [List.cons_append] at htake hdrop ⊢
  rw [token?, if_neg (hsign _ (by decide)), if_neg (hsign _ (by decide)), if_neg (hsign _ (by decide)),
    if_neg (hsign _ (by decide)), if_neg (hsign _ (by decide)), if_neg (hsign _ (by decide)),
    if_neg (hsign _ (by decide)), if_pos hc, htake, hdrop]

theorem Spells.variable {x : Text} (hne : x ≠ []) (h : x.all isVariableChar) :
    Spells ('?' :: x ++ [' ']) [.slot (.variable x)] := by
  refine .of_token?_space (List.cons_ne_nil _ _) fun rest => ?_
  have hspace : ∀ d ∈ (' ' :: rest).head?, isVariableChar d = false := by
    rintro d ⟨⟩
    decide
  show (if (List.takeWhile isVariableChar (x ++ ' ' :: rest)).isEmpty then none
    else some (Token.slot (.variable (List.takeWhile isVariableChar (x ++ ' ' :: rest))),
      List.dropWhile isVariableChar (x ++ ' ' :: rest))) = _
  rw [Text.takeWhile_append_of_head h hspace, Text.dropWhile_append_of_head h hspace,
    if_neg (by simpa using hne)]

/-! ### Terms -/

theorem iri?_append (h : t.all isIriChar) (rest : Text) :
    iri? (t ++ '>' :: rest) = some (t, rest) := by
  have hend : ∀ c ∈ ('>' :: rest).head?, isIriChar c = false := by
    rintro c ⟨⟩
    decide
  rw [iri?, Text.dropWhile_append_of_head h hend, Text.takeWhile_append_of_head h hend]
  rfl

end Sparql

/-- A literal that is written as a literal of SPARQL which stands for it. It holds no number of a
character after a backslash. If it has several lines, no backslash and double quote are at its end.
It is none of the special numbers, which are written by other names. Its tag is one of the grammar,
and so is the IRI of its datatype. -/
structure Literal.IsReadable (l : Literal) : Prop where
  codepoint : Sparql.hasCodepoint l.text = false
  lastLine : '\n' ∈ l.text → ¬ ['\\', '"'] <:+ l.text
  number : ∀ quoted, Written.specialNumbers l quoted = quoted
  language : ∀ tag, l.language = some tag → isLanguageTag tag
  datatype : ∀ iri, l.datatype = some iri → iri.all Sparql.isIriChar

/-- A term that is written as a term of SPARQL which stands for it. -/
def Term.IsReadable : Term → Prop
  | .iri t => t.all Sparql.isIriChar
  | .blank _ => False
  | .literal l => l.IsReadable

namespace Sparql

variable {l : Literal}

theorem suffixed?_suffix (h : l.IsReadable) (rest : Text) :
    suffixed? l.text (Written.suffix l ++ ' ' :: rest) = some (l, ' ' :: rest) := by
  cases l with
  | plain t => rfl
  | inLanguage t tag =>
    have htag : isLanguageTag tag := h.language tag rfl
    have hchars : tag.all isTagChar := by
      rw [List.all_eq_true]
      intro c hc
      rcases mem_of_isLanguageTag htag hc with rfl | hc | hc
      · decide
      · simp [isTagChar, hc]
      · simp [isTagChar, hc]
    have hspace : ∀ d ∈ (' ' :: rest).head?, isTagChar d = false := by
      rintro d ⟨⟩
      decide
    show (if isLanguageTag (List.takeWhile isTagChar (tag ++ ' ' :: rest)) then
      some (Literal.inLanguage t (List.takeWhile isTagChar (tag ++ ' ' :: rest)),
        List.dropWhile isTagChar (tag ++ ' ' :: rest)) else none) = _
    rw [Text.takeWhile_append_of_head hchars hspace, Text.dropWhile_append_of_head hchars hspace,
      if_pos htag]
  | ofDatatype t iri =>
    have hafter : Text.after? "^^<" (Written.suffix (.ofDatatype t iri) ++ ' ' :: rest) =
        some (iri ++ '>' :: ' ' :: rest) := by
      rw [Text.after?_eq_some_iff, Written.suffix]
      simp
    have hnone : Text.after? "@" (Written.suffix (.ofDatatype t iri) ++ ' ' :: rest) = none := rfl
    rw [suffixed?, hafter, hnone]
    dsimp only
    rw [iri?_append (h.datatype iri rfl)]
    rfl

/-- No text on one line begins like a block. -/
theorem after?_of_masked_line {x : Text} (h : Masked ['"'] true t x) (l : Literal) (rest : Text) :
    Text.after? ['"', '"'] (x ++ '"' :: (Written.suffix l ++ ' ' :: rest)) = none := by
  cases h with
  | nil => cases l <;> rfl
  | @plain c t x _ hafter _ _ =>
    have hc : c ≠ '"' := by
      rintro rfl
      cases hafter []
    simp [Text.after?, hc]
  | escape _ _ => rfl

theorem exists_literal?_eq (h : l.IsReadable) : ∃ w, Written.literal l = '"' :: w ∧
    ∀ rest, literal? (w ++ ' ' :: rest) = some (l, ' ' :: rest) := by
  rw [Written.literal, h.number]
  by_cases hfeed : '\n' ∈ l.text
  · obtain ⟨body, hblock, hmasked⟩ := Written.exists_block_eq hfeed (h.lastLine hfeed)
    rw [if_pos (by simpa using hfeed), hblock]
    refine ⟨['"', '"'] ++ (body ++ ['"', '"', '"'] ++ Written.suffix l), by simp, fun rest => ?_⟩
    have hread := hmasked.quoted?_eq h.codepoint (Written.suffix l ++ ' ' :: rest)
    rw [List.append_assoc, literal?, Text.after?_eq_some_iff.2 rfl]
    dsimp only
    rw [List.append_assoc, hread]
    exact suffixed?_suffix h rest
  · have hmasked := Written.masked_line l.text
    rw [if_neg (by simpa using hfeed), Written.line]
    refine ⟨l.text.flatMap Written.escape ++ '"' :: Written.suffix l, by simp, fun rest => ?_⟩
    have hread := hmasked.quoted?_eq h.codepoint (Written.suffix l ++ ' ' :: rest)
    rw [List.append_assoc, List.cons_append, List.nil_append] at hread
    rw [List.append_assoc, List.cons_append, literal?, after?_of_masked_line hmasked, hread]
    exact suffixed?_suffix h rest

/-! ### Places in a pattern -/

/-- A place in a pattern that is written as one of SPARQL which stands for it. -/
def Slot.IsReadable : Slot → Prop
  | .term t => t.IsReadable
  | .variable x => x ≠ [] ∧ x.all isVariableChar
  | .missing => False

theorem spells_slot {s : Slot} (hs : s.IsReadable) (h : s.WrittenAs w) :
    Spells (w ++ [' ']) [.slot s] := by
  rcases s with t | x | _
  · cases t with
    | blank label => exact hs.elim
    | iri t =>
      have hiri : Written.iri t = .ok w := h
      rw [Written.iri] at hiri
      split at hiri
      · cases hiri
      · cases hiri
        refine .of_token?_space (by simp) fun rest => ?_
        have hread := iri?_append hs (' ' :: rest)
        show (iri? (t ++ ['>'] ++ ' ' :: rest)).map (fun s => (Token.slot (.term (.iri s.1)), s.2)) = _
        rw [List.append_assoc, List.singleton_append, hread]
        rfl
    | literal l =>
      obtain ⟨w', hw, hread⟩ := exists_literal?_eq hs
      cases h
      rw [hw]
      refine .of_token?_space (List.cons_ne_nil _ _) fun rest => ?_
      show (literal? (w' ++ ' ' :: rest)).map (fun s => (Token.slot (.term (.literal s.1)), s.2)) = _
      rw [hread]
      rfl
  · rw [show w = '?' :: x from h]
    exact .variable hs.1 hs.2
  · exact hs.elim

end Sparql

end FormEdits
