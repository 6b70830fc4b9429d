import FormEdits.Proofs.Text.Basic
import FormEdits.Rdf.Written
import FormEdits.Uri.Authority

/-! # Reading literals back

`quoted?` reads a text between quotes as SPARQL does, one or three quotes on each side. The number of
a character after a backslash counts before anything else there, wherever it stands, so that a text in
which one stands is not read. `Masked` is what such a text is between the quotes. What a text is
written as on one line is always masked; between three quotes it is so unless it ends in a backslash
and a double quote, which the closing quotes then follow (`Written.exists_block_eq`). -/

namespace FormEdits

namespace Sparql

/-- The letters after a backslash, with the characters that they stand for. -/
def escapes : List (Char × Char) :=
  [('t', '\t'), ('b', '\x08'), ('n', '\n'), ('r', '\r'), ('f', '\x0c'), ('\\', '\\'), ('"', '"'),
    ('\'', '\'')]

def escaped? (c : Char) : Option Char := escapes.lookup c

/-- Whether a text goes on, after a backslash, with the number of a character. -/
def isCodepoint : Text → Bool
  | [] => false
  | c :: r =>
    (c = 'u' && 4 ≤ (r.takeWhile Uri.isHexDigit).length) ||
      (c = 'U' && 8 ≤ (r.takeWhile Uri.isHexDigit).length)

/-- Reads a text up to its closing quotes, on one line or not. -/
def quoted? (quotes : Text) (oneLine : Bool) : Text → Option (Text × Text)
  | [] => none
  | '\\' :: c :: r =>
    if c = '\\' && isCodepoint r then none
    else
      match escaped? c, quoted? quotes oneLine r with
      | some c, some s => some (c :: s.1, s.2)
      | _, _ => none
  | c :: r =>
    match Text.after? quotes (c :: r) with
    | some rest => some ([], rest)
    | none =>
      if oneLine && (c = '\n' || c = '\r') then none
      else (quoted? quotes oneLine r).map fun s => (c :: s.1, s.2)

/-- The text `x` between quotes stands for `t`. -/
inductive Masked (quotes : Text) (oneLine : Bool) : (t x : Text) → Prop
  | nil : Masked quotes oneLine [] []
  | plain {c t x} : c ≠ '\\' → (∀ rest, Text.after? quotes (c :: x ++ quotes ++ rest) = none) →
      (oneLine = true → c ≠ '\n' ∧ c ≠ '\r') → Masked quotes oneLine t x →
        Masked quotes oneLine (c :: t) (c :: x)
  | escape {c e t x} : escaped? e = some c → Masked quotes oneLine t x →
      Masked quotes oneLine (c :: t) ('\\' :: e :: x)

/-- Whether a backslash begins the number of a character somewhere. -/
def hasCodepoint : Text → Bool
  | [] => false
  | c :: r => (c = '\\' && isCodepoint r) || hasCodepoint r

/-! ### Masked texts -/

section

variable {quotes : Text} {oneLine : Bool} {c e : Char} {t x rest : Text}

theorem plain_of_escaped? (h : escaped? e = some c) :
    Uri.isHexDigit c = false ∧ c ≠ 'u' ∧ c ≠ 'U' := by
  obtain ⟨before, after, hsplit, -⟩ := List.lookup_eq_some_iff.1 h
  have hall : ∀ p ∈ escapes, Uri.isHexDigit p.2 = false ∧ p.2 ≠ 'u' ∧ p.2 ≠ 'U' := by
    decide +kernel
  exact hall (e, c) (by simp [hsplit])

theorem Masked.takeWhile_isHexDigit (h : Masked quotes oneLine t x) :
    (x ++ '"' :: rest).takeWhile Uri.isHexDigit = t.takeWhile Uri.isHexDigit := by
  induction h with
  | nil => rfl
  | @plain c t x _ _ _ _ ih =>
    rw [List.cons_append, List.takeWhile_cons, List.takeWhile_cons, ih]
  | @escape c e t x he _ _ =>
    rw [List.cons_append, List.takeWhile_cons, List.takeWhile_cons, (plain_of_escaped? he).1]
    rfl

theorem Masked.isCodepoint_eq (h : Masked quotes oneLine t x) :
    isCodepoint (x ++ '"' :: rest) = isCodepoint t := by
  cases h with
  | nil => rfl
  | @plain c t x _ _ _ h =>
    rw [List.cons_append, isCodepoint, isCodepoint, h.takeWhile_isHexDigit]
  | @escape c e t x he h =>
    obtain ⟨-, hsmall, hlarge⟩ := plain_of_escaped? he
    simp [isCodepoint, hsmall, hlarge]

theorem hasCodepoint_cons : hasCodepoint (c :: t) = false ↔
    (c = '\\' → isCodepoint t = false) ∧ hasCodepoint t = false := by
  rw [hasCodepoint, Bool.or_eq_false_iff]
  simp

theorem Masked.quoted?_eq (h : Masked ('"' :: quotes) oneLine t x) (ht : hasCodepoint t = false)
    (rest : Text) :
    quoted? ('"' :: quotes) oneLine (x ++ '"' :: quotes ++ rest) = some (t, rest) := by
  induction h with
  | nil =>
    have hafter : Text.after? ('"' :: quotes) ('"' :: (quotes ++ rest)) = some rest :=
      Text.after?_eq_some_iff.2 rfl
    show quoted? ('"' :: quotes) oneLine ('"' :: (quotes ++ rest)) = _
    rw [quoted?, hafter]
    simp
  | @plain c t x hc hafter hline _ ih =>
    have hend : (oneLine && (c = '\n' || c = '\r')) = false := by
      cases oneLine with
      | false => rfl
      | true => simpa using hline rfl
    have hnone := hafter rest
    rw [List.append_assoc, List.cons_append] at hnone ⊢
    rw [quoted?, hnone, hend, ← List.append_assoc, ih (hasCodepoint_cons.1 ht).2]
    · rfl
    · rintro _ _ rfl
      exact fun _ => hc rfl
  | @escape c e t x he h ih =>
    obtain ⟨hhead, htail⟩ := hasCodepoint_cons.1 ht
    -- a second backslash stands for one of the text, and so what follows it there is no number
    have hno : (e = '\\' && isCodepoint (x ++ '"' :: quotes ++ rest)) = false := by
      by_cases hbackslash : e = '\\'
      · subst hbackslash
        have hc : c = '\\' := (Option.some.inj he).symm
        rw [List.append_assoc, List.cons_append, h.isCodepoint_eq, hhead hc]
        rfl
      · simp [hbackslash]
    show quoted? ('"' :: quotes) oneLine ('\\' :: e :: (x ++ '"' :: quotes ++ rest)) = _
    rw [quoted?, hno, he, ih htail]
    rfl

end

end Sparql

open Sparql

namespace Written

variable {c : Char} {r t x : Text}

/-! ### On one line -/

theorem masked_line (t : Text) : Masked ['"'] true t (t.flatMap escape) := by
  induction t with
  | nil => exact .nil
  | cons c t ih =>
    rw [List.flatMap_cons, escape]
    split
    · subst c; exact .escape rfl ih
    split
    · subst c; exact .escape rfl ih
    split
    · subst c; exact .escape rfl ih
    split
    · subst c; exact .escape rfl ih
    · rename_i hbackslash hquote hfeed hreturn
      refine .plain hbackslash (fun rest => ?_) (fun _ => ⟨hfeed, hreturn⟩) ih
      simp [Text.after?, hquote]

/-! ### Between three quotes -/

def doubled (c : Char) : Text := if c = '\\' then ['\\', '\\'] else [c]

/-- What a block is before its carriage returns are escaped, in one pass. -/
def blockBody : Text → Text
  | [] => []
  | ['"'] => ['\\', '"']
  | '"' :: '"' :: '"' :: r => ['\\', '"', '\\', '"', '\\', '"'] ++ blockBody r
  | c :: r => doubled c ++ blockBody r

theorem escapeLast_concat (hc : c ≠ '"') : escapeLast (t ++ [c]) = t ++ [c] := by
  rw [escapeLast, List.reverse_append]
  simp [hc]

theorem escapeLast_quote (hc : c ≠ '\\') :
    escapeLast (t ++ [c] ++ ['"']) = t ++ [c] ++ ['\\', '"'] := by
  rw [escapeLast, List.reverse_append, List.reverse_append]
  simp [hc]

theorem escapeLast_escaped : escapeLast (t ++ ['\\', '"']) = t ++ ['\\', '"'] := by
  rw [escapeLast, List.reverse_append]
  simp

theorem isPrefixOf_doubled {u : Text} (hc : c ≠ '"') (q : Text) :
    List.isPrefixOf ('"' :: q) (doubled c ++ u) = false := by
  rw [doubled]
  split
  · rfl
  · simp [List.isPrefixOf, Ne.symm hc]

theorem isPrefixOf_flatMap_doubled (h : ∀ r', t ≠ '"' :: '"' :: '"' :: r') :
    List.isPrefixOf ['"', '"', '"'] (t.flatMap doubled) = false := by
  rcases t with _ | ⟨c, t⟩
  · rfl
  by_cases hc : c = '"'
  · subst hc
    rcases t with _ | ⟨d, t⟩
    · rfl
    by_cases hd : d = '"'
    · subst hd
      rcases t with _ | ⟨e, t⟩
      · rfl
      · have he : e ≠ '"' := fun he => h t (by rw [he])
        exact isPrefixOf_doubled he []
    · exact isPrefixOf_doubled hd ['"']
  · exact isPrefixOf_doubled hc ['"', '"']

/-- The pass that escapes three double quotes in a row. -/
abbrev replaceQuotes (t : Text) : Text :=
  Text.replaceAll ['"', '"', '"'] ['\\', '"', '\\', '"', '\\', '"'] t

theorem replaceQuotes_cons (h : List.isPrefixOf ['"', '"', '"'] (c :: t) = false) :
    replaceQuotes (c :: t) = c :: replaceQuotes t := by
  rw [replaceQuotes, Text.replaceAll, Text.replaceFrom, h, if_neg Bool.false_ne_true]
  rfl

theorem replaceQuotes_flatMap (h : ∀ r', c :: r ≠ '"' :: '"' :: '"' :: r') :
    replaceQuotes ((c :: r).flatMap doubled) = doubled c ++ replaceQuotes (r.flatMap doubled) := by
  have hprefix := isPrefixOf_flatMap_doubled h
  rw [List.flatMap_cons] at hprefix ⊢
  by_cases hc : c = '\\'
  · subst hc
    rw [doubled, if_pos rfl] at hprefix ⊢
    exact (replaceQuotes_cons hprefix).trans (congrArg _ (replaceQuotes_cons rfl))
  · rw [doubled, if_neg hc] at hprefix ⊢
    exact replaceQuotes_cons hprefix

/-- The passes of the block one after another are the one pass, behind any text that the last of
them leaves alone. -/
theorem escapeLast_append_replaceQuotes (p : Text) (hnil : t = [] → escapeLast p = p)
    (hquote : t = ['"'] → ∃ p' c, p = p' ++ [c] ∧ c ≠ '\\') (ht : ¬ ['\\', '"'] <:+ t) :
    escapeLast (p ++ replaceQuotes (t.flatMap doubled)) = p ++ blockBody t := by
  -- what has been passed becomes the end of `p`, which is all that the last pass looks at
  induction t using blockBody.induct generalizing p with
  | case1 => simpa [replaceQuotes, Text.replaceAll, Text.replaceFrom, blockBody] using hnil rfl
  | case2 =>
    obtain ⟨p', c, rfl, hc⟩ := hquote rfl
    exact escapeLast_quote hc
  | case3 r ih =>
    have hp : p ++ ['\\', '"', '\\', '"', '\\', '"'] =
        p ++ ['\\', '"', '\\', '"'] ++ ['\\', '"'] := by simp
    have hr := ih (p ++ ['\\', '"', '\\', '"', '\\', '"'])
      (fun _ => by rw [hp, escapeLast_escaped])
      (fun _ => ⟨p ++ ['\\', '"', '\\', '"', '\\'], '"', by simp, by decide⟩)
      (fun h => ht (h.trans (List.suffix_append ['"', '"', '"'] r)))
    rw [List.append_assoc, List.append_assoc] at hr
    exact hr
  | case4 c r hone hthree ih =>
    have hsuffix : ¬ ['\\', '"'] <:+ r := fun h => ht (h.trans (List.suffix_cons c r))
    have hquotes : ∀ r', c :: r ≠ '"' :: '"' :: '"' :: r' := by
      rintro r' ⟨⟩
      exact hthree r' rfl rfl
    rw [replaceQuotes_flatMap hquotes, blockBody, ← List.append_assoc, ← List.append_assoc]
    · by_cases hc : c = '\\'
      · subst hc
        have hp : p ++ doubled '\\' = p ++ ['\\'] ++ ['\\'] := by simp [doubled]
        refine ih _ (fun _ => ?_) (fun h => ?_) hsuffix
        · rw [hp, escapeLast_concat (by decide)]
        · exact (ht (h ▸ List.suffix_refl _)).elim
      · have hp : p ++ doubled c = p ++ [c] := by rw [doubled, if_neg hc]
        refine ih _ (fun h => ?_) (fun _ => ⟨p, c, hp, hc⟩) hsuffix
        rw [hp, escapeLast_concat]
        rintro rfl
        exact hone rfl h
    · exact hone
    · exact hthree

theorem after?_of_masked {q : Text} (h : Masked ['"', '"', '"'] false t x) (hnil : t ≠ [])
    (ht : ∀ r, t ≠ '"' :: r) (rest : Text) : Text.after? ('"' :: q) (x ++ rest) = none := by
  cases h with
  | nil => exact (hnil rfl).elim
  | @plain c t x _ _ _ _ =>
    have hc : c ≠ '"' := fun hc => ht t (by rw [hc])
    simp [Text.after?, hc]
  | escape _ _ => rfl

/-- A double quote does not begin the closing quotes, if another character comes after it, or two. -/
theorem after?_quote_of_masked (h : Masked ['"', '"', '"'] false r x) (hone : r ≠ [])
    (hthree : ∀ r', r ≠ '"' :: '"' :: r') (rest : Text) :
    Text.after? ['"', '"', '"'] ('"' :: (x ++ rest)) = none := by
  show Text.after? ['"', '"'] (x ++ rest) = none
  cases h with
  | nil => exact (hone rfl).elim
  | escape _ _ => rfl
  | @plain c r x _ hafter _ h =>
    by_cases hc : c = '"'
    · subst hc
      show Text.after? ['"'] (x ++ rest) = none
      refine after?_of_masked h ?_ (fun r' hr => hthree r' (by rw [hr])) rest
      -- nothing after the second double quote would put the closing quotes here
      rintro rfl
      cases h
      cases hafter []
    · simp [Text.after?, hc]

theorem masked_blockBody (t : Text) : Masked ['"', '"', '"'] false t
    ((blockBody t).flatMap fun c => if c = '\r' then ['\\', 'r'] else [c]) := by
  induction t using blockBody.induct with
  | case1 => exact .nil
  | case2 => exact .escape rfl .nil
  | case3 r ih => exact .escape rfl (.escape rfl (.escape rfl ih))
  | case4 c r hone hthree ih =>
    rw [blockBody, List.flatMap_append]
    · by_cases hbackslash : c = '\\'
      · subst hbackslash
        exact .escape rfl ih
      by_cases hreturn : c = '\r'
      · subst hreturn
        exact .escape rfl ih
      rw [doubled, if_neg hbackslash, List.flatMap_singleton, if_neg hreturn]
      refine .plain hbackslash (fun rest => ?_) nofun ih
      by_cases hquote : c = '"'
      · subst hquote
        rw [List.append_assoc]
        exact after?_quote_of_masked ih (hone rfl) (hthree · rfl) _
      · simp [Text.after?, hquote]
    · exact hone
    · exact hthree

/-- A block is masked between its quotes, unless a backslash and a double quote are at its end: then
the double quote is not escaped, as if that backslash did it. -/
theorem exists_block_eq (hfeed : '\n' ∈ t) (ht : ¬ ['\\', '"'] <:+ t) : ∃ x,
    block t = ['"', '"', '"'] ++ x ++ ['"', '"', '"'] ∧ Masked ['"', '"', '"'] false t x := by
  refine ⟨_, ?_, masked_blockBody t⟩
  have hbody : escapeLast (replaceQuotes (t.flatMap doubled)) = blockBody t := by
    refine escapeLast_append_replaceQuotes [] (fun _ => rfl) (fun h => ?_) ht
    rw [h] at hfeed
    cases List.mem_singleton.1 hfeed
  rw [← hbody]
  rfl

end Written

end FormEdits
