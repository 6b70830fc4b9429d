import FormEdits.Proofs.Json.Document

/-! # What the writer writes

The writer escapes what cannot stand between quotes, and indents items by blanks. So what it writes
for members with texts and lists of texts is a document of these members
(`Json.writesDocument_object`). -/

namespace FormEdits

namespace Json

variable {α β : Type} {R : α → Text → Prop} {item : β → α} {written : β → Text}

theorem hexDigitValue?_hexDigit {n : Nat} (h : n < 16) :
    hexDigitValue? (Quoted.hexDigit n) = some n := by
  have hall : ∀ n < 16, hexDigitValue? (Quoted.hexDigit n) = some n := by decide
  exact hall n h

theorem hexValue4?_hexDigit {n : Nat} (h : n < 0x10000) :
    hexValue4? (Quoted.hexDigit (n / 16 / 16 / 16 % 16)) (Quoted.hexDigit (n / 16 / 16 % 16))
      (Quoted.hexDigit (n / 16 % 16)) (Quoted.hexDigit (n % 16)) = some n := by
  have hlt : ∀ k, k % 16 < 16 := fun k => Nat.mod_lt k (by decide)
  simp only [hexValue4?, hexDigitValue?_hexDigit (hlt _), Option.bind_eq_bind, Option.bind_some,
    Option.some.injEq]
  omega

theorem spells_escape (c : Char) : Spells c (escape c) := by
  unfold escape
  split
  · rename_i h
    simp only [Bool.or_eq_true, decide_eq_true_eq] at h
    refine .letter ?_
    rcases h with rfl | rfl <;> rfl
  rename_i hplain
  simp only [Bool.or_eq_true, decide_eq_true_eq, not_or] at hplain
  split
  · exact .letter (by subst c; rfl)
  split
  · exact .letter (by subst c; rfl)
  split
  · exact .letter (by subst c; rfl)
  split
  · exact .letter (by subst c; rfl)
  split
  · exact .letter (by subst c; rfl)
  split
  · rename_i hc
    exact .number (hexValue4?_hexDigit (by omega))
  · rename_i hc
    exact .plain hplain.1 hplain.2 (Nat.not_lt.1 hc)

theorem spellsAll_flatMap_escape (t : Text) : SpellsAll t (t.flatMap escape) := by
  induction t with
  | nil => exact .nil
  | cons c t ih => exact .cons (spells_escape c) ih

theorem quotes_quoted (t : Text) : Quotes t (quoted t) :=
  ⟨t.flatMap escape, spellsAll_flatMap_escape t, rfl⟩

/-! ### Items -/

theorem isBlanks_indent (n : Nat) : IsBlanks ('\n' :: List.replicate n ' ') := by
  intro c hc
  rcases List.mem_cons.1 hc with rfl | hc
  · simp
  · rw [List.eq_of_mem_replicate hc]
    simp

theorem separates_intercalate {bs : List β} {b b' : Text} (hne : bs ≠ []) (hb : IsBlanks b)
    (hb' : IsBlanks b') (h : ∀ x ∈ bs, R (item x) (written x)) :
    Separates R (bs.map item) ([','].intercalate (bs.map fun x => b ++ written x) ++ b') := by
  induction bs with
  | nil => exact absurd rfl hne
  | cons x xs ih =>
    obtain ⟨hx, hxs⟩ := List.forall_mem_cons.1 h
    cases xs with
    | nil =>
      rw [List.map_singleton, List.map_singleton, List.intercalate_singleton, List.append_assoc]
      exact .last hb hx hb'
    | cons y ys =>
      have hnone : IsBlanks [] := nofun
      have hrest := Separates.cons hb hx hnone (ih (List.cons_ne_nil _ _) hxs)
      simpa [List.intercalate_cons_cons] using hrest

theorem encloses_items {bs : List β} (level : Nat) (opening closing : Char)
    (h : ∀ x ∈ bs, R (item x) (written x)) :
    Encloses R opening closing (bs.map item) (items level opening closing (bs.map written)) := by
  by_cases hne : bs = []
  · subst hne
    exact Encloses.empty (b := []) nofun
  · have hu := separates_intercalate hne (isBlanks_indent (2 * (level + 1)))
      (isBlanks_indent (2 * level)) h
    have henclosed : Encloses R opening closing (bs.map item) _ := .items hu
    simpa [items, hne, Function.comp_def] using henclosed

/-! ### Documents -/

theorem writesValue_array (level : Nat) (ts : List Text) :
    WritesValue (.list (ts.map .text)) (array level (ts.map quoted)) := by
  have hquoted : ∀ t ∈ ts, Quotes (id t) (quoted t) := fun t _ => quotes_quoted t
  have hitems := encloses_items level '[' ']' hquoted
  rw [List.map_id] at hitems
  exact .list hitems

theorem writesDocument_object {bs : List β} {key : β → Text} {v : β → Value}
    (h : ∀ x ∈ bs, WritesValue (v x) (written x)) :
    WritesDocument (bs.map fun x => (key x, v x))
      (object 0 (bs.map fun x => (key x, written x))) := by
  have hmember : ∀ x ∈ bs, WritesMember (key x, v x) (quoted (key x) ++ ": " ++ written x) :=
    fun x hx => ⟨quoted (key x), [], [' '], written x, quotes_quoted (key x), nofun,
      by simp [IsBlanks], h x hx, by simp⟩
  refine ⟨[], [], _, nofun, nofun, encloses_items 0 '{' '}' hmember, ?_⟩
  rw [object, List.map_map, List.nil_append, List.append_nil]
  rfl

end Json

end FormEdits
