import FormEdits.Json.Read
import FormEdits.Json.Written
import FormEdits.Proofs.Assoc

/-! # Documents of texts and lists of texts

`Json.WritesDocument ms t` says that `t` is a document of one object with the members `ms`, whose
values are texts and lists of texts, by whatever blanks and escapes. The reader gives these members
back (`Json.read_of_writesDocument`). -/

namespace FormEdits

namespace Json

/-! ### What is written -/

/-- Blanks between the parts of a document. -/
def IsBlanks (b : Text) : Prop := ∀ c ∈ b, c = ' ' ∨ c = '\t' ∨ c = '\n' ∨ c = '\r'

/-- What stands for a character between quotes: itself, a letter after a backslash, or its number,
as that of two surrogates if four digits are not enough. -/
inductive Spells : Char → Text → Prop
  | plain {c : Char} (hq : c ≠ '"') (hb : c ≠ '\\') (hc : 0x20 ≤ c.toNat) : Spells c [c]
  | letter {c d : Char} (h : escaped? d = some c) : Spells c ['\\', d]
  | number {x a b c d : Char} (h : hexValue4? a b c d = some x.toNat) :
      Spells x ['\\', 'u', a, b, c, d]
  | surrogates {a b c d e f g h : Char} {high low : Nat} (hhigh : hexValue4? a b c d = some high)
      (hlow : hexValue4? e f g h = some low) (hh : isHighSurrogate high) (hl : isLowSurrogate low) :
      Spells (pair high low) ['\\', 'u', a, b, c, d, '\\', 'u', e, f, g, h]

inductive SpellsAll : Text → Text → Prop
  | nil : SpellsAll [] []
  | cons {c : Char} {t u v : Text} (hc : Spells c u) (ht : SpellsAll t v) :
      SpellsAll (c :: t) (u ++ v)

/-- The text between two quotes. -/
def Quotes (t u : Text) : Prop := ∃ v, SpellsAll t v ∧ u = '"' :: (v ++ ['"'])

/-- Items with commas between them and blanks around each of them. -/
inductive Separates {α : Type} (R : α → Text → Prop) : List α → Text → Prop
  | last {a : α} {u b b' : Text} (hb : IsBlanks b) (hu : R a u) (hb' : IsBlanks b') :
      Separates R [a] (b ++ (u ++ b'))
  | cons {a : α} {as : List α} {u b b' v : Text} (hb : IsBlanks b) (hu : R a u)
      (hb' : IsBlanks b') (hv : Separates R as v) :
      Separates R (a :: as) (b ++ (u ++ (b' ++ ',' :: v)))

/-- Items between two brackets; blanks alone if there are none. -/
inductive Encloses {α : Type} (R : α → Text → Prop) (opening closing : Char) :
    List α → Text → Prop
  | empty {b : Text} (hb : IsBlanks b) : Encloses R opening closing [] (opening :: (b ++ [closing]))
  | items {as : List α} {u : Text} (hu : Separates R as u) :
      Encloses R opening closing as (opening :: (u ++ [closing]))

inductive WritesValue : Value → Text → Prop
  | text {t u : Text} (h : Quotes t u) : WritesValue (.text t) u
  | list {ts : List Text} {u : Text} (h : Encloses Quotes '[' ']' ts u) :
      WritesValue (.list (ts.map .text)) u

/-- A key and its value, with a colon between them. -/
def WritesMember (m : Text × Value) (t : Text) : Prop :=
  ∃ k b b' v, Quotes m.1 k ∧ IsBlanks b ∧ IsBlanks b' ∧ WritesValue m.2 v ∧
    t = k ++ (b ++ ':' :: (b' ++ v))

def WritesDocument (ms : List (Text × Value)) (t : Text) : Prop :=
  ∃ b b' u, IsBlanks b ∧ IsBlanks b' ∧ Encloses WritesMember '{' '}' ms u ∧ t = b ++ (u ++ b')

/-! ### Blanks -/

variable {b t u r : Text} {v : Value} {bound : Nat}

theorem skipBlanks_append (hb : IsBlanks b) (t : Text) : skipBlanks (b ++ t) = skipBlanks t := by
  induction b with
  | nil => rfl
  | cons c b ih =>
    obtain ⟨hc, hb⟩ := List.forall_mem_cons.1 hb
    rw [List.cons_append, skipBlanks, List.dropWhile_cons_of_pos (by simpa [or_assoc] using hc)]
    exact ih hb

theorem skipBlanks_cons {c : Char} (hc : ¬ (c = ' ' ∨ c = '\t' ∨ c = '\n' ∨ c = '\r')) (t : Text) :
    skipBlanks (c :: t) = c :: t :=
  List.dropWhile_cons_of_neg (by simpa [or_assoc] using hc)

theorem skipBlanks_of_isBlanks (hb : IsBlanks b) : skipBlanks b = [] := by
  have h := skipBlanks_append hb []
  rw [List.append_nil] at h
  exact h

/-! ### Texts -/

theorem isSurrogate_toNat (c : Char) :
    isHighSurrogate c.toNat = false ∧ isLowSurrogate c.toNat = false := by
  have hvalid : c.toNat < 0xD800 ∨ 0xE000 ≤ c.toNat ∧ c.toNat < 0x110000 := c.valid
  simp only [isHighSurrogate, isLowSurrogate, Bool.and_eq_false_iff, decide_eq_false_iff_not]
  omega

theorem unit_toNat (c : Char) : unit c.toNat = c := by
  obtain ⟨hhigh, hlow⟩ := isSurrogate_toNat c
  rw [unit, hhigh, hlow]
  exact Char.ofNat_toNat c

theorem textFrom_append {c : Char} (h : Spells c u) (start : Nat) (hr : r ≠ []) :
    textFrom start (u ++ r) = cons c (textFrom start r) := by
  obtain ⟨x, r, rfl⟩ := List.exists_cons_of_ne_nil hr
  cases h with
  | plain hq hb hc =>
    have hc' : ¬ c.toNat < 0x20 := Nat.not_lt.2 hc
    rw [List.singleton_append, textFrom, if_neg hc'] <;> simp [hq, hb]
  | @letter _ d h =>
    have hu : d ≠ 'u' := by
      rintro rfl
      cases h
    rw [List.cons_append, List.singleton_append, textFrom]
    · rw [h]
    · simp [hu]
    · simp [hu]
    · simp [hu]
  | @number _ a b c' d h =>
    obtain ⟨hhigh, -⟩ := isSurrogate_toNat c
    -- a further escape is looked at, but a number that stands alone does not need it
    by_cases hnext : ∃ e f g i y r', x :: r = '\\' :: 'u' :: e :: f :: g :: i :: y :: r'
    · obtain ⟨e, f, g, i, y, r', hxr⟩ := hnext
      rw [hxr]
      simp only [List.cons_append, List.nil_append, textFrom, h, hhigh, Bool.false_eq_true,
        if_false, unit_toNat]
    · simp only [List.cons_append, List.nil_append]
      rw [textFrom]
      · simp only [h, unit_toNat]
      · intro e f g i y r' hx hr
        exact hnext ⟨e, f, g, i, y, r', by rw [hx, hr]⟩
  | surrogates hhigh hlow hh hl =>
    simp only [List.cons_append, List.nil_append, textFrom, hhigh, hh, hlow, hl, if_true]

theorem textFrom_of_spellsAll (h : SpellsAll t u) (start : Nat) (r : Text) :
    textFrom start (u ++ '"' :: r) = .ok (t, r) := by
  induction h with
  | nil => rfl
  | cons hc ht ih =>
    rw [List.append_assoc, textFrom_append hc start (by simp), ih]
    rfl

/-! ### Values -/

/-- Items that start with a quote do not start with a closing bracket. -/
theorem skipBlanks_separates {α : Type} {R : α → Text → Prop} {as : List α}
    (hR : ∀ {a u}, R a u → ∃ v, u = '"' :: v) (h : Separates R as u) (r : Text) :
    ∃ s, skipBlanks (u ++ r) = '"' :: s := by
  cases h with
  | last hb hu hb' | cons hb hu hb' hv =>
    obtain ⟨v, rfl⟩ := hR hu
    rw [List.append_assoc, skipBlanks_append hb]
    exact ⟨_, skipBlanks_cons (by decide) _⟩

theorem skipBlanks_quotes (h : Quotes t u) (r : Text) : skipBlanks (u ++ r) = u ++ r := by
  obtain ⟨v, -, rfl⟩ := h
  exact skipBlanks_cons (by decide) _

theorem skipBlanks_value (h : WritesValue v u) (r : Text) : skipBlanks (u ++ r) = u ++ r := by
  cases h with
  | text h => exact skipBlanks_quotes h r
  | list h => cases h <;> exact skipBlanks_cons (by decide) _

theorem value_of_quotes (h : Quotes t u) (bound : Nat) (r : Text) :
    value (bound + 1) (u ++ r) = .ok (.text t, r) := by
  obtain ⟨v, hv, rfl⟩ := h
  have hread := textFrom_of_spellsAll hv ('"' :: (v ++ ['"']) ++ r).length r
  rw [List.cons_append, List.append_assoc, List.singleton_append] at hread ⊢
  rw [value]
  simp only [if_true, hread]
  rfl

theorem length_quotes (h : Quotes t u) : 2 ≤ u.length := by
  obtain ⟨v, -, rfl⟩ := h
  simp

theorem elements_append (h : Quotes t u) (bound : Nat) (r : Text) :
    elements (bound + 2) (u ++ r) = match skipBlanks r with
      | ']' :: r => .ok ([.text t], r)
      | ',' :: r => (elements (bound + 1) (skipBlanks r)).map fun s => (.text t :: s.1, s.2)
      | r => failAt .noComma r := by
  rw [elements, value_of_quotes h]
  rfl

/-- Items are begun one after the other, each with a smaller bound than the one before. -/
theorem elements_of_separates {ts : List Text} (h : Separates Quotes ts u)
    (hb : u.length ≤ bound) (r : Text) :
    elements bound (skipBlanks (u ++ ']' :: r)) = .ok (ts.map .text, r) := by
  induction h generalizing bound with
  | last hblank hu hblank' =>
    have hlength := length_quotes hu
    simp only [List.length_append] at hb
    obtain ⟨n, rfl⟩ : ∃ n, bound = n + 2 := ⟨bound - 2, by omega⟩
    rw [List.append_assoc, skipBlanks_append hblank, List.append_assoc, skipBlanks_quotes hu,
      elements_append hu, skipBlanks_append hblank', skipBlanks_cons (by decide)]
    rfl
  | cons hblank hu hblank' _ ih =>
    have hlength := length_quotes hu
    simp only [List.length_append, List.length_cons] at hb
    obtain ⟨n, rfl⟩ : ∃ n, bound = n + 2 := ⟨bound - 2, by omega⟩
    rw [List.append_assoc, skipBlanks_append hblank, List.append_assoc, skipBlanks_quotes hu,
      elements_append hu, List.append_assoc, List.cons_append, skipBlanks_append hblank',
      skipBlanks_cons (by decide)]
    have hrest := @ih (n + 1) (by omega)
    simp only [hrest]
    rfl

theorem value_of_writesValue (h : WritesValue v u) (hb : u.length ≤ bound) (r : Text) :
    value bound (u ++ r) = .ok (v, r) := by
  cases h with
  | text h =>
    have hlength := length_quotes h
    obtain ⟨n, rfl⟩ : ∃ n, bound = n + 1 := ⟨bound - 1, by omega⟩
    exact value_of_quotes h n r
  | list h =>
    cases h with
    | empty hblank =>
      obtain ⟨n, rfl⟩ : ∃ n, bound = n + 1 := ⟨bound - 1, by simp at hb; omega⟩
      simp only [List.cons_append, List.append_assoc, List.nil_append]
      rw [value]
      simp only [skipBlanks_append hblank]
      rw [skipBlanks_cons (by decide)]
      rfl
    | items hu =>
      obtain ⟨n, rfl⟩ : ∃ n, bound = n + 1 := ⟨bound - 1, by simp at hb; omega⟩
      simp only [List.length_cons, List.length_append, List.length_nil] at hb
      have helements := elements_of_separates hu (show _ ≤ n by omega) r
      obtain ⟨s, hs⟩ := skipBlanks_separates (fun ⟨_, _, h⟩ => ⟨_, h⟩) hu (']' :: r)
      rw [hs] at helements
      simp only [List.cons_append, List.append_assoc, List.nil_append]
      rw [value]
      simp only [hs]
      show (elements n ('"' :: s)).map (fun s => (Value.list s.1, s.2)) = _
      rw [helements]
      rfl

/-! ### Documents -/

theorem members_append {m : Text × Value} (h : WritesMember m u) (hb : u.length ≤ bound + 1)
    (r : Text) : members (bound + 1) (u ++ r) = match skipBlanks r with
      | '}' :: r => .ok ([m], r)
      | ',' :: r => (members bound (skipBlanks r)).map fun s => (m :: s.1, s.2)
      | r => failAt .noComma r := by
  obtain ⟨_, b, b', v, ⟨k, hk, rfl⟩, hcolon, hcolon', hv, rfl⟩ := h
  simp only [List.length_append, List.length_cons] at hb
  have hvalue := value_of_writesValue hv (show _ ≤ bound by omega) r
  simp only [List.append_assoc, List.cons_append, List.nil_append]
  rw [members, textFrom_of_spellsAll hk]
  simp only [bind, Except.bind, skipBlanks_append hcolon]
  rw [skipBlanks_cons (by decide)]
  simp only [skipBlanks_append hcolon', skipBlanks_value hv]
  generalize value bound (v ++ r) = read at hvalue ⊢
  subst hvalue
  rfl

theorem exists_quote_of_writesMember {m : Text × Value} (h : WritesMember m u) :
    ∃ v, u = '"' :: v := by
  obtain ⟨_, b, b', v, ⟨k, -, rfl⟩, -, -, -, rfl⟩ := h
  exact ⟨_, rfl⟩

theorem members_of_separates {ms : List (Text × Value)} (h : Separates WritesMember ms u)
    (hb : u.length ≤ bound) (r : Text) :
    members bound (skipBlanks (u ++ '}' :: r)) = .ok (ms, r) := by
  induction h generalizing bound with
  | last hblank hu hblank' =>
    obtain ⟨v, rfl⟩ := exists_quote_of_writesMember hu
    simp only [List.length_append, List.length_cons] at hb
    obtain ⟨n, rfl⟩ : ∃ n, bound = n + 1 := ⟨bound - 1, by omega⟩
    have hmember := members_append hu (show _ ≤ n + 1 by simp only [List.length_cons]; omega)
    rw [List.append_assoc, skipBlanks_append hblank, List.append_assoc, List.cons_append,
      skipBlanks_cons (by decide), ← List.cons_append, hmember, skipBlanks_append hblank',
      skipBlanks_cons (by decide)]
    rfl
  | cons hblank hu hblank' _ ih =>
    obtain ⟨v, rfl⟩ := exists_quote_of_writesMember hu
    simp only [List.length_append, List.length_cons] at hb
    obtain ⟨n, rfl⟩ : ∃ n, bound = n + 1 := ⟨bound - 1, by omega⟩
    have hmember := members_append hu (show _ ≤ n + 1 by simp only [List.length_cons]; omega)
    rw [List.append_assoc, skipBlanks_append hblank, List.append_assoc, List.cons_append,
      skipBlanks_cons (by decide), ← List.cons_append, hmember, List.append_assoc, List.cons_append,
      skipBlanks_append hblank', skipBlanks_cons (by decide)]
    have hrest := @ih n (by omega)
    simp only [hrest]
    rfl

theorem objectOf_of_nodup {ms : List (Text × Value)} (hn : (Assoc.keys ms).Nodup) :
    objectOf ms = .mapping (ms.map fun m => (.text m.1, m.2)) := by
  rw [objectOf, Assoc.ofEntries_eq_self hn]

theorem value_of_encloses {ms : List (Text × Value)} (h : Encloses WritesMember '{' '}' ms u)
    (hn : (Assoc.keys ms).Nodup) (hb : u.length ≤ bound) (r : Text) :
    value bound (u ++ r) = .ok (.mapping (ms.map fun m => (.text m.1, m.2)), r) := by
  cases h with
  | empty hblank =>
    obtain ⟨n, rfl⟩ : ∃ n, bound = n + 1 := ⟨bound - 1, by simp at hb; omega⟩
    simp only [List.cons_append, List.append_assoc, List.nil_append]
    rw [value]
    simp only [skipBlanks_append hblank]
    rw [skipBlanks_cons (by decide)]
    rfl
  | items hu =>
    obtain ⟨n, rfl⟩ : ∃ n, bound = n + 1 := ⟨bound - 1, by simp at hb; omega⟩
    simp only [List.length_cons, List.length_append, List.length_nil] at hb
    have hmembers := members_of_separates hu (show _ ≤ n by omega) r
    obtain ⟨s, hs⟩ := skipBlanks_separates exists_quote_of_writesMember hu ('}' :: r)
    rw [hs] at hmembers
    simp only [List.cons_append, List.append_assoc, List.nil_append]
    rw [value]
    simp only [hs]
    show (members n ('"' :: s)).map (fun s => (objectOf s.1, s.2)) = _
    rw [hmembers, ← objectOf_of_nodup hn]
    rfl

theorem head?_ne_byteOrderMark (hb : IsBlanks b) {c : Char} (hc : c ≠ '\uFEFF') (t : Text) :
    (b ++ c :: t).head? ≠ some '\uFEFF' := by
  cases b with
  | nil => simpa using hc
  | cons d b =>
    have hd := hb d (List.mem_cons_self ..)
    rintro ⟨⟩
    revert hd
    decide

/-- The value of a document is the object with the members that are written. -/
theorem read_of_writesDocument {ms : List (Text × Value)} {document : Text}
    (h : WritesDocument ms document) (hn : (Assoc.keys ms).Nodup) :
    read document = .ok (.mapping (ms.map fun m => (.text m.1, m.2))) := by
  obtain ⟨b, b', u, hb, hb', hu, rfl⟩ := h
  obtain ⟨v, hv⟩ : ∃ v, u = '{' :: v := by cases hu <;> exact ⟨_, rfl⟩
  have hmark : (b ++ (u ++ b')).head? ≠ some '\uFEFF' := by
    rw [hv]
    exact head?_ne_byteOrderMark hb (by decide) _
  have hskip : skipBlanks (b ++ (u ++ b')) = u ++ b' := by
    rw [skipBlanks_append hb, hv]
    exact skipBlanks_cons (by decide) _
  rw [read, if_neg hmark, hskip, value_of_encloses hu hn (by simp; omega)]
  simp only [bind, Except.bind, skipBlanks_of_isBlanks hb']

end Json

end FormEdits
