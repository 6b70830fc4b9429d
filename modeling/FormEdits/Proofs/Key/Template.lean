import FormEdits.Key.Template
import FormEdits.Proofs.Text.Words

/-! # Statement keys and their templates

A word of a key writes a term or a designator, never both, and neither is a modifier or the mark for
expansion. So reading the words of a key and writing those of a template undo each other
(`Template.ofWords?_eq_some_iff`), and no key has two templates (`Template.parse?_eq_some_iff`). -/

namespace FormEdits

/-! ### Characters of tokens -/

theorem toNat_of_isAsciiLetter {c : Char} (h : isAsciiLetter c) :
    (97 ≤ c.toNat ∧ c.toNat ≤ 122) ∨ (65 ≤ c.toNat ∧ c.toNat ≤ 90) := by
  simp only [isAsciiLetter, Bool.or_eq_true, Bool.and_eq_true, decide_eq_true_eq, Char.le_def,
    UInt32.le_iff_toNat_le] at h
  exact h

theorem isBlank_of_isAsciiLetter {c : Char} (h : isAsciiLetter c) : isBlank c = false := by
  have hc := toNat_of_isAsciiLetter h
  simp [isBlank, Text.inRanges]
  omega

theorem isBlank_of_isAsciiDigit {c : Char} (h : isAsciiDigit c) : isBlank c = false := by
  simp only [isAsciiDigit, Bool.and_eq_true, decide_eq_true_eq, Char.le_def,
    UInt32.le_iff_toNat_le] at h
  have hc : 48 ≤ c.toNat ∧ c.toNat ≤ 57 := h
  simp [isBlank, Text.inRanges]
  omega

theorem isNameStart_of_isAsciiLetter {c : Char} (h : isAsciiLetter c) : isNameStart c := by
  have hc := toNat_of_isAsciiLetter h
  simp [isNameStart, Text.inRanges]
  omega

theorem mem_of_isLanguageTag {t : Text} (h : isLanguageTag t) {c : Char} (hc : c ∈ t) :
    c = '-' ∨ isAsciiLetter c ∨ isAsciiDigit c := by
  rw [← show ['-'].intercalate (t.splitOn '-') = t from List.intercalate_splitOn '-'] at hc
  rcases Text.mem_intercalate hc with hc | ⟨p, hp, hc⟩
  · exact .inl (List.mem_singleton.1 hc)
  · rw [isLanguageTag] at h
    rcases hs : t.splitOn '-' with _ | ⟨primary, parts⟩
    · rw [hs] at hp; cases hp
    · rw [hs] at h hp
      simp only [Bool.and_eq_true, List.all_eq_true, Bool.or_eq_true] at h
      rcases List.mem_cons.1 hp with rfl | hp
      · exact .inr (.inl (h.1.2 c hc))
      · exact .inr ((h.2 p hp).2 c hc)

theorem isBlank_of_isLanguageTag {t : Text} (h : isLanguageTag t) : ∀ c ∈ t, isBlank c = false := by
  intro c hc
  rcases mem_of_isLanguageTag h hc with rfl | hc | hc
  · decide
  · exact isBlank_of_isAsciiLetter hc
  · exact isBlank_of_isAsciiDigit hc

theorem isNameStart_of_isTermToken {c : Char} {r : Text} (h : isTermToken (c :: r)) :
    isNameStart c := by
  simp only [isTermToken, Text.cut?] at h
  split at h
  · rename_i name rest hcut
    split at hcut
    · cases hcut
      simp [isPrefixName, isName, isScheme] at h
    · obtain ⟨s, -, hs⟩ := Option.map_eq_some_iff.1 hcut
      cases hs
      simp only [isPrefixName, isName, isScheme, Bool.and_eq_true, Bool.or_eq_true] at h
      exact h.1.elim (fun h => h.1) fun h => isNameStart_of_isAsciiLetter h.1
  · cases h

theorem isTermToken_eq_false {c : Char} {r : Text} (h : isNameStart c = false) :
    isTermToken (c :: r) = false := by
  rw [Bool.eq_false_iff]
  intro ht
  rw [isNameStart_of_isTermToken ht] at h
  cases h

/-! ### Designators -/

namespace Designator

/-- The argument is a language tag or a term token. -/
def IsValid : Designator → Prop
  | language tag => isLanguageTag tag
  | datatype token => isTermToken token
  | _ => True

theorem ofToken?_text {d : Designator} (h : d.IsValid) : ofToken? d.text = some d := by
  cases d with
  | resource => rfl
  | blank => rfl
  | literal => rfl
  | language tag =>
    have ht : isLanguageTag tag = true := h
    simp [text, sigil, argument, ofToken?, ht]
  | datatype token =>
    have ht : isTermToken token = true := h
    simp [text, sigil, argument, ofToken?, ht]

theorem text_of_ofSigil? {c : Char} {d : Designator} (hl : c ≠ '@') (hd : c ≠ '^')
    (h : ofSigil? c [] = some d) : d.IsValid ∧ d.text = [c] := by
  unfold ofSigil? at h
  rw [if_neg hl, if_neg hd] at h
  split at h
  · cases h; exact ⟨trivial, by rw [‹c = ':'›]; rfl⟩
  split at h
  · cases h; exact ⟨trivial, by rw [‹c = '_'›]; rfl⟩
  split at h
  · cases h; exact ⟨trivial, by rw [‹c = '\''›]; rfl⟩
  · cases h

theorem text_of_ofToken? {w : Text} {d : Designator} (h : ofToken? w = some d) :
    d.IsValid ∧ d.text = w := by
  unfold ofToken? at h
  split at h
  · cases h
  rename_i c r
  split at h
  · subst c
    split at h
    · cases h; exact ⟨‹_›, rfl⟩
    · cases h
  split at h
  · subst c
    split at h
    · cases h; exact ⟨‹_›, rfl⟩
    · cases h
  split at h
  · rename_i hl hd hr
    rw [List.isEmpty_iff.1 hr]
    exact text_of_ofSigil? hl hd h
  · cases h

theorem isTermToken_text (d : Designator) : isTermToken d.text = false := by
  cases d with
  | resource => decide
  | blank => decide
  | literal => decide
  | language tag => exact isTermToken_eq_false (c := '@') (by decide)
  | datatype token => exact isTermToken_eq_false (c := '^') (by decide)

end Designator

theorem Modifiers.ofWord?_eq_some_iff {w : Text} {m : Modifiers} :
    ofWord? w = some m ↔ (w, m) ∈ words := by
  constructor
  · intro h
    obtain ⟨before, after, hw, -⟩ := List.lookup_eq_some_iff.1 h
    rw [hw]
    exact List.mem_append_right _ (List.mem_cons_self ..)
  · have h : ∀ e ∈ words, ofWord? e.1 = some e.2 := by decide
    exact h (w, m)

namespace Template

open Text (IsWord Spaced)

/-! ### Words and tokens -/

namespace Token

def text : Token → Text
  | term t => t
  | designator d => d.text

def IsValid : Token → Prop
  | term t => isTermToken t
  | designator d => d.IsValid

theorem ofWord?_eq_some_iff {w : Text} (hw : w.IsWord) {k : Token} :
    ofWord? w = some k ↔ k.IsValid ∧ k.text = w := by
  rw [ofWord?, Designator.parse?, hw.dropFinalLineFeed]
  constructor
  · intro h
    split at h
    · cases h; exact ⟨‹_›, rfl⟩
    · obtain ⟨d, hd, rfl⟩ := Option.map_eq_some_iff.1 h
      exact Designator.text_of_ofToken? hd
  · rintro ⟨hk, rfl⟩
    cases k with
    | term t =>
      have ht : isTermToken t = true := hk
      rw [if_pos (show isTermToken (text (term t)) = true from ht)]
      rfl
    | designator d =>
      have hd : ¬ isTermToken (text (designator d)) = true :=
        Bool.eq_false_iff.1 d.isTermToken_text
      rw [if_neg hd, show text (designator d) = d.text from rfl, Designator.ofToken?_text hk]
      rfl

theorem mapM_ofWord?_eq_some_iff {ws : List Text} (hw : ∀ w ∈ ws, IsWord w) (ks : List Token) :
    ws.mapM ofWord? = some ks ↔ (∀ k ∈ ks, k.IsValid) ∧ ks.map text = ws := by
  induction ws generalizing ks with
  | nil =>
    constructor
    · intro h; cases h; simp
    · rintro ⟨-, h⟩; rw [List.map_eq_nil_iff.1 h]; rfl
  | cons w ws ih =>
    have ih := ih fun w hw' => hw w (List.mem_cons_of_mem _ hw')
    have hw : ∀ k, ofWord? w = some k ↔ k.IsValid ∧ k.text = w :=
      fun k => ofWord?_eq_some_iff (hw w (List.mem_cons_self ..))
    rw [List.mapM_cons]
    simp only [Option.bind_eq_bind, Option.bind_eq_some_iff, Option.pure_def, Option.some.injEq]
    constructor
    · rintro ⟨k, hk, ks, hks, rfl⟩
      obtain ⟨hv, rfl⟩ := (hw k).1 hk
      obtain ⟨hvs, rfl⟩ := (ih ks).1 hks
      exact ⟨List.forall_mem_cons.2 ⟨hv, hvs⟩, rfl⟩
    · rintro ⟨hv, hks⟩
      obtain ⟨k, ks, rfl, hk, hks⟩ := List.map_eq_cons_iff.1 hks
      obtain ⟨hv, hvs⟩ := List.forall_mem_cons.1 hv
      exact ⟨k, (hw k).2 ⟨hv, hk⟩, ks, (ih ks).2 ⟨hvs, hks⟩, rfl⟩

theorem text_ne_expansionMark {k : Token} (hk : k.IsValid) : k.text ≠ expansionMark := by
  intro h
  cases k with
  | term t =>
    have ht : isTermToken t = true := hk
    rw [show t = expansionMark from h] at ht
    revert ht
    decide
  | designator d =>
    have hd := Designator.ofToken?_text hk
    rw [show d.text = expansionMark from h] at hd
    revert hd
    exact of_decide_eq_true rfl

end Token

theorem ofWord?_of_isTermToken {w : Text} (h : isTermToken w) : Modifiers.ofWord? w = none := by
  rcases hw : Modifiers.ofWord? w with _ | m
  · rfl
  · have hall : ∀ e ∈ Modifiers.words, isTermToken e.1 = false := by decide
    rw [hall _ (Modifiers.ofWord?_eq_some_iff.1 hw)] at h
    cases h

variable {t : Template} {m : Modifiers} {b : Bool} {ws ms : List Text} {ks : List Token}

/-! ### The mark and the modifiers -/

/-- The word at the end of a key whose values are to be expanded. -/
def markWords (b : Bool) : List Text := if b then [expansionMark] else []

theorem takeMark_append (h : ws.getLast? ≠ some expansionMark) :
    takeMark (ws ++ markWords b) = (b, ws) := by
  cases b with
  | false => rw [markWords, if_neg Bool.false_ne_true, List.append_nil, takeMark, if_neg h]
  | true => simp [markWords, takeMark]

theorem takeMark_eq (ws : List Text) : (takeMark ws).2 ++ markWords (takeMark ws).1 = ws := by
  unfold takeMark
  split
  · rename_i h
    obtain ⟨ws', rfl⟩ := List.getLast?_eq_some_iff.1 h
    simp [markWords]
  · simp [markWords]

theorem takeModifiers_append (hm : writesModifiers m ms)
    (h : ∀ w, ws.head? = some w → Modifiers.ofWord? w = none) :
    takeModifiers (ms ++ ws) = (m, ws) := by
  rcases hm with ⟨rfl, rfl⟩ | ⟨w, rfl, hw⟩
  · cases ws with
    | nil => rfl
    | cons w ws => simp only [List.nil_append, takeModifiers, h w rfl]
  · simp only [List.singleton_append, takeModifiers, Modifiers.ofWord?_eq_some_iff.2 hw]

theorem takeModifiers_eq (ws : List Text) :
    ∃ ms, writesModifiers (takeModifiers ws).1 ms ∧ ms ++ (takeModifiers ws).2 = ws := by
  cases ws with
  | nil => exact ⟨[], .inl ⟨rfl, rfl⟩, rfl⟩
  | cons w ws =>
    rcases hw : Modifiers.ofWord? w with _ | m
    · refine ⟨[], .inl ⟨by simp only [takeModifiers, hw], rfl⟩, ?_⟩
      simp only [takeModifiers, hw]
      rfl
    · refine ⟨[w], .inr ⟨w, rfl, ?_⟩, ?_⟩
      · simp only [takeModifiers, hw]
        exact Modifiers.ofWord?_eq_some_iff.1 hw
      · simp only [takeModifiers, hw]
        rfl

/-! ### Templates and tokens -/

/-- What the words of a template past the modifiers write. -/
def tokens (t : Template) : List Token :=
  [.term t.term1] ++ (t.term2.map .term).toList ++ (t.designator.map .designator).toList ++
    (t.graph.map .term).toList

theorem map_text_tokens (t : Template) : t.tokens.map Token.text = t.operands := by
  obtain ⟨m, p, s, d, g, b⟩ := t
  cases s <;> cases d <;> cases g <;> rfl

theorem ofTokens?_eq_some_iff : ofTokens? m b ks = some t ↔
    t.modifiers = m ∧ t.expandsValues = b ∧ t.tokens = ks ∧
      (t.graph.isSome → t.term2.isSome ∨ t.designator.isSome) := by
  constructor
  · intro h
    unfold ofTokens? at h
    split at h <;> cases h <;> exact ⟨rfl, rfl, rfl, by simp⟩
  · obtain ⟨m', p, s, d, g, b'⟩ := t
    rintro ⟨rfl, rfl, rfl, h⟩
    cases s <;> cases d <;> cases g <;> first | rfl | simp at h

theorem getLast?_append_operands (hv : ∀ k ∈ t.tokens, k.IsValid) (ms : List Text) :
    (ms ++ t.operands).getLast? ≠ some expansionMark := by
  obtain ⟨w, ws, hne⟩ : ∃ w ws, t.operands = w :: ws := ⟨t.term1, _, rfl⟩
  have hlast : (ms ++ t.operands).getLast? = t.operands.getLast? := by
    rw [List.getLast?_append, hne, List.getLast?_cons, Option.some_or]
  rw [hlast, ← map_text_tokens]
  intro h
  obtain ⟨k, hk, ht⟩ := List.mem_map.1 (List.mem_of_getLast? h)
  exact Token.text_ne_expansionMark (hv k hk) ht

theorem ofWords?_wordsWith (hm : writesModifiers t.modifiers ms)
    (hv : ∀ k ∈ t.tokens, k.IsValid) (hw : ∀ w ∈ t.operands, IsWord w)
    (hb : t.graph.isSome → t.term2.isSome ∨ t.designator.isSome) :
    ofWords? (t.wordsWith ms) = some t := by
  have hhead : ∀ w, t.operands.head? = some w → Modifiers.ofWord? w = none := by
    intro w h
    have hw : t.term1 = w := Option.some.inj h
    rw [← hw]
    exact ofWord?_of_isTermToken (hv (.term t.term1) (by simp [tokens]))
  have hmark : takeMark (t.wordsWith ms) = (t.expandsValues, ms ++ t.operands) :=
    takeMark_append (getLast?_append_operands hv ms)
  have hread : t.operands.mapM Token.ofWord? = some t.tokens :=
    (Token.mapM_ofWord?_eq_some_iff hw _).2 ⟨hv, map_text_tokens t⟩
  simp only [ofWords?, hmark, takeModifiers_append hm hhead, hread, Option.bind_some]
  exact ofTokens?_eq_some_iff.2 ⟨rfl, rfl, rfl, hb⟩

theorem wordsWith_of_ofWords? (hw : ∀ w ∈ ws, IsWord w) (h : ofWords? ws = some t) :
    ∃ ms, writesModifiers t.modifiers ms ∧ t.wordsWith ms = ws ∧ (∀ k ∈ t.tokens, k.IsValid) ∧
      (t.graph.isSome → t.term2.isSome ∨ t.designator.isSome) := by
  have hmark := takeMark_eq ws
  obtain ⟨ms, hm, hms⟩ := takeModifiers_eq (takeMark ws).2
  simp only [ofWords?, Option.bind_eq_some_iff] at h
  obtain ⟨ks, hks, ht⟩ := h
  obtain ⟨hmod, hexp, rfl, hb⟩ := ofTokens?_eq_some_iff.1 ht
  have hrest : ∀ w ∈ (takeModifiers (takeMark ws).2).2, IsWord w := by
    intro w h
    refine hw w ?_
    rw [← hmark, ← hms]
    exact List.mem_append_left _ (List.mem_append_right _ h)
  obtain ⟨hv, hops⟩ := (Token.mapM_ofWord?_eq_some_iff hrest _).1 hks
  rw [map_text_tokens] at hops
  refine ⟨ms, by rw [hmod]; exact hm, ?_, hv, hb⟩
  rw [wordsWith, hops, hexp, hms]
  exact hmark

/-! ### Renderable templates -/

theorem isTermWord_iff {w : Text} : IsTermWord w ↔ isTermToken w ∧ w.IsWord := by
  constructor
  · rintro ⟨ht, hb⟩
    refine ⟨ht, ?_, hb⟩
    rintro rfl
    cases ht
  · rintro ⟨ht, hw⟩
    exact ⟨ht, hw.isBlank⟩

theorem isWord_text_iff {d : Designator} :
    IsWord d.text ↔ ∀ c ∈ d.argument.getD [], isBlank c = false := by
  have hs : isBlank d.sigil = false := by cases d <;> rfl
  constructor
  · intro h c hc
    exact h.isBlank c (List.mem_cons_of_mem _ hc)
  · intro h
    exact ⟨List.cons_ne_nil _ _, List.forall_mem_cons.2 ⟨hs, h⟩⟩

theorem isValid_isWord_iff {d : Designator} : d.IsValid ∧ IsWord d.text ↔
    (∀ tag, d = .language tag → isLanguageTag tag) ∧
      ∀ token, d = .datatype token → IsTermWord token := by
  rw [isWord_text_iff]
  cases d with
  | resource => simp [Designator.IsValid, Designator.argument]
  | blank => simp [Designator.IsValid, Designator.argument]
  | literal => simp [Designator.IsValid, Designator.argument]
  | language tag =>
    simp only [Designator.IsValid, Designator.argument, Option.getD_some, Designator.language.injEq,
      forall_eq', reduceCtorEq, false_imp_iff, implies_true, and_true]
    exact ⟨fun h => h.1, fun h => ⟨h, isBlank_of_isLanguageTag h⟩⟩
  | datatype token =>
    simp only [Designator.IsValid, Designator.argument, Option.getD_some, Designator.datatype.injEq,
      forall_eq', reduceCtorEq, false_imp_iff, implies_true, true_and]
    exact Iff.rfl

theorem forall_mem_tokens {P : Token → Prop} : (∀ k ∈ t.tokens, P k) ↔
    P (.term t.term1) ∧ (∀ p, t.term2 = some p → P (.term p)) ∧
      (∀ d, t.designator = some d → P (.designator d)) ∧ ∀ g, t.graph = some g → P (.term g) := by
  simp [tokens, or_imp, forall_and]

theorem isRenderable_iff : t.IsRenderable ↔ (∃ ms, writesModifiers t.modifiers ms) ∧
    (∀ k ∈ t.tokens, k.IsValid ∧ IsWord k.text) ∧
    (t.graph.isSome → t.term2.isSome ∨ t.designator.isSome) := by
  have hterm : ∀ u : Text, (Token.term u).IsValid ∧ IsWord (Token.term u).text ↔ IsTermWord u :=
    fun u => isTermWord_iff.symm
  have hdesignator : ∀ d : Designator,
      (Token.designator d).IsValid ∧ IsWord (Token.designator d).text ↔
        (∀ tag, d = .language tag → isLanguageTag tag) ∧
          ∀ token, d = .datatype token → IsTermWord token := fun d => isValid_isWord_iff
  simp only [forall_mem_tokens, hterm, hdesignator]
  constructor
  · rintro ⟨hm, h1, h2, hg, hl, hd, hb⟩
    refine ⟨hm, ⟨h1, h2, fun d h => ⟨?_, ?_⟩, hg⟩, hb⟩
    · rintro tag rfl; exact hl tag h
    · rintro token rfl; exact hd token h
  · rintro ⟨hm, ⟨h1, h2, hd, hg⟩, hb⟩
    exact ⟨hm, h1, h2, hg, fun tag h => (hd _ h).1 tag rfl, fun token h => (hd _ h).2 token rfl, hb⟩

theorem IsRenderable.isWord (h : t.IsRenderable) (hm : writesModifiers t.modifiers ms) :
    ∀ w ∈ t.wordsWith ms, IsWord w := by
  obtain ⟨-, hk, -⟩ := isRenderable_iff.1 h
  intro w hw
  rcases List.mem_append.1 hw with hw | hw
  · rcases List.mem_append.1 hw with hw | hw
    · rcases hm with ⟨-, rfl⟩ | ⟨w', rfl, hw'⟩
      · cases hw
      · have hall : ∀ e ∈ Modifiers.words, IsWord e.1 := by decide
        rw [List.mem_singleton.1 hw]
        exact hall _ hw'
    · rw [← map_text_tokens] at hw
      obtain ⟨k, hmem, rfl⟩ := List.mem_map.1 hw
      exact (hk k hmem).2
  · rcases hx : t.expandsValues with _ | _
    · rw [hx] at hw; cases hw
    · rw [hx] at hw
      rw [List.mem_singleton.1 hw]
      decide

/-- Reading the words of a key gives the one template that they write. -/
theorem ofWords?_eq_some_iff (hw : ∀ w ∈ ws, IsWord w) : ofWords? ws = some t ↔
    t.IsRenderable ∧ ∃ ms, writesModifiers t.modifiers ms ∧ t.wordsWith ms = ws := by
  constructor
  · intro h
    obtain ⟨ms, hm, rfl, hv, hb⟩ := wordsWith_of_ofWords? hw h
    refine ⟨isRenderable_iff.2 ⟨⟨ms, hm⟩, fun k hk => ⟨hv k hk, hw _ ?_⟩, hb⟩, ms, hm, rfl⟩
    have hops : k.text ∈ t.operands := by
      rw [← map_text_tokens]; exact List.mem_map_of_mem hk
    exact List.mem_append_left _ (List.mem_append_right _ hops)
  · rintro ⟨h, ms, hm, rfl⟩
    obtain ⟨-, hk, hb⟩ := isRenderable_iff.1 h
    refine ofWords?_wordsWith hm (fun k hmem => (hk k hmem).1) (fun w hw => ?_) hb
    exact h.isWord hm w (List.mem_append_left _ (List.mem_append_right _ hw))

theorem isRenderable_of_parse? {key : Text} (h : parse? key = some t) : t.IsRenderable :=
  ((ofWords?_eq_some_iff fun _ => Text.isWord_of_mem_words).1 h).1

/-- A key has the template `t` exactly if it consists of the words of `t`, with blanks between and
around them; and no key consists of the words of two templates. -/
theorem parse?_eq_some_iff (key : Text) :
    (∀ t, parse? key = some t ↔ t.IsRenderable ∧
      ∃ ms, writesModifiers t.modifiers ms ∧ Spaced (t.wordsWith ms) key) ∧
    (∀ t, parse? key = some t → ∃ ms, writesModifiers t.modifiers ms ∧ key.words = t.wordsWith ms) ∧
    ∀ (t t' : Template) (ms ms' : List Text),
      t.IsRenderable → writesModifiers t.modifiers ms → Spaced (t.wordsWith ms) key →
      t'.IsRenderable → writesModifiers t'.modifiers ms' → Spaced (t'.wordsWith ms') key →
      t = t' := by
  have hwords : ∀ t, parse? key = some t ↔ t.IsRenderable ∧
      ∃ ms, writesModifiers t.modifiers ms ∧ t.wordsWith ms = key.words :=
    fun t => ofWords?_eq_some_iff fun _ => Text.isWord_of_mem_words
  have hparse : ∀ t ms, t.IsRenderable → writesModifiers t.modifiers ms →
      Spaced (t.wordsWith ms) key → parse? key = some t := fun t ms h hm hs =>
    (hwords t).2 ⟨h, ms, hm, (Text.words_of_spaced (h.isWord hm) hs).symm⟩
  refine ⟨fun t => ⟨fun h => ?_, fun ⟨h, ms, hm, hs⟩ => hparse t ms h hm hs⟩, fun t h => ?_,
    fun t t' ms ms' h hm hs h' hm' hs' => ?_⟩
  · obtain ⟨hr, ms, hm, hw⟩ := (hwords t).1 h
    exact ⟨hr, ms, hm, hw ▸ Text.spaced_words key⟩
  · obtain ⟨-, ms, hm, hw⟩ := (hwords t).1 h
    exact ⟨ms, hm, hw.symm⟩
  · have ht := hparse t ms h hm hs
    rw [hparse t' ms' h' hm' hs'] at ht
    exact (Option.some.inj ht).symm

end Template

end FormEdits
