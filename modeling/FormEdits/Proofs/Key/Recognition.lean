import FormEdits.Key.Classify
import FormEdits.Proofs.Key.Declaration
import FormEdits.Proofs.Macros.Composition
import Mathlib.Data.List.Chain
import Mathlib.Data.List.TakeWhile

/-! # Which keys are declarations

`Declaration.Cut` is a way to cut a key into the parts of a declaration. A key is a declaration
exactly if there is such a cut. U+1680 is the one blank that may stand in a name; a key without it
has one cut at most, from which its declaration is read off, and it is taken for nothing else in
whatever order the tests of `Key.classify` are made (`Declaration.parse?_of_cuts`). -/

namespace FormEdits

namespace Text

variable {p : Char → Bool} {a b s t : Text}

theorem mem_runs_iff {s : Text × Text} : s ∈ runs p t ↔ s.1 ++ s.2 = t ∧ ∀ c ∈ s.1, p c := by
  refine ⟨append_of_mem_runs, ?_⟩
  obtain ⟨a, b⟩ := s
  rintro ⟨rfl, hp⟩
  induction a with
  | nil =>
    rcases b with _ | ⟨c, b⟩
    · exact List.mem_singleton_self _
    · rw [List.nil_append, runs]
      split
      · exact List.mem_append_right _ (List.mem_singleton_self _)
      · exact List.mem_singleton_self _
  | cons c a ih =>
    obtain ⟨hc, hp⟩ := List.forall_mem_cons.1 hp
    rw [List.cons_append, runs, if_pos hc]
    exact List.mem_append_left _ (List.mem_map.2 ⟨(a, b), ih hp, rfl⟩)

/-- A character satisfying `start`, and characters satisfying `p` after it. -/
def IsStarted (start p : Char → Bool) (t : Text) : Prop :=
  ∃ c r, t = c :: r ∧ start c ∧ ∀ d ∈ r, p d

/-- The ways to take such a text off the front. -/
def startedRuns (start p : Char → Bool) : Text → List (Text × Text)
  | [] => []
  | c :: r => if start c then (runs p r).map fun s => (c :: s.1, s.2) else []

theorem mem_startedRuns_iff {start : Char → Bool} {s : Text × Text} :
    s ∈ startedRuns start p t ↔ s.1 ++ s.2 = t ∧ s.1.IsStarted start p := by
  obtain ⟨a, b⟩ := s
  rcases t with _ | ⟨c, r⟩
  · simp +contextual [startedRuns, IsStarted]
  rw [startedRuns]
  constructor
  · intro h
    split at h
    · rename_i hc
      obtain ⟨s', hs', he⟩ := List.mem_map.1 h
      obtain ⟨rfl, hp⟩ := mem_runs_iff.1 hs'
      cases he
      exact ⟨rfl, c, s'.1, rfl, hc, hp⟩
    · cases h
  · rintro ⟨h, d, a, rfl, hc, hp⟩
    obtain ⟨rfl, rfl⟩ := List.cons.inj h
    rw [if_pos hc]
    exact List.mem_map.2 ⟨(a, b), mem_runs_iff.2 ⟨rfl, hp⟩, rfl⟩

/-- A run that ends where its characters end is the only one at the front of a text. -/
theorem eq_of_run_append (ha : ∀ c ∈ a, p c) (hb : ∀ c ∈ b, p c)
    (hs : ∀ c ∈ s.head?, p c = false) (ht : ∀ c ∈ t.head?, p c = false) (h : a ++ s = b ++ t) :
    a = b ∧ s = t := by
  have hab : a = b := by
    rw [← takeWhile_append_of_head (List.all_eq_true.2 ha) hs, h,
      takeWhile_append_of_head (List.all_eq_true.2 hb) ht]
  exact ⟨hab, List.append_cancel_left (hab ▸ h)⟩

theorem trimStart_append (ha : ∀ c ∈ a, isBlank c) (s : Text) : trimStart (a ++ s) = trimStart s :=
  List.dropWhile_append_of_pos ha

end Text

theorem isName_iff {t : Text} : isName t ↔ t.IsStarted isNameStart isNameChar := by
  cases t <;> simp [isName, Text.IsStarted]

theorem isScheme_iff {t : Text} : isScheme t ↔ t.IsStarted isAsciiLetter isSchemeChar := by
  cases t <;> simp [isScheme, Text.IsStarted]

theorem mem_namesAtFront_iff {t : Text} {s : Text × Text} :
    s ∈ namesAtFront t ↔ s.1 ++ s.2 = t ∧ isName s.1 := by
  have h : namesAtFront t = t.startedRuns isNameStart isNameChar := by cases t <;> rfl
  rw [h, Text.mem_startedRuns_iff, isName_iff]

theorem mem_schemesAtFront_iff {t : Text} {s : Text × Text} :
    s ∈ schemesAtFront t ↔ s.1 ++ s.2 = t ∧ isScheme s.1 := by
  have h : schemesAtFront t = t.startedRuns isAsciiLetter isSchemeChar := by cases t <;> rfl
  rw [h, Text.mem_startedRuns_iff, isScheme_iff]

theorem isBlank_of_isNameChar {c : Char} (h : isNameChar c) (hc : c ≠ '\u1680') :
    isBlank c = false := by
  have hne : c.toNat ≠ 0x1680 := fun he => hc (Char.ext (UInt32.toNat_inj.1 he))
  simp only [isNameChar, isNameStart, isBlank, Text.inRanges, List.any_cons, List.any_nil,
    Bool.or_eq_true, Bool.and_eq_true, decide_eq_true_eq, Bool.or_false, Bool.or_eq_false_iff,
    Bool.and_eq_false_iff, decide_eq_false_iff_not] at h ⊢
  omega

theorem isNameChar_of_isName {t : Text} (h : isName t) : ∀ c ∈ t, isNameChar c := by
  rcases t with _ | ⟨c, r⟩
  · cases h
  · obtain ⟨hc, hr⟩ := Bool.and_eq_true_iff.1 h
    refine List.forall_mem_cons.2 ⟨?_, List.all_eq_true.1 hr⟩
    rw [isNameChar, hc, Bool.true_or]

/-! ### Signs and blanks -/

theorem isBlank_head_sign (t : Text) : ∀ c ∈ ('$' :: t).head?, isBlank c = false := by
  rintro c ⟨⟩
  decide

theorem sign_notMem_of_isBlank {t : Text} (h : ∀ c ∈ t, isBlank c) : '$' ∉ t :=
  fun hm => absurd (h _ hm) (by decide)

/-- After each `$` of the text comes a blank or nothing. -/
def SignsBeforeBlanks (t : Text) : Prop := t.IsChain fun a b => a = '$' → isBlank b

namespace SignsBeforeBlanks

variable {s t : Text}

theorem append_of_notMem (hs : '$' ∉ s) (h : SignsBeforeBlanks t) : SignsBeforeBlanks (s ++ t) := by
  refine List.isChain_append.2 ⟨?_, h, ?_⟩
  · induction s with
    | nil => exact .nil
    | cons c s ih =>
      obtain ⟨hc, hs⟩ := not_or.1 (mt List.mem_cons.2 hs)
      exact List.isChain_cons.2 ⟨fun _ _ he => absurd he.symm hc, ih hs⟩
  · rintro c hc d - rfl
    exact absurd (List.mem_of_getLast? hc) hs

theorem sign_cons (ht : ∀ c ∈ t.head?, isBlank c) (h : SignsBeforeBlanks t) :
    SignsBeforeBlanks ('$' :: t) :=
  List.isChain_cons.2 ⟨fun c hc _ => ht c hc, h⟩

/-- A reference has no blank after its sign, if no blank can stand in a name. -/
theorem hasReferences_eq_false (h : SignsBeforeBlanks t) (ht : '\u1680' ∉ t) :
    Macros.hasReferences t = false := by
  rw [Bool.eq_false_iff]
  intro href
  obtain ⟨x, hx⟩ := Macros.hasReferences_iff.1 href
  obtain ⟨p, braced, s, hname, -, rfl⟩ := Macros.mem_names_iff_refersTo.1 hx
  rcases x with _ | ⟨c, r⟩
  · cases hname
  rw [List.append_assoc] at h
  have hafter := (List.isChain_append.1 h).2.1
  cases braced with
  | true =>
    have hblank : isBlank '{' := (List.isChain_cons_cons.1 hafter).1 rfl
    revert hblank
    decide
  | false =>
    have hblank : isBlank c := (List.isChain_cons_cons.1 hafter).1 rfl
    have hc : c ≠ '\u1680' := by
      rintro rfl
      exact ht (by simp [Piece.text])
    rw [isBlank_of_isNameChar (isNameChar_of_isName hname c (List.mem_cons_self ..)) hc] at hblank
    cases hblank

end SignsBeforeBlanks

namespace Declaration

/-- A gap between the parts of a declaration. -/
def IsGap (t : Text) : Prop := t ≠ [] ∧ ∀ c ∈ t, isBlank c

theorem IsGap.head (h : IsGap t) (s : Text) : ∀ c ∈ (t ++ s).head?, isBlank c := by
  obtain ⟨hne, hblank⟩ := h
  rcases t with _ | ⟨d, t⟩
  · exact absurd rfl hne
  · rintro c ⟨⟩
    exact hblank d (List.mem_cons_self ..)

/-- What follows the name: the mark of pending values, which has a gap before it, and blanks. -/
def closing (mark : Option Text) (after : Text) : Text :=
  match mark with
  | some gap => gap ++ '$' :: after
  | none => after

/-- The parts of a declaration. The sign before the name and the mark of pending values after it
are not written out; `mark` is the gap before the mark. -/
structure Cut where
  before : Text
  gap : Text
  name : Text
  mark : Option Text
  after : Text
deriving DecidableEq

namespace Cut

def text (c : Cut) : Text := c.before ++ '$' :: (c.gap ++ (c.name ++ closing c.mark c.after))

structure IsValid (c : Cut) : Prop where
  before : ∀ a ∈ c.before, isBlank a
  gap : IsGap c.gap
  name : isName c.name
  mark : ∀ g, c.mark = some g → IsGap g
  after : ∀ a ∈ c.after, isBlank a

end Cut

/-! ### Reading a cut -/

theorem ending?_eq_some_iff {t : Text} {pending : Bool} : ending? t = some pending ↔
    ∃ mark after, (∀ g, mark = some g → IsGap g) ∧ (∀ c ∈ after, isBlank c) ∧
      t = closing mark after ∧ pending = mark.isSome := by
  constructor
  · intro h
    have ht := List.takeWhile_append_dropWhile (p := isBlank) (l := t)
    have hgap : ∀ c ∈ t.takeWhile isBlank, isBlank c := fun c hc => List.mem_takeWhile_imp hc
    rw [ending?, Text.trimStart] at h
    rcases hrest : t.dropWhile isBlank with _ | ⟨c, r⟩
    · simp only [hrest] at h
      cases h
      refine ⟨none, t, ?_, ?_, rfl, rfl⟩
      · rintro g ⟨⟩
      · rw [hrest, List.append_nil] at ht
        rwa [ht] at hgap
    · simp only [hrest] at h
      split at h
      · rename_i hclosed
        cases h
        simp only [Bool.and_eq_true, decide_eq_true_eq, List.all_eq_true] at hclosed
        obtain ⟨⟨rfl, hhead⟩, hafter⟩ := hclosed
        refine ⟨some (t.takeWhile isBlank), r, ?_, hafter, ?_, rfl⟩
        · rintro g ⟨⟩
          refine ⟨fun hnil => ?_, hgap⟩
          -- without a gap the text would begin with the sign, which is not blank
          rw [hnil, hrest, List.nil_append] at ht
          rw [← ht] at hhead
          cases hhead
        · rw [closing, ← hrest, ht]
      · cases h
  · rintro ⟨mark, after, hmark, hafter, rfl, rfl⟩
    rcases mark with _ | gap
    · have htrim : Text.trimStart after = [] := List.dropWhile_eq_nil_iff.2 hafter
      rw [closing, ending?, htrim]
      rfl
    · obtain ⟨hne, hblank⟩ := hmark gap rfl
      have htrim : Text.trimStart (closing (some gap) after) = '$' :: after := by
        rw [closing, Text.trimStart_append hblank]
        rfl
      have hhead : (closing (some gap) after).head?.any isBlank := by
        rcases gap with _ | ⟨c, gap⟩
        · exact absurd rfl hne
        · exact hblank c (List.mem_cons_self ..)
      rw [ending?, htrim]
      simp only [hhead, List.all_eq_true.2 hafter]
      rfl

variable {t key : Text} {d : Declaration}

theorem exists_of_afterSign? (h : afterSign? t = some d) :
    ∃ gap mark after, IsGap gap ∧ isName d.name ∧ (∀ g, mark = some g → IsGap g) ∧
      (∀ c ∈ after, isBlank c) ∧ t = gap ++ (d.name ++ closing mark after) ∧
      d.pending = mark.isSome := by
  obtain ⟨⟨gap, rest⟩, hgap, hrest⟩ := List.exists_of_findSome?_eq_some h
  dsimp only at hrest
  split at hrest
  · cases hrest
  rename_i hne
  obtain ⟨⟨name, rest'⟩, hname, hend⟩ := List.exists_of_findSome?_eq_some hrest
  obtain ⟨pending, hpending, rfl⟩ := Option.map_eq_some_iff.1 hend
  obtain ⟨mark, after, hmark, hafter, hclosing, rfl⟩ := ending?_eq_some_iff.1 hpending
  obtain ⟨hcut, hblank⟩ := Text.mem_runs_iff.1 hgap
  obtain ⟨hcut', hisName⟩ := mem_namesAtFront_iff.1 hname
  refine ⟨gap, mark, after, ⟨mt List.isEmpty_iff.2 hne, hblank⟩, hisName, hmark, hafter, ?_, rfl⟩
  rw [← hclosing, hcut', hcut]

theorem isSome_afterSign? {gap name after : Text} {mark : Option Text} (hgap : IsGap gap)
    (hname : isName name) (hmark : ∀ g, mark = some g → IsGap g)
    (hafter : ∀ c ∈ after, isBlank c) :
    (afterSign? (gap ++ (name ++ closing mark after))).isSome := by
  have hend : ending? (closing mark after) = some mark.isSome :=
    ending?_eq_some_iff.2 ⟨mark, after, hmark, hafter, rfl, rfl⟩
  have hne : ¬ gap.isEmpty = true := mt List.isEmpty_iff.1 hgap.1
  rw [afterSign?, List.findSome?_isSome_iff]
  refine ⟨(gap, name ++ closing mark after), Text.mem_runs_iff.2 ⟨rfl, hgap.2⟩, ?_⟩
  rw [if_neg hne, List.findSome?_isSome_iff]
  refine ⟨(name, closing mark after), mem_namesAtFront_iff.2 ⟨rfl, hname⟩, ?_⟩
  rw [hend]
  rfl

theorem exists_cut_of_parse? (h : parse? key = some d) :
    ∃ c : Cut, c.IsValid ∧ c.text = key ∧ d = ⟨c.name, c.mark.isSome⟩ := by
  have hkey := List.takeWhile_append_dropWhile (p := isBlank) (l := key)
  rw [parse?, Text.trimStart] at h
  rcases hrest : key.dropWhile isBlank with _ | ⟨c, r⟩
  · simp only [hrest] at h
    cases h
  · simp only [hrest] at h
    split at h
    · rename_i hc
      subst hc
      obtain ⟨gap, mark, after, hgap, hname, hmark, hafter, rfl, hpending⟩ := exists_of_afterSign? h
      refine ⟨⟨key.takeWhile isBlank, gap, d.name, mark, after⟩, ⟨?_, hgap, hname, hmark, hafter⟩,
        ?_, ?_⟩
      · exact fun c hc => List.mem_takeWhile_imp hc
      · rw [Cut.text, ← hrest, hkey]
      · rw [← hpending]
    · cases h

theorem Cut.IsValid.isSome_parse? {c : Cut} (h : c.IsValid) : (parse? c.text).isSome := by
  have htrim : Text.trimStart c.text = '$' :: (c.gap ++ (c.name ++ closing c.mark c.after)) := by
    rw [Cut.text, Text.trimStart_append h.before]
    rfl
  rw [parse?, htrim]
  exact isSome_afterSign? h.gap h.name h.mark h.after

/-! ### Keys in whose names no blank can stand -/

theorem closing_inj {mark mark' : Option Text} {after after' : Text}
    (hm : ∀ g, mark = some g → IsGap g) (hm' : ∀ g, mark' = some g → IsGap g)
    (ha : ∀ c ∈ after, isBlank c) (ha' : ∀ c ∈ after', isBlank c)
    (h : closing mark after = closing mark' after') : mark = mark' ∧ after = after' := by
  have hsign : ∀ {g t after : Text}, (∀ c ∈ after, isBlank c) → g ++ '$' :: t ≠ after := by
    rintro g t _ hblank rfl
    exact sign_notMem_of_isBlank hblank (by simp)
  rcases mark with _ | g <;> rcases mark' with _ | g'
  · exact ⟨rfl, h⟩
  · exact absurd h.symm (hsign ha)
  · exact absurd h (hsign ha')
  · obtain ⟨rfl, hafter⟩ := Text.eq_of_run_append (hm g rfl).2 (hm' g' rfl).2
      (isBlank_head_sign _) (isBlank_head_sign _) h
    exact ⟨rfl, (List.cons.inj hafter).2⟩

theorem head_closing {mark : Option Text} {after : Text} (hm : ∀ g, mark = some g → IsGap g)
    (ha : ∀ c ∈ after, isBlank c) : ∀ c ∈ (closing mark after).head?, isBlank c := by
  intro c hc
  rcases mark with _ | g
  · exact ha c (List.mem_of_mem_head? hc)
  · exact (hm g rfl).head _ c hc

namespace Cut

variable {c c' : Cut}

theorem isNameChar_eq_false {a : Char} (hu : '\u1680' ∉ c.text) (hmem : a ∈ c.text)
    (ha : isBlank a) : isNameChar a = false := by
  rw [Bool.eq_false_iff]
  intro hname
  rw [isBlank_of_isNameChar hname (fun he => hu (he ▸ hmem))] at ha
  cases ha

theorem IsValid.head_name (h : c.IsValid) (hu : '\u1680' ∉ c.text) :
    ∀ a ∈ (c.name ++ closing c.mark c.after).head?, isBlank a = false := by
  intro a ha
  have hname := h.name
  rcases hc : c.name with _ | ⟨b, r⟩
  · rw [hc] at hname
    cases hname
  · rw [hc] at ha
    cases ha
    refine isBlank_of_isNameChar (isNameChar_of_isName hname a (by simp [hc])) ?_
    rintro rfl
    exact hu (by simp [text, hc])

theorem IsValid.head_closing (h : c.IsValid) (hu : '\u1680' ∉ c.text) :
    ∀ a ∈ (closing c.mark c.after).head?, isNameChar a = false := by
  intro a ha
  refine isNameChar_eq_false hu ?_ (Declaration.head_closing h.mark h.after a ha)
  have hmem := List.mem_of_mem_head? ha
  simp [text, hmem]

/-- Both cuts have their parts one after the other in the same text, and each part ends where its
characters do. -/
theorem IsValid.unique (h : c.IsValid) (h' : c'.IsValid) (ht : c'.text = c.text)
    (hu : '\u1680' ∉ c.text) : c' = c := by
  have hu' : '\u1680' ∉ c'.text := ht ▸ hu
  obtain ⟨hbefore, hrest⟩ := Text.eq_of_run_append h'.before h.before
    (isBlank_head_sign _) (isBlank_head_sign _) ht
  obtain ⟨hgap, hrest⟩ := Text.eq_of_run_append h'.gap.2 h.gap.2
    (h'.head_name hu') (h.head_name hu) (List.cons.inj hrest).2
  obtain ⟨hname, hrest⟩ := Text.eq_of_run_append (isNameChar_of_isName h'.name)
    (isNameChar_of_isName h.name) (h'.head_closing hu') (h.head_closing hu) hrest
  obtain ⟨hmark, hafter⟩ := closing_inj h'.mark h.mark h'.after h.after hrest
  obtain ⟨before, gap, name, mark, after⟩ := c
  obtain ⟨before', gap', name', mark', after'⟩ := c'
  cases hbefore
  cases hgap
  cases hname
  cases hmark
  cases hafter
  rfl

theorem IsValid.signsBeforeBlanks (h : c.IsValid) : SignsBeforeBlanks c.text := by
  have hname : '$' ∉ c.name := fun hm =>
    absurd (isNameChar_of_isName h.name _ hm) (by decide)
  have hafter : SignsBeforeBlanks c.after := by
    rw [← List.append_nil c.after]
    exact .append_of_notMem (sign_notMem_of_isBlank h.after) .nil
  have hclosing : SignsBeforeBlanks (closing c.mark c.after) := by
    rcases hm : c.mark with _ | g
    · exact hafter
    · refine .append_of_notMem (sign_notMem_of_isBlank (h.mark g hm).2) (.sign_cons ?_ hafter)
      exact fun a ha => h.after a (List.mem_of_mem_head? ha)
  refine .append_of_notMem (sign_notMem_of_isBlank h.before) (.sign_cons (h.gap.head _) ?_)
  exact .append_of_notMem (sign_notMem_of_isBlank h.gap.2) (.append_of_notMem hname hclosing)

end Cut

end Declaration

/-! ### The tests of a key -/

namespace Key

/-- The tests that `classify` makes, in its order. -/
def tests : List (Text → Option Key) :=
  [fun key => (Declaration.parse? key).map .declaration,
    fun key => if Macros.hasReferences key then some (.unexpanded key) else none,
    fun key => (Template.parse? key).map .statement]

/-- What a key is by the first test that has an answer. -/
def byTests (tests : List (Text → Option Key)) (key : Text) : Key :=
  (tests.findSome? fun test => test key).getD .unrecognized

theorem classify_eq_byTests (key : Text) : classify key = byTests tests key := by
  rw [classify]
  rcases hd : Declaration.parse? key with _ | d
  · rcases hr : Macros.hasReferences key with _ | _
    · rcases ht : Template.parse? key with _ | t
      · simp [byTests, tests, hd, hr, ht]
      · simp [byTests, tests, hd, hr, ht]
    · simp [byTests, tests, hd, hr]
  · simp [byTests, tests, hd]

/-- Tests that have the same answer, if any, may be made in any order. -/
theorem byTests_eq_of_mem {ts : List (Text → Option Key)} {key : Text} {k : Key}
    {test : Text → Option Key} (hmem : test ∈ ts) (hk : test key = some k)
    (h : ∀ test ∈ ts, ∀ k', test key = some k' → k' = k) : byTests ts key = k := by
  have hsome : (ts.findSome? fun test => test key).isSome :=
    List.findSome?_isSome_iff.2 ⟨test, hmem, by rw [hk]; rfl⟩
  obtain ⟨k', hk'⟩ := Option.isSome_iff_exists.1 hsome
  obtain ⟨test', hmem', ht'⟩ := List.exists_of_findSome?_eq_some hk'
  rw [byTests, hk', Option.getD_some, h test' hmem' k' ht']

end Key

namespace Declaration

/-- A key is a declaration exactly if it can be cut into the parts of one. Without U+1680 in it
there is only one such cut, and the key declares the name in it, with pending values if the mark is
there; it is no statement and refers to no macro, so the tests of a key may be made in any order. -/
theorem parse?_of_cuts (key : Text) :
    ((parse? key).isSome ↔ ∃ c : Cut, c.IsValid ∧ c.text = key) ∧
    ('\u1680' ∉ key → ∀ c : Cut, c.IsValid → c.text = key →
      (∀ c' : Cut, c'.IsValid → c'.text = key → c' = c) ∧
      parse? key = some ⟨c.name, c.mark.isSome⟩ ∧
      Template.parse? key = none ∧ Macros.hasReferences key = false ∧
      ∀ tests, tests.Perm Key.tests → Key.byTests tests key = Key.classify key) := by
  refine ⟨⟨fun h => ?_, fun ⟨c, hc, ht⟩ => ht ▸ hc.isSome_parse?⟩, fun hu c hc ht => ?_⟩
  · obtain ⟨d, hd⟩ := Option.isSome_iff_exists.1 h
    obtain ⟨c, hc, ht, -⟩ := exists_cut_of_parse? hd
    exact ⟨c, hc, ht⟩
  subst ht
  have hunique : ∀ c' : Cut, c'.IsValid → c'.text = c.text → c' = c :=
    fun c' hc' ht => hc.unique hc' ht hu
  have hparse : parse? c.text = some ⟨c.name, c.mark.isSome⟩ := by
    obtain ⟨d, hd⟩ := Option.isSome_iff_exists.1 hc.isSome_parse?
    obtain ⟨c', hc', ht, rfl⟩ := exists_cut_of_parse? hd
    rw [hd, hunique c' hc' ht]
  have htemplate := Template.parse?_eq_none_of_declaration hparse
  have href := hc.signsBeforeBlanks.hasReferences_eq_false hu
  have htests : ∀ tests, tests.Perm Key.tests →
      Key.byTests tests c.text = .declaration ⟨c.name, c.mark.isSome⟩ := by
    intro tests hperm
    refine Key.byTests_eq_of_mem (hperm.mem_iff.2 (List.mem_cons_self ..))
      (by simp only [hparse, Option.map_some]) fun test hmem k hk => ?_
    simp only [hperm.mem_iff, Key.tests, List.mem_cons, List.not_mem_nil, or_false] at hmem
    rcases hmem with rfl | rfl | rfl
    · simp only [hparse, Option.map_some, Option.some.injEq] at hk
      exact hk.symm
    · simp [href] at hk
    · simp [htemplate] at hk
  refine ⟨hunique, hparse, htemplate, href, fun tests hperm => ?_⟩
  rw [htests tests hperm, Key.classify_eq_byTests, htests _ (.refl _)]

/-- A key with blanks of several kinds, and with U+1680 a key that may be cut in two ways. -/
theorem parse?_of_cuts_pending :
    parse? "\t$\u3000n-1 \n$ " = some ⟨"n-1", true⟩ ∧
      Key.byTests Key.tests.reverse "\t$\u3000n-1 \n$ " = Key.classify "\t$\u3000n-1 \n$ " ∧
      (parse? "$ a\u1680$").isSome := by
  have hgap : ∀ t : Text, t ≠ [] → t.all isBlank → IsGap t :=
    fun t hne hall => ⟨hne, List.all_eq_true.1 hall⟩
  have hcut : (⟨"\t", "\u3000", "n-1", some " \n", " "⟩ : Cut).IsValid :=
    { before := List.all_eq_true.1 rfl
      gap := hgap _ nofun rfl
      name := rfl
      mark := by rintro g ⟨⟩; exact hgap _ nofun rfl
      after := List.all_eq_true.1 rfl }
  have hcut' : (⟨[], " ", "a", some "\u1680", []⟩ : Cut).IsValid :=
    { before := nofun
      gap := hgap _ nofun rfl
      name := rfl
      mark := by rintro g ⟨⟩; exact hgap _ nofun rfl
      after := nofun }
  obtain ⟨-, hkey⟩ := parse?_of_cuts "\t$\u3000n-1 \n$ "
  obtain ⟨-, hparse, -, -, htests⟩ := hkey (by decide) _ hcut rfl
  exact ⟨hparse, htests _ (List.reverse_perm _), (parse?_of_cuts _).1.2 ⟨_, hcut', rfl⟩⟩

end Declaration

end FormEdits
