import FormEdits.Proofs.Macros.Reference
import FormEdits.Proofs.Text.Basic
import FormEdits.Proofs.Assoc

/-! # Expanding a text part by part

No reference begins or ends inside another one, so a text around a reference is cut into parts as
what stands before it and what stands after it are cut alone (`pieces_append_reference`). The
expansions of a text are therefore put together from those of the two sides and the values of the
macro, which stay as they are (`expand_append_reference`). -/

namespace FormEdits

/-- Macros that stand for texts, none of which is generated. -/
def Expansions.ofTexts (table : Assoc Text (List Text)) : Expansions :=
  table.map fun e => (e.1, e.2.map .text)

theorem Expansions.find?_ofTexts (table : Assoc Text (List Text)) (x : Text) :
    (ofTexts table).find? x = (table.find? x).map (List.map .text) := by
  induction table with
  | nil => rfl
  | cons e table ih =>
    by_cases h : x = e.1
    · subst h
      rw [ofTexts, List.map_cons, Assoc.find?_cons_self, Assoc.find?_cons_self, Option.map_some]
    · rw [ofTexts, List.map_cons, Assoc.find?_cons_of_ne h, Assoc.find?_cons_of_ne h]
      exact ih

theorem Piece.exists_text_reference (x : Text) (braced : Bool) :
    ∃ w, (reference x braced).text = '$' :: w := by
  cases braced <;> exact ⟨_, rfl⟩

namespace Macros

variable {p r s t u x : Text} {braced : Bool}

/-- What follows a reference does not go on with its name. The name in a braced one is closed. -/
def EndsBefore (braced : Bool) (s : Text) : Prop :=
  braced = false → ∀ c ∈ s.head?, isNameChar c = false

theorem endsBefore_braced (s : Text) : EndsBefore true s := fun h => by cases h

/-- A reference to the macro stands somewhere in the text. -/
def RefersTo (t x : Text) : Prop :=
  ∃ p braced s, isName x ∧ EndsBefore braced s ∧ t = p ++ (Piece.reference x braced).text ++ s

/-! ### Names -/

theorem nameAtFront_append (hx : isName x) (hs : ∀ c ∈ s.head?, isNameChar c = false) :
    nameAtFront (x ++ s) = x := by
  cases x with
  | nil => cases hx
  | cons c r =>
    obtain ⟨hc, hr⟩ := Bool.and_eq_true_iff.1 hx
    rw [List.cons_append, nameAtFront, if_pos hc, Text.takeWhile_append_of_head hr hs]

theorem isName_nameAtFront (h : nameAtFront t ≠ []) : isName (nameAtFront t) ∧
    ∃ s, t = nameAtFront t ++ s ∧ ∀ c ∈ s.head?, isNameChar c = false := by
  cases t with
  | nil => exact absurd rfl h
  | cons c r =>
    rw [nameAtFront] at h ⊢
    split at h
    · rename_i hc
      rw [if_pos hc]
      refine ⟨?_, r.dropWhile isNameChar, ?_, ?_⟩
      · rw [isName, hc, Bool.true_and]
        exact List.all_takeWhile
      · rw [List.cons_append, List.takeWhile_append_dropWhile]
      · intro d hd
        simpa [Option.mem_def.1 hd] using List.head?_dropWhile_not isNameChar r
    · exact absurd rfl h

theorem nameAtFront_append_sign (t u : Text) : nameAtFront (t ++ '$' :: u) = nameAtFront t := by
  cases t with
  | nil => rfl
  | cons c r =>
    have hsign : ¬ isNameChar '$' = true := by decide
    rw [List.cons_append, nameAtFront, nameAtFront, List.takeWhile_append,
      List.takeWhile_cons_of_neg hsign, List.append_nil]
    split
    · split
      · rename_i hlength
        rw [(List.takeWhile_prefix isNameChar).eq_of_length hlength]
      · rfl
    · rfl

/-! ### References at the front of a text -/

theorem referenceAtFront?_append (hx : isName x) (hs : EndsBefore braced s) :
    referenceAtFront? ((Piece.reference x braced).text ++ s) = some (.reference x braced) := by
  have hne : x.isEmpty = false := by
    cases x with
    | nil => cases hx
    | cons c r => rfl
  cases braced with
  | true =>
    have hname : nameAtFront (x ++ '}' :: s) = x :=
      nameAtFront_append hx (by rintro c ⟨⟩; decide)
    have hbrace : (x ++ '}' :: s)[x.length]? = some '}' := by simp
    show referenceAfterSign? (('{' :: x ++ ['}']) ++ s) = _
    rw [List.append_assoc, List.cons_append, referenceAfterSign?, if_pos rfl]
    simp only [List.singleton_append, hname, hne, hbrace]
    rfl
  | false =>
    obtain ⟨c, r, rfl⟩ : ∃ c r, x = c :: r := by
      cases x with
      | nil => cases hx
      | cons c r => exact ⟨c, r, rfl⟩
    have hc : c ≠ '{' := by
      rintro rfl
      have hstart : isNameStart '{' = false := by decide
      simp [isName, hstart] at hx
    show referenceAfterSign? (c :: r ++ s) = _
    rw [List.cons_append, referenceAfterSign?, if_neg hc, ← List.cons_append,
      nameAtFront_append hx (hs rfl)]
    rfl

/-- What a `$` begins ends before the next `$`. -/
theorem referenceAfterSign?_append_sign (t u : Text) :
    referenceAfterSign? (t ++ '$' :: u) = referenceAfterSign? t := by
  cases t with
  | nil => rfl
  | cons c r =>
    rw [List.cons_append, referenceAfterSign?, referenceAfterSign?, ← List.cons_append,
      nameAtFront_append_sign, nameAtFront_append_sign]
    split
    · have hclosed : ((r ++ '$' :: u)[(nameAtFront r).length]? != some '}') =
          (r[(nameAtFront r).length]? != some '}') := by
        -- a name that takes all of the text is not closed, with or without the sign after it
        rcases Nat.eq_or_lt_of_le ( nameAtFront_prefix r).length_le with hlength | hlength
        · have hsign : (some '$' != some '}') = (none != some '}') := by decide
          simpa [hlength] using hsign
        · rw [List.getElem?_append_left hlength]
      simp only [hclosed]
    · rfl

theorem referenceAtFront?_append_sign (c : Char) (r u : Text) :
    referenceAtFront? (c :: r ++ '$' :: u) = referenceAtFront? (c :: r) := by
  rw [List.cons_append, referenceAtFront?, referenceAtFront?, referenceAfterSign?_append_sign]

theorem exists_of_referenceAtFront? {q : Piece} (h : referenceAtFront? t = some q) :
    ∃ x braced s, q = .reference x braced ∧ isName x ∧ EndsBefore braced s ∧ t = q.text ++ s := by
  obtain ⟨w, s, hw, ht⟩ := text_of_referenceAtFront? h
  rw [← hw] at ht
  subst ht
  rw [hw, List.cons_append, referenceAtFront?, if_pos rfl] at h
  rcases hr : w ++ s with _ | ⟨c, r⟩
  · rw [hr] at h
    cases h
  rw [hr, referenceAfterSign?] at h
  dsimp only at h
  split at h
  · split at h
    · cases h
    rename_i hopen
    simp only [Bool.or_eq_true, not_or, List.isEmpty_iff] at hopen
    cases h
    exact ⟨_, true, s, rfl, (isName_nameAtFront hopen.1).1, endsBefore_braced s, rfl⟩
  · split at h
    · cases h
    rename_i hname
    cases h
    obtain ⟨hx, s', hs', hends⟩ := isName_nameAtFront (mt List.isEmpty_iff.2 hname)
    refine ⟨_, false, s, rfl, hx, fun _ => ?_, rfl⟩
    -- the name is all of the reference but its sign, so both leave the same rest
    have hname : nameAtFront (c :: r) = w := (List.cons.inj hw).2
    rw [hname, ← hr] at hs'
    rw [List.append_cancel_left hs']
    exact hends

/-! ### The parts of a text around a reference -/

theorem piecesFrom_length_append (w s : Text) : piecesFrom w.length (w ++ s) = pieces s := by
  induction w with
  | nil => rfl
  | cons c w ih => exact ih

theorem pieces_reference_append (hx : isName x) (hs : EndsBefore braced s) :
    pieces ((Piece.reference x braced).text ++ s) = .reference x braced :: pieces s := by
  have hfront := referenceAtFront?_append hx hs
  obtain ⟨w, hw⟩ := Piece.exists_text_reference x braced
  rw [hw, List.cons_append] at hfront ⊢
  rw [pieces, piecesFrom, hfront]
  simp only [hw, List.length_cons, Nat.add_sub_cancel, piecesFrom_length_append]

theorem consLiteral_append (c : Char) (ps qs : List Piece) (q : Piece) (hq : q.name?.isSome) :
    consLiteral c (ps ++ q :: qs) = consLiteral c ps ++ q :: qs := by
  rcases ps with _ | ⟨p, ps⟩
  · cases q with
    | literal t => cases hq
    | reference x braced => rfl
  · cases p <;> rfl

/-- A part that has been taken may end within the text before the sign, not after it. -/
theorem piecesFrom_append {q : Piece} {qs : List Piece} (hu : pieces ('$' :: u) = q :: qs)
    (hq : q.name?.isSome) {skip : Nat} (hskip : skip ≤ p.length) :
    piecesFrom skip (p ++ '$' :: u) = piecesFrom skip p ++ q :: qs := by
  induction p generalizing skip with
  | nil =>
    obtain rfl : skip = 0 := Nat.le_zero.1 hskip
    exact hu
  | cons c r ih =>
    cases skip with
    | succ skip => exact ih (Nat.le_of_succ_le_succ hskip)
    | zero =>
      rw [List.cons_append, piecesFrom, piecesFrom, ← List.cons_append,
        referenceAtFront?_append_sign]
      split
      · rename_i p' hp'
        obtain ⟨w, rest, hw, hr⟩ := text_of_referenceAtFront? hp'
        obtain ⟨-, rfl⟩ := List.cons.inj hr
        rw [ih (by simp [hw]), List.cons_append]
      · rw [ih (Nat.zero_le _), consLiteral_append c _ _ _ hq]

theorem pieces_append_reference (p : Text) (hx : isName x) (hs : EndsBefore braced s) :
    pieces (p ++ (Piece.reference x braced).text ++ s) =
      pieces p ++ .reference x braced :: pieces s := by
  have hfront := pieces_reference_append hx hs
  obtain ⟨w, hw⟩ := Piece.exists_text_reference x braced
  rw [hw, List.cons_append] at hfront
  rw [List.append_assoc, hw, List.cons_append]
  exact piecesFrom_append hfront rfl (Nat.zero_le _)

/-! ### The names of a text -/

theorem mem_consLiteral {c : Char} {ps : List Piece}
    (h : Piece.reference x braced ∈ consLiteral c ps) : .reference x braced ∈ ps := by
  rcases ps with _ | ⟨_ | _, ps⟩
  · simp [consLiteral] at h
  · simpa [consLiteral] using h
  · simpa [consLiteral] using h

theorem exists_of_mem_piecesFrom {skip : Nat}
    (h : Piece.reference x braced ∈ piecesFrom skip t) :
    ∃ p s, isName x ∧ EndsBefore braced s ∧ t = p ++ (Piece.reference x braced).text ++ s := by
  induction t generalizing skip with
  | nil => cases skip <;> cases h
  | cons c r ih =>
    have hrest : ∀ {skip}, Piece.reference x braced ∈ piecesFrom skip r →
        ∃ p s, isName x ∧ EndsBefore braced s ∧
          c :: r = p ++ (Piece.reference x braced).text ++ s := fun h => by
      obtain ⟨p, s, hx, hs, rfl⟩ := ih h
      exact ⟨c :: p, s, hx, hs, rfl⟩
    cases skip with
    | succ skip => exact hrest h
    | zero =>
      rw [piecesFrom] at h
      split at h
      · rename_i q hq
        rcases List.mem_cons.1 h with rfl | h
        · obtain ⟨_, _, s, hxb, hx, hs, ht⟩ := exists_of_referenceAtFront? hq
          cases hxb
          exact ⟨[], s, hx, hs, ht⟩
        · exact hrest h
      · exact hrest (mem_consLiteral h)

/-- The names of a text are those of the references that stand in it, wherever they stand. -/
theorem mem_names_iff_refersTo : x ∈ names t ↔ RefersTo t x := by
  rw [mem_names]
  constructor
  · rintro ⟨q, hq, hx⟩
    cases q with
    | literal w => cases hx
    | reference y braced =>
      cases hx
      obtain ⟨p, s, h⟩ := exists_of_mem_piecesFrom hq
      exact ⟨p, braced, s, h⟩
  · rintro ⟨p, braced, s, hx, hs, rfl⟩
    refine ⟨.reference x braced, ?_, rfl⟩
    rw [pieces_append_reference p hx hs]
    exact List.mem_append_right _ (List.mem_cons_self ..)

/-! ### Expansions -/

theorem substitutions_append (σ : Text → Option (List Text)) (ps qs : List Piece) :
    substitutions σ (ps ++ qs) =
      (substitutions σ ps).flatMap fun a => (substitutions σ qs).map (a ++ ·) := by
  induction ps with
  | nil => simp [substitutions]
  | cons p ps ih =>
    simp only [List.cons_append, substitutions, ih, List.flatMap_assoc, List.map_flatMap,
      List.flatMap_map, List.map_map, Function.comp_def, List.append_assoc]

theorem expand_ofTexts (table : Assoc Text (List Text)) (t : Text) (supply : Supply) :
    expand (.ofTexts table) t supply = (substitutions table.find? (pieces t), supply) :=
  expand_eq_substitutions (fun x _ => Expansions.find?_ofTexts table x) supply

theorem expandAll_ofTexts (table : Assoc Text (List Text)) (ts : List Text) (supply : Supply) :
    expandAll (.ofTexts table) ts supply =
      (ts.flatMap fun t => substitutions table.find? (pieces t), supply) := by
  induction ts with
  | nil => rfl
  | cons t ts ih => simp only [expandAll, expand_ofTexts, ih, List.flatMap_cons]

theorem expand_ofTexts_append (table : Assoc Text (List Text)) (p : Text) (hx : isName x)
    (hs : EndsBefore braced s) (supply : Supply) :
    expand (.ofTexts table) (p ++ (Piece.reference x braced).text ++ s) supply =
      ((expand (.ofTexts table) p supply).1.flatMap fun a =>
        ((table.find? x).getD [(Piece.reference x braced).text]).flatMap fun v =>
          (expand (.ofTexts table) s supply).1.map fun b => a ++ v ++ b, supply) := by
  rw [expand_ofTexts, pieces_append_reference p hx hs]
  simp only [expand_ofTexts, substitutions_append, substitutions, Piece.choices,
    List.map_flatMap, List.map_map, Function.comp_def, List.append_assoc]

theorem expand_ofTexts_of_unbound {table : Assoc Text (List Text)}
    (h : ∀ x, RefersTo t x → table.find? x = none) (supply : Supply) :
    expand (.ofTexts table) t supply = ([t], supply) :=
  expand_of_unbound (fun x hx => by
    rw [Expansions.find?_ofTexts, h x (mem_names_iff_refersTo.1 hx)]
    rfl) supply

/-- The expansions of a text around a reference are those of what stands before it, each with each
value of the macro and each expansion of what stands after it; a reference to an unbound macro has
itself for its one value. The values are put in as they are: between texts without references they
give one expansion each, whatever they refer to or complete to a reference. A text that refers to
no bound macro, as one that has no reference at all, is its only expansion. -/
theorem expand_append_reference (table : Assoc Text (List Text)) (supply : Supply) :
    (∀ p x braced s, isName x → EndsBefore braced s →
      expand (.ofTexts table) (p ++ (Piece.reference x braced).text ++ s) supply =
        ((expand (.ofTexts table) p supply).1.flatMap fun a =>
          ((table.find? x).getD [(Piece.reference x braced).text]).flatMap fun v =>
            (expand (.ofTexts table) s supply).1.map fun b => a ++ v ++ b, supply)) ∧
    (∀ p x braced s values, isName x → EndsBefore braced s → table.find? x = some values →
      (∀ y, ¬ RefersTo p y) → (∀ y, ¬ RefersTo s y) →
      expand (.ofTexts table) (p ++ (Piece.reference x braced).text ++ s) supply =
        (values.map fun v => p ++ v ++ s, supply)) ∧
    (∀ t, (∀ x, RefersTo t x → table.find? x = none) →
      expand (.ofTexts table) t supply = ([t], supply)) := by
  refine ⟨fun p x braced s hx hs => expand_ofTexts_append table p hx hs supply,
    fun p x braced s values hx hs hv hp hs' => ?_, fun t h => expand_ofTexts_of_unbound h supply⟩
  rw [expand_ofTexts_append table p hx hs, hv,
    expand_ofTexts_of_unbound (fun y hy => absurd hy (hp y)),
    expand_ofTexts_of_unbound (fun y hy => absurd hy (hs' y)), List.flatMap_singleton,
    List.map_eq_flatMap]
  rfl

/-- Two values that begin or are a reference, put between texts that go on with it or leave one
open. -/
theorem expand_append_reference_sign :
    (expand (.ofTexts [("m", ["$", "$\x7bm\x7d"])]) "$\x7ba$\x7bm\x7db$" (.fresh id id)).1 =
      (["$\x7ba$b$", "$\x7ba$\x7bm\x7db$"] : List Text) ∧
    (expand (.ofTexts [("m", ["$", "$\x7bm\x7d"])]) "$$m$m$n" (.fresh id id)).1 =
      (["$$$$n", "$$$\x7bm\x7d$n", "$$\x7bm\x7d$$n", "$$\x7bm\x7d$\x7bm\x7d$n"] : List Text) ∧
    (expand (.ofTexts [("m", ["$", "$\x7bm\x7d"])]) "$n$\x7bm" (.fresh id id)).1 =
      (["$n$\x7bm"] : List Text) := by
  have hnone : ∀ {t : Text}, names t = [] → ∀ y, ¬ RefersTo t y := fun h y hy => by
    rw [← mem_names_iff_refersTo, h] at hy
    cases hy
  obtain ⟨hcompose, hvalues, hunbound⟩ :=
    expand_append_reference [("m", ["$", "$\x7bm\x7d"])] (.fresh id id)
  refine ⟨?_, ?_, ?_⟩
  · have h := hvalues "$\x7ba" "m" true "b$" ["$", "$\x7bm\x7d"] (by decide)
      (endsBefore_braced _) rfl (hnone (by decide)) (hnone (by decide))
    exact congrArg Prod.fst h
  · have h := hcompose "$$m" "m" false "$n" (by decide) (by rintro - c ⟨⟩; decide)
    exact (congrArg Prod.fst h).trans (by decide)
  · have h := hunbound "$n$\x7bm" fun y hy => by
      have hn : y ∈ ([("n" : Text)] : List Text) := mem_names_iff_refersTo.2 hy
      rw [List.mem_singleton.1 hn]
      rfl
    exact congrArg Prod.fst h

end Macros

end FormEdits
