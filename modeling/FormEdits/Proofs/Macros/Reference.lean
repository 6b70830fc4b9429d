import FormEdits.Proofs.Macros.Expand

/-! # The parts of a text

Cutting a text into its references and the texts between them loses nothing: the parts as they are
written give the text back (`flatMap_text_pieces`). So a text whose references are all unbound
expands to itself alone (`expand_of_unbound`). -/

namespace FormEdits

namespace Macros

variable {t : Text} {p : Piece}

theorem nameAtFront_prefix (t : Text) : nameAtFront t <+: t := by
  cases t with
  | nil => exact List.prefix_rfl
  | cons c r =>
    rw [nameAtFront]
    split
    · exact (List.prefix_cons_inj c).2 (List.takeWhile_prefix _)
    · exact List.nil_prefix

theorem text_of_referenceAfterSign? (h : referenceAfterSign? t = some p) :
    ∃ w r, p.text = '$' :: w ∧ t = w ++ r := by
  cases t with
  | nil => cases h
  | cons c r =>
    rw [referenceAfterSign?] at h
    dsimp only at h
    split at h
    · obtain ⟨rest, hr⟩ := nameAtFront_prefix r
      generalize nameAtFront r = name at h hr
      split at h
      · cases h
      rename_i hc hclosed
      cases h
      subst hc hr
      -- what follows the name begins with the brace that closes the reference
      simp only [Bool.or_eq_true, bne_iff_ne, not_or, not_not] at hclosed
      have hbrace : (name ++ rest)[name.length]? = some '}' := hclosed.2
      rw [List.getElem?_append_right (Nat.le_refl _), Nat.sub_self] at hbrace
      cases rest with
      | nil => cases hbrace
      | cons d rest =>
        cases hbrace
        exact ⟨'{' :: (name ++ ['}']), rest, rfl, by simp⟩
    · obtain ⟨rest, hr⟩ := nameAtFront_prefix (c :: r)
      split at h
      · cases h
      · cases h
        exact ⟨nameAtFront (c :: r), rest, rfl, hr.symm⟩

theorem text_of_referenceAtFront? (h : referenceAtFront? t = some p) :
    ∃ w r, p.text = '$' :: w ∧ t = '$' :: w ++ r := by
  cases t with
  | nil => cases h
  | cons c r =>
    rw [referenceAtFront?] at h
    split at h
    · rename_i hc
      obtain ⟨w, rest, hw, rfl⟩ := text_of_referenceAfterSign? h
      exact ⟨w, rest, hw, by rw [hc]; rfl⟩
    · cases h

theorem flatMap_text_consLiteral (c : Char) (ps : List Piece) :
    (consLiteral c ps).flatMap Piece.text = c :: ps.flatMap Piece.text := by
  rcases ps with _ | ⟨t | ⟨x, braced⟩, ps⟩
  · rfl
  · rfl
  · rfl

theorem flatMap_text_piecesFrom (skip : Nat) (t : Text) :
    (piecesFrom skip t).flatMap Piece.text = t.drop skip := by
  induction t generalizing skip with
  | nil => cases skip <;> rfl
  | cons c r ih =>
    cases skip with
    | succ skip =>
      rw [piecesFrom, ih]
      rfl
    | zero =>
      rw [piecesFrom, List.drop_zero]
      split
      · rename_i p hp
        obtain ⟨w, rest, hw, ht⟩ := text_of_referenceAtFront? hp
        obtain ⟨rfl, rfl⟩ := List.cons.inj ht
        -- the reference takes its sign, and what is skipped is the rest of it
        have hskip : p.text.length - 1 = w.length := by rw [hw]; rfl
        rw [List.flatMap_cons, ih, hskip, hw]
        simp
      · rw [flatMap_text_consLiteral, ih]
        rfl

theorem flatMap_text_pieces (t : Text) : (pieces t).flatMap Piece.text = t :=
  flatMap_text_piecesFrom 0 t

theorem hasReferences_iff : hasReferences t ↔ ∃ x, x ∈ names t := by
  rw [hasReferences, List.any_eq_true]
  simp only [mem_names, Option.isSome_iff_exists]
  exact ⟨fun ⟨p, hp, x, hx⟩ => ⟨x, p, hp, hx⟩, fun ⟨x, p, hp, hx⟩ => ⟨p, hp, x, hx⟩⟩

theorem substitutions_unbound (ps : List Piece) :
    substitutions (fun _ => none) ps = [ps.flatMap Piece.text] := by
  induction ps with
  | nil => rfl
  | cons p ps ih =>
    have hp : p.choices (fun _ => none) = [p.text] := by cases p <;> rfl
    rw [substitutions, hp, ih]
    simp

/-- A text that refers to unbound macros alone stays as it is, and draws nothing. -/
theorem expand_of_unbound {m : Expansions} (h : ∀ x ∈ names t, m.find? x = none) (s : Supply) :
    expand m t s = ([t], s) := by
  rw [expand_eq_substitutions (σ := fun _ => none) h s, substitutions_unbound, flatMap_text_pieces]

end Macros

end FormEdits
