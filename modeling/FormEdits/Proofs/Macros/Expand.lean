import FormEdits.Macros.Expand
import Mathlib.Data.List.Basic

/-! # Expansions as substitutions

When the macros that a text refers to stand for texts, its expansions are the `substitutions` of
those texts, and nothing is drawn from the supply (`expand_eq_substitutions`). -/

namespace FormEdits

/-- The texts that a part may become, when `σ` has the texts of the bound macros. A reference to an
unbound macro stays as it is written. -/
def Piece.choices (σ : Text → Option (List Text)) : Piece → List Text
  | literal t => [t]
  | reference name braced => (σ name).getD [(reference name braced).text]

namespace Macros

/-- All ways to choose a text for each part, the choice for the first part varying slowest. -/
def substitutions (σ : Text → Option (List Text)) : List Piece → List Text
  | [] => [[]]
  | p :: ps => (p.choices σ).flatMap fun t => (substitutions σ ps).map (t ++ ·)

theorem substitutions_congr {ρ ρ' : Text → Option (List Text)} {ps : List Piece}
    (h : ∀ p ∈ ps, ∀ x, p.name? = some x → ρ x = ρ' x) :
    substitutions ρ ps = substitutions ρ' ps := by
  induction ps with
  | nil => rfl
  | cons p ps ih =>
    have hp : p.choices ρ = p.choices ρ' := by
      cases p with
      | literal t => rfl
      | reference x braced => rw [Piece.choices, h _ (List.mem_cons_self ..) x rfl, Piece.choices]
    rw [substitutions, substitutions, hp,
      ih fun p hp => h p (List.mem_cons_of_mem _ hp)]

theorem mem_names {t x : Text} : x ∈ names t ↔ ∃ p ∈ pieces t, p.name? = some x := by
  rw [names, List.mem_eraseDups, List.mem_filterMap]

theorem renderAll_text (ts : List Text) (s : Supply) : renderAll (ts.map .text) s = (ts, s) := by
  induction ts with
  | nil => rfl
  | cons t ts ih => simp [renderAll, MacroValue.render, ih]

theorem appendEach_text (ts : List Text) (begun : List Text) (s : Supply) :
    appendEach (ts.map .text) begun s = (begun.flatMap fun b => ts.map (b ++ ·), s) := by
  induction begun with
  | nil => rfl
  | cons b bs ih => simp [appendEach, renderAll_text, ih]

theorem valuesOf_text {m : Expansions} {σ : Text → Option (List Text)} {p : Piece}
    (h : ∀ x, p.name? = some x → m.find? x = (σ x).map (List.map .text)) :
    valuesOf m p = (p.choices σ).map .text := by
  cases p with
  | literal t => rfl
  | reference x braced =>
    rw [valuesOf, h x rfl, Piece.choices]
    rcases σ x with _ | ts
    · rfl
    · rfl

theorem expandFrom_eq_substitutions {m : Expansions} {σ : Text → Option (List Text)}
    {ps : List Piece} (h : ∀ p ∈ ps, ∀ x, p.name? = some x → m.find? x = (σ x).map (List.map .text))
    (begun : List Text) (s : Supply) :
    expandFrom m ps begun s = (begun.flatMap fun b => (substitutions σ ps).map (b ++ ·), s) := by
  induction ps generalizing begun with
  | nil => simp [expandFrom, substitutions]
  | cons p ps ih =>
    have hp := valuesOf_text (h p (List.mem_cons_self ..))
    have ih := ih (fun p hp => h p (List.mem_cons_of_mem _ hp))
    simp only [expandFrom, hp, appendEach_text, ih, substitutions]
    simp [List.flatMap_assoc, List.map_flatMap, List.flatMap_map, Function.comp_def]

theorem expand_eq_substitutions {m : Expansions} {σ : Text → Option (List Text)} {t : Text}
    (h : ∀ x ∈ names t, m.find? x = (σ x).map (List.map .text)) (s : Supply) :
    expand m t s = (substitutions σ (pieces t), s) := by
  rw [expand, expandFrom_eq_substitutions fun p hp x hx => h x (mem_names.2 ⟨p, hp, hx⟩)]
  simp

end Macros

end FormEdits
