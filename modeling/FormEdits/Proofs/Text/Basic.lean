import FormEdits.Text.Basic
import Mathlib.Data.List.TakeWhile

/-! # Texts taken apart and put together

What follows the start of a text, the characters at the front of a text that satisfy a predicate, and
the characters of texts with something between them. -/

namespace FormEdits

namespace Text

variable {c : Char} {t r s : Text}

theorem after?_eq_some_iff {start : Text} :
    after? start t = some r ↔ start ++ r = t := by
  induction start generalizing t with
  | nil => simp [after?, eq_comm]
  | cons c start ih =>
    cases t with
    | nil => simp [after?]
    | cons d t =>
      rw [after?]
      split
      · rename_i hc
        rw [ih, hc]
        simp
      · rename_i hc
        simp [Ne.symm hc]

theorem takeWhile_append_of_head {q : Char → Bool} (hr : r.all q)
    (hs : ∀ c ∈ s.head?, q c = false) : (r ++ s).takeWhile q = r := by
  rw [List.takeWhile_append_of_pos (List.all_eq_true.1 hr)]
  cases s with
  | nil => rw [List.takeWhile_nil, List.append_nil]
  | cons c s =>
    have hc : ¬ q c = true := by simp [hs c rfl]
    rw [List.takeWhile_cons_of_neg hc, List.append_nil]

theorem dropWhile_append_of_head {q : Char → Bool} (hr : r.all q)
    (hs : ∀ c ∈ s.head?, q c = false) : (r ++ s).dropWhile q = s := by
  rw [List.dropWhile_append_of_pos (List.all_eq_true.1 hr)]
  cases s with
  | nil => rfl
  | cons c s =>
    have hc : ¬ q c = true := by simp [hs c rfl]
    rw [List.dropWhile_cons_of_neg hc]

theorem mem_intercalate {u : Text} {ts : List Text} (h : c ∈ u.intercalate ts) :
    c ∈ u ∨ ∃ t ∈ ts, c ∈ t := by
  induction ts with
  | nil => cases h
  | cons t ts ih =>
    cases ts with
    | nil => exact .inr ⟨t, List.mem_singleton_self t, by simpa using h⟩
    | cons t' ts =>
      rw [List.intercalate_cons_cons, List.mem_append, List.mem_append] at h
      rcases h with (h | h) | h
      · exact .inr ⟨t, List.mem_cons_self .., h⟩
      · exact .inl h
      · exact (ih h).imp_right fun ⟨t'', ht, hc⟩ => ⟨t'', List.mem_cons_of_mem _ ht, hc⟩

theorem mem_intercalate_of_mem {u : Text} {ts : List Text} (ht : t ∈ ts)
    (hc : c ∈ t) : c ∈ u.intercalate ts := by
  induction ts with
  | nil => cases ht
  | cons t' ts ih =>
    cases ts with
    | nil => simpa [List.mem_singleton.1 ht] using hc
    | cons t'' ts =>
      rw [List.intercalate_cons_cons, List.mem_append, List.mem_append]
      rcases List.mem_cons.1 ht with rfl | ht
      · exact .inl (.inl hc)
      · exact .inr (ih ht)

end Text

end FormEdits
