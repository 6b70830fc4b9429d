import FormEdits.Proofs.Text.Basic
import FormEdits.Text.Blank

/-! # The words of a text

`Spaced ws t` says that `t` consists of `ws` with blanks between and around them. A text is spaced
from its words (`spaced_words`), and words that a text is spaced from are its words
(`words_of_spaced`). -/

namespace FormEdits

namespace Text

/-- Not empty, and without blanks. -/
structure IsWord (w : Text) : Prop where
  ne_nil : w ≠ []
  isBlank : ∀ c ∈ w, isBlank c = false

instance (w : Text) : Decidable w.IsWord :=
  decidable_of_iff (w ≠ [] ∧ w.any FormEdits.isBlank = false)
    ⟨fun h => ⟨h.1, by simpa using h.2⟩, fun h => ⟨h.ne_nil, by simpa using h.isBlank⟩⟩

/-- The text consists of `ws`, in order, with blanks around them and at least one between two. -/
inductive Spaced : List Text → Text → Prop
  | nil : Spaced [] []
  | blank {ws t} (c : Char) : isBlank c → Spaced ws t → Spaced ws (c :: t)
  | word {ws t} (w : Text) : t.head?.all FormEdits.isBlank → Spaced ws t → Spaced (w :: ws) (w ++ t)

variable {c : Char} {w t : Text} {ws : List Text}

theorem IsWord.tail {d : Char} (h : IsWord (c :: d :: w)) : IsWord (d :: w) :=
  ⟨List.cons_ne_nil _ _, fun e he => h.isBlank e (List.mem_cons_of_mem _ he)⟩

theorem words_cons_of_isBlank (h : isBlank c) : words (c :: t) = words t := by
  rw [words, if_pos h]

theorem words_append (hw : IsWord w) (ht : t.head?.all FormEdits.isBlank) :
    words (w ++ t) = w :: words t := by
  induction w with
  | nil => exact absurd rfl hw.ne_nil
  | cons c w ih =>
    have hc : ¬ isBlank c = true := by simp [hw.isBlank c (List.mem_cons_self ..)]
    cases w with
    | nil => rw [List.singleton_append, words, if_neg hc, if_pos ht]
    | cons d w =>
      have hd : isBlank d = false := hw.isBlank d (by simp)
      have hhead : ¬ ((d :: w ++ t).head?.all FormEdits.isBlank) = true := by simp [hd]
      rw [List.cons_append, words, if_neg hc, if_neg hhead, ih hw.tail, List.modifyHead_cons]

theorem words_of_spaced (hw : ∀ w ∈ ws, IsWord w) (h : Spaced ws t) : words t = ws := by
  induction h with
  | nil => rfl
  | blank c hc _ ih => rw [words_cons_of_isBlank hc, ih hw]
  | word w ht _ ih =>
    rw [words_append (hw w (List.mem_cons_self ..)) ht,
      ih fun w hw' => hw w (List.mem_cons_of_mem _ hw')]

theorem Spaced.modifyHead (c : Char) (ht : ¬ t.head?.all FormEdits.isBlank)
    (h : Spaced ws t) : Spaced (ws.modifyHead (c :: ·)) (c :: t) := by
  cases h with
  | nil => exact absurd rfl ht
  | blank d hd _ => simp [hd] at ht
  | word w hr h => exact h.word (c :: w) hr

theorem spaced_words (t : Text) : Spaced (words t) t := by
  induction t with
  | nil => exact .nil
  | cons c r ih =>
    rw [words]
    split
    · exact ih.blank c ‹_›
    · split
      · exact ih.word [c] ‹_›
      · exact ih.modifyHead c ‹_›

theorem isWord_of_mem_words (h : w ∈ words t) : IsWord w := by
  induction t generalizing w with
  | nil => cases h
  | cons c r ih =>
    rw [words] at h
    split at h
    · exact ih h
    rename_i hc
    have hsingle : IsWord [c] := ⟨List.cons_ne_nil _ _, by simpa using hc⟩
    split at h
    · rcases List.mem_cons.1 h with rfl | h
      · exact hsingle
      · exact ih h
    · rcases hr : words r with _ | ⟨v, vs⟩
      · rw [hr] at h; cases h
      · rw [hr] at h ih
        rcases List.mem_cons.1 h with rfl | h
        · refine ⟨List.cons_ne_nil _ _, fun d hd => ?_⟩
          rcases List.mem_cons.1 hd with rfl | hd
          · simpa using hc
          · exact (ih (List.mem_cons_self ..)).isBlank d hd
        · exact ih (List.mem_cons_of_mem _ h)

theorem IsWord.dropFinalLineFeed (h : IsWord w) : dropFinalLineFeed w = w := by
  induction w with
  | nil => rfl
  | cons c w ih =>
    cases w with
    | nil =>
      have hc : c ≠ '\n' := by
        rintro rfl
        exact absurd (h.isBlank _ (List.mem_cons_self ..)) (by decide)
      simp only [Text.dropFinalLineFeed, if_neg hc]
    | cons d w =>
      rw [Text.dropFinalLineFeed, ih h.tail]
      exact List.cons_ne_nil d w

end Text

end FormEdits
