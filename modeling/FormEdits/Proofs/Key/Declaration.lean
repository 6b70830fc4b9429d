import FormEdits.Key.Declaration
import FormEdits.Proofs.Key.Template

/-! # Declarations and statements

A key that declares a macro begins with a `$` between blanks, and no statement key has such a word
at its front. So no key is both, whatever the order in which it is looked at
(`Template.parse?_eq_none_of_declaration`). -/

namespace FormEdits

namespace Text

variable {p : Char → Bool} {t : Text}

theorem append_of_mem_runs {s : Text × Text} (h : s ∈ runs p t) :
    s.1 ++ s.2 = t ∧ ∀ c ∈ s.1, p c := by
  induction t generalizing s with
  | nil =>
    rw [runs, List.mem_singleton] at h
    subst h
    exact ⟨rfl, by simp⟩
  | cons c r ih =>
    rw [runs] at h
    split at h
    · rename_i hc
      rcases List.mem_append.1 h with h | h
      · obtain ⟨s', hs', rfl⟩ := List.mem_map.1 h
        obtain ⟨hr, hp⟩ := ih hs'
        exact ⟨congrArg (c :: ·) hr, List.forall_mem_cons.2 ⟨hc, hp⟩⟩
      · rw [List.mem_singleton.1 h]
        exact ⟨rfl, by simp⟩
    · rw [List.mem_singleton.1 h]
      exact ⟨rfl, by simp⟩

theorem words_trimStart (t : Text) : words (trimStart t) = words t := by
  induction t with
  | nil => rfl
  | cons c r ih =>
    by_cases hc : isBlank c
    · have htrim : trimStart (c :: r) = trimStart r := by
        rw [trimStart, List.dropWhile_cons_of_pos hc, trimStart]
      rw [htrim, ih, words_cons_of_isBlank hc]
    · rw [trimStart, List.dropWhile_cons_of_neg hc]

end Text

namespace Declaration

variable {key : Text} {d : Declaration}

theorem exists_blank_of_afterSign? {t : Text} (h : afterSign? t = some d) :
    ∃ c r, t = c :: r ∧ isBlank c := by
  obtain ⟨gap, hgap, hname⟩ := List.exists_of_findSome?_eq_some h
  obtain ⟨rfl, hblank⟩ := Text.append_of_mem_runs hgap
  rcases gap with ⟨_ | ⟨c, r⟩, rest⟩
  · cases hname
  · exact ⟨c, r ++ rest, rfl, hblank c (List.mem_cons_self ..)⟩

theorem words_of_parse? (h : parse? key = some d) : ∃ ws, key.words = ['$'] :: ws := by
  rw [parse?] at h
  split at h
  · cases h
  rename_i c r htrim
  split at h
  · rename_i hc
    obtain ⟨b, rest, rfl, hb⟩ := exists_blank_of_afterSign? h
    have hsign : Text.IsWord ['$'] := by decide
    have hhead : (b :: rest).head?.all isBlank := hb
    refine ⟨Text.words (b :: rest), ?_⟩
    rw [← Text.words_trimStart, htrim, hc]
    exact Text.words_append hsign hhead
  · cases h

end Declaration

theorem Template.parse?_eq_none_of_declaration {key : Text} {d : Declaration}
    (h : Declaration.parse? key = some d) : Template.parse? key = none := by
  obtain ⟨ws, hws⟩ := Declaration.words_of_parse? h
  rcases ht : Template.parse? key with _ | t
  · rfl
  · obtain ⟨ms, hm, hw, hv, -⟩ :=
      Template.wordsWith_of_ofWords? (fun _ => Text.isWord_of_mem_words) ht
    rw [hws] at hw
    -- the sign would have to be the modifiers of the template, or its first term
    rcases hm with ⟨-, rfl⟩ | ⟨w, rfl, hmem⟩
    · have hterm : t.term1 = ['$'] := (List.cons.inj hw).1
      have hvalid : isTermToken t.term1 := hv (.term t.term1) (by simp [Template.tokens])
      rw [hterm] at hvalid
      exact absurd hvalid (by decide)
    · have hsign : w = ['$'] := (List.cons.inj hw).1
      have hall : ∀ e ∈ Modifiers.words, e.1 ≠ ['$'] := by decide
      exact absurd hsign (hall _ hmem)

end FormEdits
