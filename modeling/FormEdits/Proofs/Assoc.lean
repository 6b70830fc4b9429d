import FormEdits.Assoc
import Mathlib.Data.List.Induction

/-! # What an association list holds

`find?` after each operation, and the keys that are left. A changed key keeps its place, so the keys
are distinct before and after. The entries of collected values are the collected entries. -/

namespace FormEdits

namespace Assoc

variable {κ α : Type} [BEq κ] [LawfulBEq κ] {m : Assoc κ α} {k k' : κ} {a : α}

@[simp] theorem find?_cons_self : find? ((k, a) :: m) k = some a := by
  simp [find?]

theorem find?_cons_of_ne (h : k' ≠ k) : find? ((k, a) :: m) k' = m.find? k' := by
  have hb : (k' == k) = false := beq_eq_false_iff_ne.2 h
  simp [find?, List.lookup_cons, hb]

theorem find?_isSome_iff : (m.find? k).isSome ↔ k ∈ m.keys := by
  rw [find?, List.lookup_isSome_iff, keys, List.mem_map]
  simp only [beq_iff_eq]
  exact ⟨fun ⟨e, he, h⟩ => ⟨e, he, h.symm⟩, fun ⟨e, he, h⟩ => ⟨e, he, h.symm⟩⟩

theorem find?_eq_none_iff : m.find? k = none ↔ k ∉ m.keys := by
  rw [← find?_isSome_iff, Option.not_isSome_iff_eq_none]

theorem mem_keys_of_find? (h : m.find? k = some a) : k ∈ m.keys := by
  rw [← find?_isSome_iff, h]; rfl

theorem mem_of_find? (h : m.find? k = some a) : (k, a) ∈ m := by
  obtain ⟨before, after, rfl, -⟩ := List.lookup_eq_some_iff.1 h
  exact List.mem_append_right _ (List.mem_cons_self ..)

theorem find?_alter_self (f : Option α → α) : (m.alter k f).find? k = some (f (m.find? k)) := by
  induction m with
  | nil => exact find?_cons_self
  | cons e m ih =>
    obtain ⟨k₀, a₀⟩ := e
    by_cases hk : k₀ = k
    · subst hk; simp [alter]
    · have hk' : k ≠ k₀ := Ne.symm hk
      simp only [alter, beq_iff_eq, hk, if_false]
      rw [find?_cons_of_ne hk', find?_cons_of_ne hk', ih]

theorem find?_alter_of_ne (f : Option α → α) (h : k' ≠ k) : (m.alter k f).find? k' = m.find? k' := by
  induction m with
  | nil => simp only [alter]; exact find?_cons_of_ne h
  | cons e m ih =>
    obtain ⟨k₀, a₀⟩ := e
    by_cases hk : k₀ = k
    · subst hk
      simp only [alter, beq_self_eq_true, if_true]
      rw [find?_cons_of_ne h, find?_cons_of_ne h]
    · simp only [alter, beq_iff_eq, hk, if_false]
      by_cases hk' : k' = k₀
      · subst hk'; rw [find?_cons_self, find?_cons_self]
      · rw [find?_cons_of_ne hk', find?_cons_of_ne hk', ih]

@[simp] theorem find?_insert_self : (m.insert k a).find? k = some a := find?_alter_self _

theorem find?_insert_of_ne (h : k' ≠ k) : (m.insert k a).find? k' = m.find? k' :=
  find?_alter_of_ne _ h

theorem find?_map_values {β : Type} (m : Assoc κ α) (f : α → β) (k : κ) :
    find? (m.map fun e => (e.1, f e.2)) k = (m.find? k).map f := by
  induction m with
  | nil => rfl
  | cons e m ih =>
    rw [List.map_cons]
    by_cases hk : k = e.1
    · subst hk
      rw [find?_cons_self, find?_cons_self]
      rfl
    · rw [find?_cons_of_ne hk, find?_cons_of_ne hk, ih]

theorem mem_of_mem_alter {f : Option α → α} {e : κ × α} (h : e ∈ m.alter k f) :
    (∃ old, e = (k, f old)) ∨ e ∈ m := by
  induction m with
  | nil => exact .inl ⟨none, List.mem_singleton.1 h⟩
  | cons e₀ m ih =>
    obtain ⟨k₀, a₀⟩ := e₀
    by_cases hk : k₀ = k
    · subst hk
      simp only [alter, beq_self_eq_true, if_true] at h
      exact (List.mem_cons.1 h).imp (fun h => ⟨some a₀, h⟩) (List.mem_cons_of_mem _)
    · simp only [alter, beq_iff_eq, hk, if_false] at h
      rcases List.mem_cons.1 h with rfl | h
      · exact .inr (List.mem_cons_self ..)
      · exact (ih h).imp_right (List.mem_cons_of_mem _)

theorem mem_of_mem_insert {e : κ × α} (h : e ∈ m.insert k a) : e = (k, a) ∨ e ∈ m :=
  (mem_of_mem_alter h).imp_left fun ⟨_, h⟩ => h

theorem mem_keys_alter (f : Option α → α) : k' ∈ (m.alter k f).keys ↔ k' = k ∨ k' ∈ m.keys := by
  rw [← find?_isSome_iff, ← find?_isSome_iff]
  by_cases h : k' = k
  · subst h; simp [find?_alter_self]
  · simp [find?_alter_of_ne f h, h]

theorem nodup_keys_alter (f : Option α → α) (h : m.keys.Nodup) : (m.alter k f).keys.Nodup := by
  induction m with
  | nil => simp [alter, keys]
  | cons e m ih =>
    obtain ⟨k₀, a₀⟩ := e
    obtain ⟨h₀, h⟩ := List.nodup_cons.1 h
    by_cases hk : k₀ = k
    · subst hk
      simp only [alter, beq_self_eq_true, if_true]
      exact List.nodup_cons.2 ⟨h₀, h⟩
    · simp only [alter, beq_iff_eq, hk, if_false]
      refine List.nodup_cons.2 ⟨fun hm => ?_, ih h⟩
      exact ((mem_keys_alter f).1 hm).elim hk h₀

/-! ### Overlaying -/

theorem nodup_keys_overlay (n : Assoc κ α) (h : m.keys.Nodup) : (m.overlay n).keys.Nodup := by
  induction n generalizing m with
  | nil => exact h
  | cons e n ih => exact ih (nodup_keys_alter _ h)

theorem keys_prefix_alter (m : Assoc κ α) (k : κ) (f : Option α → α) :
    m.keys <+: (m.alter k f).keys := by
  induction m with
  | nil => exact List.nil_prefix
  | cons e m ih =>
    obtain ⟨k₀, a₀⟩ := e
    by_cases hk : k₀ = k
    · subst hk
      simp only [alter, beq_self_eq_true, if_true]
      exact List.prefix_rfl
    · simp only [alter, beq_iff_eq, hk, if_false]
      exact (List.prefix_cons_inj k₀).2 ih

theorem keys_prefix_overlay (m n : Assoc κ α) : m.keys <+: (m.overlay n).keys := by
  induction n generalizing m with
  | nil => exact List.prefix_rfl
  | cons e n ih => exact (keys_prefix_alter m e.1 _).trans (ih _)

theorem overlay_cons_of_notMem {n : Assoc κ α} (h : k ∉ n.keys) :
    overlay ((k, a) :: m) n = (k, a) :: m.overlay n := by
  induction n generalizing m with
  | nil => rfl
  | cons e n ih =>
    obtain ⟨hne, h⟩ := not_or.1 (mt List.mem_cons.2 h)
    have hi : insert ((k, a) :: m) e.1 e.2 = (k, a) :: m.insert e.1 e.2 := by
      simp only [insert, alter, beq_iff_eq, hne, if_false]
    rw [overlay, List.foldl_cons, hi]
    exact ih h

/-- What starts with the keys of `m` covers it when laid over it. -/
theorem overlay_eq_of_prefix {n : Assoc κ α} (hp : m.keys <+: n.keys) (hn : n.keys.Nodup) :
    m.overlay n = n := by
  induction n generalizing m with
  | nil =>
    rw [List.map_eq_nil_iff.1 (List.prefix_nil.1 hp)]
    rfl
  | cons e n ih =>
    obtain ⟨k, a⟩ := e
    obtain ⟨hk, hnd⟩ : k ∉ keys n ∧ (keys n).Nodup := List.nodup_cons.1 hn
    rcases m with _ | ⟨⟨k₀, a₀⟩, m⟩
    · -- the keys of `m` are used up, and the rest is put behind one by one
      have hnil : overlay [] n = n := @ih [] List.nil_prefix hnd
      show overlay [(k, a)] n = _
      rw [overlay_cons_of_notMem hk, hnil]
    · obtain ⟨rfl, hrest⟩ : k₀ = k ∧ keys m <+: keys n := List.cons_prefix_cons.1 hp
      have hi : insert ((k₀, a₀) :: m) k₀ a = (k₀, a) :: m := by simp [insert, alter]
      rw [overlay, List.foldl_cons, hi]
      exact (overlay_cons_of_notMem hk).trans (congrArg _ (ih hrest hnd))

theorem overlay_overlay_self (hm : m.keys.Nodup) (n : Assoc κ α) :
    m.overlay (m.overlay n) = m.overlay n :=
  overlay_eq_of_prefix (keys_prefix_overlay m n) (nodup_keys_overlay n hm)

theorem ofEntries_eq_self (h : m.keys.Nodup) : ofEntries m = m :=
  overlay_eq_of_prefix List.nil_prefix h

theorem find?_overlay {n : Assoc κ α} (h : n.keys.Nodup) :
    (m.overlay n).find? k = (n.find? k).or (m.find? k) := by
  induction n generalizing m with
  | nil => rfl
  | cons e n ih =>
    obtain ⟨k₀, a₀⟩ := e
    obtain ⟨hk, hn⟩ : k₀ ∉ keys n ∧ (keys n).Nodup := List.nodup_cons.1 h
    rw [overlay, List.foldl_cons]
    refine (ih hn).trans ?_
    by_cases hk₀ : k = k₀
    · subst hk₀
      rw [find?_insert_self, find?_eq_none_iff.2 hk, find?_cons_self]
      rfl
    · rw [find?_insert_of_ne hk₀, find?_cons_of_ne hk₀]

/-- Of the entries with one key the last one counts. -/
theorem find?_overlay_reverse (m n : Assoc κ α) (k : κ) :
    (m.overlay n).find? k = (find? n.reverse k).or (m.find? k) := by
  induction n generalizing m with
  | nil => rfl
  | cons e n ih =>
    obtain ⟨k₀, a₀⟩ := e
    have hlast : find? ((k₀, a₀) :: n).reverse k =
        (find? n.reverse k).or (find? [(k₀, a₀)] k) := by
      rw [List.reverse_cons, find?, List.lookup_append]
      rfl
    rw [overlay, List.foldl_cons, hlast, Option.or_assoc]
    refine (ih _).trans (congrArg _ ?_)
    by_cases hk : k = k₀
    · subst hk
      rw [find?_insert_self, find?_cons_self]
      rfl
    · rw [find?_insert_of_ne hk, find?_cons_of_ne hk]
      rfl

theorem mem_of_mem_overlay {n : Assoc κ α} {e : κ × α} (h : e ∈ m.overlay n) : e ∈ m ∨ e ∈ n := by
  induction n generalizing m with
  | nil => exact .inl h
  | cons e₀ n ih =>
    rcases ih h with hm | hn
    · rcases mem_of_mem_insert hm with rfl | hm
      · exact .inr (List.mem_cons_self ..)
      · exact .inl hm
    · exact .inr (List.mem_cons_of_mem _ hn)

/-! ### Collecting -/

/-- The entries of an association list of collected values. -/
def entries (m : Assoc κ (List α)) : List (κ × α) := m.flatMap fun b => b.2.map (Prod.mk b.1)

omit [BEq κ] [LawfulBEq κ] in
theorem mem_entries {m : Assoc κ (List α)} {b : κ × List α} (hb : b ∈ m) (ha : a ∈ b.2) :
    (b.1, a) ∈ entries m :=
  List.mem_flatMap.2 ⟨b, hb, List.mem_map_of_mem ha⟩

omit [BEq κ] [LawfulBEq κ] in
theorem exists_of_mem_entries {m : Assoc κ (List α)} (h : (k, a) ∈ entries m) :
    ∃ b ∈ m, b.1 = k ∧ a ∈ b.2 := by
  obtain ⟨b, hb, h⟩ := List.mem_flatMap.1 h
  obtain ⟨a', ha, h⟩ := List.mem_map.1 h
  cases h
  exact ⟨b, hb, rfl, ha⟩

theorem entries_alter_perm (m : Assoc κ (List α)) (k : κ) (a : α) :
    (entries (m.alter k fun old => old.getD [] ++ [a])).Perm (entries m ++ [(k, a)]) := by
  induction m with
  | nil => exact .refl _
  | cons b m ih =>
    obtain ⟨k₀, as⟩ := b
    by_cases hk : k₀ = k
    · subst hk
      simp only [alter, beq_self_eq_true, if_true, Option.getD_some, entries, List.flatMap_cons,
        List.map_append, List.append_assoc]
      exact List.perm_append_comm.append_left _
    · simp only [alter, beq_iff_eq, hk, if_false, entries, List.flatMap_cons, List.append_assoc]
      exact ih.append_left _

theorem entries_collect_perm (es : List (κ × α)) : (entries (collect es)).Perm es := by
  have h : ∀ m : Assoc κ (List α),
      (entries (es.foldl (fun m e => m.alter e.1 fun old => old.getD [] ++ [e.2]) m)).Perm
        (entries m ++ es) := by
    induction es with
    | nil => intro m; rw [List.foldl_nil, List.append_nil]
    | cons e es ih =>
      intro m
      refine (ih _).trans ?_
      rw [← List.singleton_append, ← List.append_assoc]
      exact (entries_alter_perm m e.1 e.2).append_right es
  exact h []

theorem alter_of_notMem (f : Option α → α) (h : k ∉ m.keys) :
    m.alter k f = m ++ [(k, f none)] := by
  induction m with
  | nil => rfl
  | cons e m ih =>
    obtain ⟨hne, h⟩ := not_or.1 (mt List.mem_cons.2 h)
    simp only [alter, beq_iff_eq, Ne.symm hne, if_false, ih h, List.cons_append]

theorem alter_append_self (f : Option α → α) (h : k ∉ m.keys) :
    alter (m ++ [(k, a)]) k f = m ++ [(k, f (some a))] := by
  induction m with
  | nil => simp [alter]
  | cons e m ih =>
    obtain ⟨hne, h⟩ := not_or.1 (mt List.mem_cons.2 h)
    simp only [List.cons_append, alter, beq_iff_eq, Ne.symm hne, if_false, ih h]

omit [LawfulBEq κ] in
theorem collect_concat (es : List (κ × α)) (e : κ × α) :
    collect (es ++ [e]) = (collect es).alter e.1 fun old => old.getD [] ++ [e.2] := by
  rw [collect, List.foldl_append]
  rfl

theorem collect_append_key {es : List (κ × α)} (hk : k ∉ (collect es).keys) {as : List α}
    (hne : as ≠ []) : collect (es ++ as.map (Prod.mk k)) = collect es ++ [(k, as)] := by
  induction as using List.reverseRecOn with
  | nil => exact absurd rfl hne
  | append_singleton as a ih =>
    rw [List.map_append, ← List.append_assoc, List.map_singleton, collect_concat]
    by_cases has : as = []
    · subst has
      rw [List.map_nil, List.append_nil]
      exact alter_of_notMem _ hk
    · rw [ih has]
      exact alter_append_self _ hk

/-- Values that are collected already stay as they are, if no key is without any. -/
theorem collect_entries {m : Assoc κ (List α)} (hn : m.keys.Nodup) (hv : ∀ b ∈ m, b.2 ≠ []) :
    collect (entries m) = m := by
  induction m using List.reverseRecOn with
  | nil => rfl
  | append_singleton m b ih =>
    rw [keys, List.map_append, List.map_singleton, List.nodup_append] at hn
    have hm := ih hn.1 fun b hb => hv b (List.mem_append_left _ hb)
    have hk : b.1 ∉ keys m := fun h => hn.2.2 _ h _ (List.mem_singleton_self _) rfl
    have hb : b.2 ≠ [] := hv b (List.mem_append_right _ (List.mem_singleton_self _))
    rw [entries, List.flatMap_append, List.flatMap_singleton, ← entries]
    refine (collect_append_key (by rwa [hm]) hb).trans ?_
    rw [hm]

theorem nodup_keys_collect (es : List (κ × α)) : (collect es).keys.Nodup := by
  induction es using List.reverseRecOn with
  | nil => exact List.nodup_nil
  | append_singleton es e ih =>
    rw [collect_concat]
    exact nodup_keys_alter _ ih

theorem ne_nil_of_mem_collect {es : List (κ × α)} {b : κ × List α} (h : b ∈ collect es) :
    b.2 ≠ [] := by
  induction es using List.reverseRecOn with
  | nil => cases h
  | append_singleton es e ih =>
    rw [collect_concat] at h
    rcases mem_of_mem_alter h with ⟨old, rfl⟩ | h
    · simp
    · exact ih h

theorem collect_entries_collect (es : List (κ × α)) : collect (entries (collect es)) = collect es :=
  collect_entries (nodup_keys_collect es) fun _ => ne_nil_of_mem_collect

theorem mem_keys_collect {es : List (κ × α)} : k ∈ (collect es).keys ↔ ∃ e ∈ es, e.1 = k := by
  have h : ∀ m : Assoc κ (List α),
      k ∈ (es.foldl (fun m e => m.alter e.1 fun old => old.getD [] ++ [e.2]) m).keys ↔
        k ∈ m.keys ∨ ∃ e ∈ es, e.1 = k := by
    induction es with
    | nil => simp
    | cons e es ih =>
      intro m
      rw [List.foldl_cons, ih, mem_keys_alter]
      simp only [List.mem_cons, exists_eq_or_imp, eq_comm (a := k)]
      rw [or_assoc, or_left_comm]
  refine (h []).trans ?_
  simp [keys]

end Assoc

end FormEdits
