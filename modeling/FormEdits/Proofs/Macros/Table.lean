import FormEdits.Macros.Table
import FormEdits.Proofs.Assoc
import Mathlib.Data.List.Induction

/-! # Tables of declared macros

`MacroTable.ofDeclarations` is the table of a sequence of declarations. Whatever is declared, the
generated macros keep their one value, every other macro in the table has at least one value, and
the values are the declared texts (`wellFormed_ofDeclarations`). `RefersTo` is the relation between
macros that resolving has to follow, and `dependencies` lists it (`mem_dependencies_iff`). -/

namespace FormEdits

theorem Generator.ofName?_name (g : Generator) : ofName? g.name = some g := by
  cases g <;> decide

theorem Generator.name_of_ofName? {n : Text} {g : Generator} (h : ofName? n = some g) : g.name = n := by
  simpa using List.find?_some h

namespace MacroTable

/-- The table of a sequence of declarations with their values. -/
def ofDeclarations (ds : List (Text × List Text × Bool)) : MacroTable :=
  ds.foldl (fun table d => table.declare d.1 d.2.1 d.2.2) initial

/-- Generated macros have their own value alone, and all others have values, each a declared text. -/
structure WellFormed (table : MacroTable) : Prop where
  nodup : table.keys.Nodup
  generated : ∀ g : Generator, table.entries? g.name = some [⟨.generated g, []⟩]
  nonempty : ∀ n es, table.entries? n = some es → es ≠ []
  declared : ∀ n es, Generator.ofName? n = none → table.entries? n = some es →
    ∀ e ∈ es, ∃ pending t, e = entry pending t

theorem contains_iff {table : MacroTable} {n : Text} : table.contains n ↔ n ∈ table.keys :=
  Assoc.find?_isSome_iff

theorem ofName?_of_mem_initial {n : Text} (h : n ∈ initial.keys) : Generator.ofName? n ≠ none := by
  have : ∀ n ∈ initial.keys, Generator.ofName? n ≠ none := by decide
  exact this n h

theorem wellFormed_initial : WellFormed initial where
  nodup := by decide
  generated := by intro g; cases g <;> decide
  nonempty := by
    intro n es h
    have hn : n ∈ initial.keys := Assoc.mem_keys_of_find? h
    have : ∀ n ∈ initial.keys, initial.entries? n ≠ some [] := by decide
    rintro rfl
    exact this n hn h
  declared := by
    intro n es hn h
    exact absurd hn (ofName?_of_mem_initial (Assoc.mem_keys_of_find? h))

theorem entries?_declare_of_ne {table : MacroTable} {n n' : Text} {vs : List Text} {p : Bool}
    (h : n' ≠ n) : (table.declare n vs p).entries? n' = table.entries? n' := by
  unfold declare
  split
  · rfl
  · exact Assoc.find?_alter_of_ne _ h

theorem declare_generated {table : MacroTable} {g : Generator} {vs : List Text} {p : Bool} :
    table.declare g.name vs p = table := by
  simp [declare, Generator.ofName?_name]

theorem declare_nil {table : MacroTable} {n : Text} {p : Bool} : table.declare n [] p = table := by
  simp [declare]

theorem entries?_declare_self {table : MacroTable} {n : Text} {vs : List Text} {p : Bool}
    (hn : Generator.ofName? n = none) (hv : vs ≠ []) :
    (table.declare n vs p).entries? n = some ((table.entries? n).getD [] ++ vs.map (entry p)) := by
  have hc : ((Generator.ofName? n).isSome || vs.isEmpty) = false := by simp [hn, hv]
  simp only [declare, hc]
  exact Assoc.find?_alter_self _

theorem WellFormed.declare {table : MacroTable} (h : table.WellFormed) (n : Text) (vs : List Text)
    (p : Bool) : (table.declare n vs p).WellFormed := by
  rcases hg : Generator.ofName? n with _ | g
  · by_cases hv : vs = []
    · subst hv; rwa [declare_nil]
    have hself : (table.declare n vs p).entries? n =
        some ((table.entries? n).getD [] ++ vs.map (entry p)) := entries?_declare_self hg hv
    refine ⟨?_, fun g => ?_, fun n' es he => ?_, fun n' es hn' he => ?_⟩
    · unfold MacroTable.declare
      split
      · exact h.nodup
      · exact Assoc.nodup_keys_alter _ h.nodup
    · have hne : g.name ≠ n := fun hn => by rw [← hn, Generator.ofName?_name] at hg; cases hg
      rw [entries?_declare_of_ne hne]; exact h.generated g
    · by_cases hne : n' = n
      · subst hne
        rw [hself] at he; cases he
        simp [hv]
      · rw [entries?_declare_of_ne hne] at he; exact h.nonempty n' es he
    · by_cases hne : n' = n
      · subst hne
        rw [hself] at he; cases he
        intro e he
        rcases List.mem_append.1 he with he | he
        · rcases ho : table.entries? n' with _ | old
          · simp [ho] at he
          · exact h.declared n' old hn' ho e (by simpa [ho] using he)
        · obtain ⟨t, -, rfl⟩ := List.mem_map.1 he
          exact ⟨p, t, rfl⟩
      · rw [entries?_declare_of_ne hne] at he; exact h.declared n' es hn' he
  · rw [← Generator.name_of_ofName? hg, declare_generated]; exact h

theorem ofDeclarations_concat (ds : List (Text × List Text × Bool)) (n : Text) (vs : List Text)
    (p : Bool) : ofDeclarations (ds ++ [(n, vs, p)]) = (ofDeclarations ds).declare n vs p := by
  simp [ofDeclarations]

theorem wellFormed_ofDeclarations (ds : List (Text × List Text × Bool)) :
    (ofDeclarations ds).WellFormed := by
  induction ds using List.reverseRecOn with
  | nil => exact wellFormed_initial
  | append_singleton ds d ih =>
    rw [ofDeclarations_concat]
    exact ih.declare _ _ _

/-- The values of a macro are those of its declarations, in order. -/
theorem entries?_ofDeclarations {n : Text} (hn : Generator.ofName? n = none)
    (ds : List (Text × List Text × Bool)) :
    ((ofDeclarations ds).entries? n).getD [] =
      (ds.filter fun d => d.1 = n).flatMap fun d => d.2.1.map (entry d.2.2) := by
  induction ds using List.reverseRecOn with
  | nil =>
    have hi : initial.entries? n = none :=
      Assoc.find?_eq_none_iff.2 fun hm => ofName?_of_mem_initial hm hn
    rw [ofDeclarations, List.foldl_nil, hi]; rfl
  | append_singleton ds d ih =>
    obtain ⟨n', vs, p⟩ := d
    rw [ofDeclarations_concat, List.filter_append, List.flatMap_append, ← ih]
    by_cases hne : n' = n
    · subst hne
      rcases vs with _ | ⟨v, vs⟩
      · simp [declare_nil]
      · rw [entries?_declare_self hn (by simp)]; simp
    · rw [entries?_declare_of_ne (Ne.symm hne)]; simp [hne]

theorem entries?_eq_none {n : Text} {ds : List (Text × List Text × Bool)}
    (hn : Generator.ofName? n = none) (hd : ∀ d ∈ ds, d.1 = n → d.2.1 = []) :
    (ofDeclarations ds).entries? n = none := by
  have hes : ((ofDeclarations ds).entries? n).getD [] = [] := by
    rw [entries?_ofDeclarations hn, List.flatMap_eq_nil_iff]
    intro d hm
    obtain ⟨hm, hdn⟩ := List.mem_filter.1 hm
    rw [hd d hm (of_decide_eq_true hdn), List.map_nil]
  rcases he : (ofDeclarations ds).entries? n with _ | es
  · rfl
  · rw [he] at hes
    exact absurd hes ((wellFormed_ofDeclarations ds).nonempty n es he)

theorem entries?_declare_congr {table table' : MacroTable} {n : Text}
    (h : table'.entries? n = table.entries? n) (n' : Text) (vs : List Text) (p : Bool) :
    (table'.declare n' vs p).entries? n = (table.declare n' vs p).entries? n := by
  by_cases hne : n = n'
  · subst hne
    unfold declare
    split
    · exact h
    · rw [entries?, entries?, Assoc.find?_alter_self, Assoc.find?_alter_self, ← entries?,
        ← entries?, h]
  · rw [entries?_declare_of_ne hne, entries?_declare_of_ne hne, h]

theorem entries?_ofDeclarations_filter {n : Text} {p : Text → Bool} (hn : p n)
    (ds : List (Text × List Text × Bool)) :
    (ofDeclarations (ds.filter fun d => p d.1)).entries? n = (ofDeclarations ds).entries? n := by
  induction ds using List.reverseRecOn with
  | nil => rfl
  | append_singleton ds d ih =>
    obtain ⟨n', vs, pending⟩ := d
    rw [ofDeclarations_concat, List.filter_append]
    by_cases hp : p n'
    · rw [List.filter_cons, if_pos hp, List.filter_nil, ofDeclarations_concat]
      exact entries?_declare_congr ih n' vs pending
    · have hne : n ≠ n' := fun h => hp (h ▸ hn)
      rw [List.filter_cons, if_neg hp, List.filter_nil, List.append_nil, ih,
        entries?_declare_of_ne hne]

/-! ### References between macros -/

/-- A pending value of the macro `n` refers to `m`, and `m` is bound. -/
def RefersTo (table : MacroTable) (n m : Text) : Prop :=
  table.contains m ∧ ∃ e ∈ (table.entries? n).getD [], e.isPending ∧
    ∃ t, e.value = .text t ∧ m ∈ Macros.names t

theorem mem_boundReferences_iff {table : MacroTable} {e : MacroEntry} {m : Text} :
    m ∈ table.boundReferences e ↔ m ∈ e.references ∧ table.contains m := by
  simp [boundReferences, List.mem_mergeSort]

theorem mem_dependencies_iff {table : MacroTable} (h : table.WellFormed) {n m : Text} :
    m ∈ table.dependencies n ↔ table.RefersTo n m := by
  simp only [dependencies, List.mem_eraseDups, List.mem_flatMap, mem_boundReferences_iff]
  rcases hes : table.entries? n with _ | es
  · simp [RefersTo, hes]
  rcases hg : Generator.ofName? n with _ | g
  · simp only [RefersTo, hes, Option.getD_some]
    constructor
    · rintro ⟨e, he, hr, hm⟩
      obtain ⟨p, t, rfl⟩ := h.declared n es hg hes e he
      have hp : p = true := by cases p <;> simp [entry] at hr ⊢
      subst hp
      have hr' : m ∈ Macros.names t := hr
      refine ⟨hm, _, he, ?_, t, rfl, hr'⟩
      simp [MacroEntry.isPending, entry, List.ne_nil_of_mem hr']
    · rintro ⟨hm, e, he, hp, t, ht, hr⟩
      obtain ⟨p, t', rfl⟩ := h.declared n es hg hes e he
      cases ht
      refine ⟨_, he, ?_, hm⟩
      cases p
      · simp [MacroEntry.isPending, entry] at hp
      · exact hr
  · have hn := Generator.name_of_ofName? hg
    subst hn
    rw [h.generated g] at hes
    cases hes
    simp [RefersTo, h.generated g, MacroEntry.isPending]

theorem contains_of_refersTo_left {table : MacroTable} {n m : Text} (h : table.RefersTo n m) :
    table.contains n := by
  obtain ⟨-, e, he, -⟩ := h
  unfold contains
  rcases hes : table.entries? n with _ | es
  · simp [hes] at he
  · rw [entries?] at hes; simp [hes]

end MacroTable

end FormEdits
