import FormEdits.Proofs.Macros.Composition
import FormEdits.Proofs.Statement.Terms

/-! # The edits of one statement

Where macros stand for texts and no terms are replaced, the edits of a template are a list that its
modifiers and its values determine: the delete of all statements of its kind, if there is one, and
then one edit for each value that is used (`Template.edits_of_texts`). Values that were given
before, and blanks around values, change nothing. -/

namespace FormEdits

/-! ### First occurrences -/

section

variable {α β : Type} [BEq α] [LawfulBEq α] [BEq β] [LawfulBEq β] {l l' : List α} {a : α}

theorem removeAll_congr (h : ∀ a, a ∈ l ↔ a ∈ l') (xs : List α) :
    xs.removeAll l = xs.removeAll l' := by
  have helem : ∀ a, l.elem a = l'.elem a := fun a => by
    rw [Bool.eq_iff_iff, List.elem_iff, List.elem_iff, h]
  simp only [List.removeAll, helem]

theorem removeAll_eq_nil {xs : List α} (h : ∀ a ∈ xs, a ∈ l) : xs.removeAll l = [] := by
  refine List.filter_eq_nil_iff.2 fun a ha => ?_
  simp [h a ha]

theorem eraseDups_append_of_subset {xs : List α} (h : ∀ a ∈ xs, a ∈ l) :
    (l ++ xs).eraseDups = l.eraseDups := by
  rw [List.eraseDups_append, removeAll_eq_nil h, List.eraseDups_nil, List.append_nil]

theorem eraseDups_concat_of_notMem (h : a ∉ l) : (l ++ [a]).eraseDups = l.eraseDups ++ [a] := by
  have ha : [a].removeAll l = [a] := List.filter_eq_self.2 fun b hb => by
    rw [List.mem_singleton.1 hb]
    simpa using h
  rw [List.eraseDups_append, ha]
  rfl

/-- What the elements of a list are replaced by has its first occurrences where the elements have
theirs. -/
theorem eraseDups_flatMap (l : List α) (f : α → List β) :
    (l.flatMap f).eraseDups = (l.eraseDups.flatMap f).eraseDups := by
  induction l using List.reverseRecOn with
  | nil => rfl
  | append_singleton l a ih =>
    rw [List.flatMap_append, List.flatMap_singleton]
    by_cases ha : a ∈ l
    · have hl : ∀ b ∈ [a], b ∈ l := fun b hb => List.mem_singleton.1 hb ▸ ha
      rw [eraseDups_append_of_subset hl,
        eraseDups_append_of_subset fun b hb => List.mem_flatMap.2 ⟨a, ha, hb⟩, ih]
    · have hmem : ∀ b, b ∈ l.flatMap f ↔ b ∈ l.eraseDups.flatMap f := fun b => by
        simp only [List.mem_flatMap, List.mem_eraseDups]
      rw [eraseDups_concat_of_notMem ha, List.flatMap_append, List.flatMap_singleton,
        List.eraseDups_append, List.eraseDups_append, ih, removeAll_congr hmem]

theorem eraseDups_flatMap_congr (h : l.eraseDups = l'.eraseDups) (f : α → List β) :
    (l.flatMap f).eraseDups = (l'.flatMap f).eraseDups := by
  rw [eraseDups_flatMap l, eraseDups_flatMap l', h]

end

/-! ### Blanks around a value -/

/-- The second text is the first one with blanks around it. -/
def Text.Pads (t t' : Text) : Prop :=
  ∃ l r, (∀ c ∈ l, isBlank c) ∧ (∀ c ∈ r, isBlank c) ∧ t' = l ++ t ++ r

theorem Text.Pads.trim {t t' : Text} (h : t.Pads t') : t'.trim = t.trim := by
  obtain ⟨l, r, hl, hr, rfl⟩ := h
  have hstart : trimStart (l ++ t ++ r) = if trimStart t = [] then [] else trimStart t ++ r := by
    have hr' : r.dropWhile isBlank = [] := by
      rw [← List.append_nil r, List.dropWhile_append_of_pos hr, List.dropWhile_nil]
    rw [trimStart, List.append_assoc, List.dropWhile_append_of_pos hl, List.dropWhile_append, hr',
      ← trimStart]
    simp only [List.isEmpty_iff]
  have hend : ∀ u, trimEnd (u ++ r) = trimEnd u := fun u => by
    rw [trimEnd, List.reverse_append, List.dropWhile_append_of_pos (by simpa using hr), ← trimEnd]
  rw [Text.trim, hstart, Text.trim]
  split
  · rename_i h
    rw [h]
  · exact hend _

/-! ### The edits of a statement -/

namespace Statement

variable {s : Session} {st : Statement} {m : Modifiers} {d : Designator} {values : List Text}
  {es : List Edit}

theorem exists_terms {vs : List Text} {os : List (Option Term)} (hne : ∀ v ∈ vs, v ≠ [])
    (h : List.Forall₂ (fun v o => s.term v d = .ok o) vs os) :
    ∃ ts, os = ts.map some ∧ List.Forall₂ (fun v t => s.term v d = .ok (some t)) vs ts := by
  induction h with
  | nil => exact ⟨[], rfl, .nil⟩
  | cons hv _ ih =>
    obtain ⟨hne, hrest⟩ := List.forall_mem_cons.1 hne
    obtain ⟨t, rfl⟩ := exists_of_term_eq_ok hne hv
    obtain ⟨ts, rfl, hts⟩ := ih hrest
    exact ⟨t :: ts, rfl, .cons hv hts⟩

theorem valueEdits_eq_map {op : Operation} (hn : s.replacement = none)
    (h : valueEdits s st op d values = .ok es) :
    ∃ ts, List.Forall₂ (fun v t => s.term v d = .ok (some t)) (values.filter (!·.isEmpty)) ts ∧
      es = ts.map fun t => st.edit op (some t) := by
  rw [valueEdits] at h
  obtain ⟨os, hos, h⟩ := exists_ok_of_bind h
  cases h
  have hterms : List.Forall₂ (fun v o => s.term v d = .ok o) (values.filter (!·.isEmpty)) os :=
    (forall₂_of_mapM hos).imp fun v o hv => Session.coerce_eq_term hn v d ▸ hv
  have hne : ∀ v ∈ values.filter (!·.isEmpty), v ≠ [] := fun v hv => by
    simpa using (List.mem_filter.1 hv).2
  obtain ⟨ts, rfl, hts⟩ := exists_terms hne hterms
  refine ⟨ts, hts, ?_⟩
  rw [List.filterMap_map, ← List.filterMap_eq_map]
  rfl

/-- The edits of a statement: that for all values where one is asked for, and then one for each
value that is used. -/
theorem edits_eq_append (hn : s.replacement = none) (h : edits s st m d values = .ok es) :
    ∃ ts, List.Forall₂ (fun v t => s.term v d = .ok (some t)) (used m values) ts ∧
      es = (if m.overwrite ∨ m.delete ∧ [] ∈ values then [st.edit .delete none] else []) ++
        ts.map fun t => st.edit (if m.delete then .delete else .insert) (some t) := by
  rw [edits] at h
  split at h
  · rename_i ho
    obtain ⟨here, hv, rfl⟩ := exists_ok_of_map h
    obtain ⟨ts, hts, rfl⟩ := valueEdits_eq_map hn hv
    exact ⟨ts, by simpa [used, ho] using hts, by simp [ho]⟩
  rename_i ho
  split at h
  · rename_i hd
    cases h
    rw [Bool.and_eq_true, List.contains_iff_mem] at hd
    exact ⟨[], by simp [used, ho, hd], by simp [hd]⟩
  · rename_i hd
    obtain ⟨ts, hts, rfl⟩ := valueEdits_eq_map hn h
    rw [Bool.and_eq_true, List.contains_iff_mem] at hd
    refine ⟨ts, ?_, by simp [ho, hd]⟩
    have hused : used m values = values.filter (!·.isEmpty) := if_neg (by simp_all)
    rwa [hused]

theorem filter_isWildcard (st : Statement) (all : Prop) [Decidable all] (op : Operation)
    (ts : List Term) :
    ((if all then [st.edit .delete none] else []) ++
      ts.map fun t => st.edit op (some t)).filter Edit.isWildcard =
        if all then [st.edit .delete none] else [] := by
  have hall : (st.edit .delete none).isWildcard := by
    unfold edit
    split <;> rfl
  have hts : (ts.map fun t => st.edit op (some t)).filter Edit.isWildcard = [] := by
    simp [List.filter_eq_nil_iff, isWildcard_edit]
  rw [List.filter_append, hts, List.append_nil]
  split
  · rw [List.filter_singleton, hall]
    rfl
  · rfl

end Statement

theorem Reading.edits_eq_append {s : Session} {r : Reading} {es : List Edit}
    (hn : s.replacement = none) (h : r.edits s = .ok es) :
    (r.template.isDropped → es = []) ∧
    (r.template.isDropped = false → ∃ st ts, r.template.Names s st ∧
      List.Forall₂ (fun v w => s.term v r.template.effectiveDesignator = .ok (some w))
        (Statement.used r.template.modifiers r.values) ts ∧
      es = (if r.template.modifiers.overwrite ∨ r.template.modifiers.delete ∧ [] ∈ r.values then
          [st.edit .delete none] else []) ++
        ts.map fun w =>
          st.edit (if r.template.modifiers.delete then .delete else .insert) (some w)) := by
  rw [edits] at h
  split at h
  · rename_i hd
    cases h
    exact ⟨fun _ => rfl, fun hkept => absurd hd (by simp [hkept])⟩
  · rename_i hd
    obtain ⟨st, hst, h⟩ := exists_ok_of_bind h
    obtain ⟨ts, hts, rfl⟩ := Statement.edits_eq_append hn h
    exact ⟨fun hd' => absurd hd' hd,
      fun _ => ⟨st, ts, Statement.names_of_ofTemplate hst, hts, rfl⟩⟩

/-! ### The edits of a template -/

namespace Template

variable {s : Session} {t : Template} {table : Assoc Text (List Text)} {raw raw' : List Text}
  {es : List Edit}

/-- The values that a template is used with: expanded if it asks for that, then trimmed, each
once. -/
def valuesOf (t : Template) (m : Expansions) (raw : List Text) (supply : Supply) : List Text :=
  Statement.trimmedValues (if t.expandsValues then (Macros.expandAll m raw supply).1 else raw)

theorem edits_ofTexts (s : Session) (t : Template) (table : Assoc Text (List Text))
    (raw : List Text) (supply : Supply) :
    t.edits s (.ofTexts table) raw supply =
      (Reading.edits s ⟨t, raw, t.valuesOf (.ofTexts table) raw supply⟩, supply) := by
  have hsupply : (if t.expandsValues then Macros.expandAll (.ofTexts table) raw supply
      else (raw, supply)).2 = supply := by
    rw [Macros.expandAll_ofTexts]
    split <;> rfl
  rw [edits, Reading.edits, isDropped]
  dsimp only
  split
  · rfl
  rcases Statement.ofTemplate s t with e | st
  · rfl
  · simp only [hsupply, apply_ite Prod.fst]
    rfl

theorem edits_congr {supply : Supply}
    (h : t.valuesOf (.ofTexts table) raw' supply = t.valuesOf (.ofTexts table) raw supply) :
    t.edits s (.ofTexts table) raw' supply = t.edits s (.ofTexts table) raw supply := by
  rw [edits_ofTexts, edits_ofTexts, h]
  rfl

theorem valuesOf_eraseDups (h : raw'.eraseDups = raw.eraseDups) (t : Template) (supply : Supply) :
    t.valuesOf (.ofTexts table) raw' supply = t.valuesOf (.ofTexts table) raw supply := by
  simp only [valuesOf, Statement.trimmedValues, Macros.expandAll_ofTexts]
  split
  · rw [List.map_flatMap, List.map_flatMap, eraseDups_flatMap_congr h]
  · rw [List.map_eq_flatMap, List.map_eq_flatMap, eraseDups_flatMap_congr h]

theorem valuesOf_pads (h : List.Forall₂ Text.Pads raw raw') (ht : t.expandsValues = false)
    (m : Expansions) (supply : Supply) : t.valuesOf m raw' supply = t.valuesOf m raw supply := by
  have htrim : raw'.map Text.trim = raw.map Text.trim := by
    induction h with
    | nil => rfl
    | cons hv _ ih => rw [List.map_cons, List.map_cons, hv.trim, ih]
  rw [valuesOf, valuesOf, ht]
  exact congrArg List.eraseDups htrim

/-- The edits of a template, if they are made: none if it is a reverse one for literals; otherwise
the delete of all statements of its kind, by an overwrite and by a delete with an empty value, and
then one for each value that is not empty, unless it is such a delete. A value that occurs again and
blanks around values that are not expanded change neither the edits nor how they fail. -/
theorem edits_of_texts {supply : Supply} (hn : s.replacement = none)
    (h : (t.edits s (.ofTexts table) raw supply).1 = .ok es) :
    let values := t.valuesOf (.ofTexts table) raw supply
    let all := t.modifiers.overwrite ∨ t.modifiers.delete ∧ [] ∈ values
    (t.edits s (.ofTexts table) raw supply).2 = supply ∧ (t.isDropped → es = []) ∧
    (t.isDropped = false → ∃ st ts, t.Names s st ∧
      List.Forall₂ (fun v w => s.term v t.effectiveDesignator = .ok (some w))
        (Statement.used t.modifiers values) ts ∧
      es = (if all then [st.edit .delete none] else []) ++
        ts.map (fun w => st.edit (if t.modifiers.delete then .delete else .insert) (some w)) ∧
      es.filter Edit.isWildcard = if all then [st.edit .delete none] else []) ∧
    (t.modifiers.delete = false → t.modifiers.overwrite = false →
      ∀ e ∈ es, e.operation = .insert) ∧
    (∀ raw', raw'.eraseDups = raw.eraseDups →
      t.edits s (.ofTexts table) raw' supply = t.edits s (.ofTexts table) raw supply) ∧
    (t.expandsValues = false → ∀ raw', List.Forall₂ Text.Pads raw raw' →
      t.edits s (.ofTexts table) raw' supply = t.edits s (.ofTexts table) raw supply) := by
  intro values all
  rw [edits_ofTexts] at h
  obtain ⟨hdropped, hkept⟩ := Reading.edits_eq_append hn h
  refine ⟨by rw [edits_ofTexts], hdropped, fun hd => ?_, fun hdelete hover e he => ?_,
    fun raw' hraw => edits_congr (valuesOf_eraseDups hraw t supply),
    fun ht raw' hraw => edits_congr (valuesOf_pads hraw ht _ supply)⟩
  · obtain ⟨st, ts, hnames, hts, rfl⟩ := hkept hd
    exact ⟨st, ts, hnames, hts, rfl, st.filter_isWildcard _ _ _⟩
  · rcases hd : t.isDropped with _ | _
    · obtain ⟨st, ts, -, -, rfl⟩ := hkept hd
      simp only [hdelete, hover, Bool.false_eq_true, false_and, or_self, if_false,
        List.nil_append] at he
      obtain ⟨w, -, rfl⟩ := List.mem_map.1 he
      exact st.operation_edit .insert (some w)
    · rw [hdropped hd] at he
      cases he

/-- An overwrite whose macro has a blank text, which is no value. -/
theorem edits_of_texts_overwrite : ∃ (s : Session) (t : Template) (es : List Edit),
    s.replacement = none ∧ t.modifiers.overwrite ∧
    (t.edits s (.ofTexts [("n", [" ", "y"])]) ["$n", " x"] (.fresh id id)).1 = .ok es ∧
    es.length = 3 ∧
    es.filter Edit.isWildcard = [⟨.delete, some (.iri "urn:s"), .iri "p:n", none, none⟩] ∧
    t.edits s (.ofTexts [("n", [" ", "y"])]) ["$n", " x", "$n"] (.fresh id id) =
      t.edits s (.ofTexts [("n", [" ", "y"])]) ["$n", " x"] (.fresh id id) := by
  let s : Session := ⟨.iri "urn:s", none, Prefixes.default, none⟩
  let t : Template := ⟨⟨false, false, true, false⟩, "p:n", none, none, none, true⟩
  let insert (v : Text) : Edit :=
    ⟨.insert, some (.iri "urn:s"), .iri "p:n", some (.literal (.plain v)), none⟩
  let es : List Edit :=
    [⟨.delete, some (.iri "urn:s"), .iri "p:n", none, none⟩, insert "y", insert "x"]
  have hes : (t.edits s (.ofTexts [("n", [" ", "y"])]) ["$n", " x"] (.fresh id id)).1 = .ok es :=
    eq_ok_of_toOption (by decide +kernel)
  obtain ⟨-, -, hkept, -, hrepeated, -⟩ := edits_of_texts rfl hes
  obtain ⟨st, ts, hnames, -, -, hwildcard⟩ := hkept rfl
  have hst : st = ⟨.iri "urn:s", .iri "p:n", none, false⟩ := hnames.unique
    ⟨rfl, by decide +kernel, nofun, fun _ => rfl, nofun, fun _ => rfl⟩
  refine ⟨s, t, es, rfl, rfl, hes, rfl, ?_, hrepeated _ (by decide)⟩
  rw [hwildcard, hst, if_pos (.inl rfl)]
  rfl

end Template

end FormEdits
