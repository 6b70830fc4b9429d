import FormEdits.Proofs.Statement.Clearing
import FormEdits.Proofs.Statement.Datatypes

/-! # Which edits a form makes

Each edit of a form is made by one of its readings: it deletes all statements of a kind, or it has
the term of one of the values that are used. `Session.mem_toList_iff` says this of all edits of a
submission in both directions, so that what they hold can be read off the form. -/

namespace FormEdits

namespace Statement

variable {s : Session} {st : Statement} {m : Modifiers} {d : Designator} {values : List Text}
  {e : Edit} {es : List Edit}

/-- An edit that a statement with values makes. -/
inductive Makes (s : Session) (st : Statement) (m : Modifiers) (d : Designator)
    (values : List Text) : Edit → Prop
  | all (h : m.overwrite ∨ m.delete ∧ [] ∈ values) : Makes s st m d values (st.edit .delete none)
  | value {w : Text} {v : Term} (hw : w ∈ used m values) (hv : s.coerce w d = .ok (some v)) :
      Makes s st m d values (st.edit (if m.delete then .delete else .insert) (some v))

theorem mem_valueEdits_iff {op : Operation} (h : valueEdits s st op d values = .ok es) :
    e ∈ es ↔ ∃ w ∈ values, w ≠ [] ∧ ∃ v, s.coerce w d = .ok (some v) ∧ st.edit op (some v) = e := by
  rw [valueEdits] at h
  obtain ⟨terms, hterms, h⟩ := exists_ok_of_bind h
  cases h
  simp only [List.mem_filterMap, Option.map_eq_some_iff]
  constructor
  · rintro ⟨_, ht, v, rfl, rfl⟩
    obtain ⟨w, hw, hv⟩ := exists_of_mem_mapM hterms ht
    obtain ⟨hw, hne⟩ := List.mem_filter.1 hw
    exact ⟨w, hw, by simpa using hne, v, hv, rfl⟩
  · rintro ⟨w, hw, hne, v, hv, rfl⟩
    obtain ⟨t, ht, hcoerce⟩ :=
      exists_ok_of_mapM hterms (List.mem_filter.2 ⟨hw, by simpa using hne⟩)
    rw [hv] at hcoerce
    cases hcoerce
    exact ⟨some v, ht, v, rfl, rfl⟩

theorem makes_iff : Makes s st m d values e ↔
    ((m.overwrite ∨ m.delete ∧ [] ∈ values) ∧ e = st.edit .delete none) ∨
      ∃ w ∈ used m values, ∃ v, s.coerce w d = .ok (some v) ∧
        st.edit (if m.delete then .delete else .insert) (some v) = e := by
  constructor
  · rintro (hc | ⟨hw, hv⟩)
    · exact .inl ⟨hc, rfl⟩
    · exact .inr ⟨_, hw, _, hv, rfl⟩
  · rintro (⟨hc, rfl⟩ | ⟨w, hw, v, hv, rfl⟩)
    · exact .all hc
    · exact .value hw hv

/-- Where no edit deletes all, a value is used as soon as an empty one would have deleted all. -/
theorem mem_used_of_not_all {w : Text} (hall : ¬ (m.overwrite ∨ m.delete ∧ [] ∈ values))
    (hw : w ∈ values) (hempty : w = [] → m.delete) : w ≠ [] ∧ w ∈ used m values := by
  have hdelete : ¬ (m.delete ∧ [] ∈ values) := fun h => hall (.inr h)
  have hne : w ≠ [] := fun h => hdelete ⟨hempty h, h ▸ hw⟩
  exact ⟨hne, mem_used.2 ⟨fun h => hdelete ⟨h.1, h.2.2⟩, hw, hne⟩⟩

theorem mem_edits_iff (h : edits s st m d values = .ok es) : e ∈ es ↔ Makes s st m d values e := by
  -- unless a delete has an empty value, all values that are not empty are used
  have hvalues : ∀ {here}, valueEdits s st (if m.delete then .delete else .insert) d values = .ok here →
      ¬ (m.delete ∧ m.overwrite = false ∧ [] ∈ values) → (e ∈ here ↔ ∃ w ∈ used m values, ∃ v,
        s.coerce w d = .ok (some v) ∧ st.edit (if m.delete then .delete else .insert) (some v) = e) := by
    intro here hv hused
    simp only [mem_valueEdits_iff hv, mem_used, hused, not_false_eq_true, true_and, and_assoc]
  rw [makes_iff]
  rw [edits] at h
  split at h
  · rename_i ho
    obtain ⟨here, hv, rfl⟩ := exists_ok_of_map h
    rw [List.mem_cons, hvalues hv (by simp [ho])]
    simp [ho]
  · rename_i ho
    split at h
    · rename_i hd
      rw [Bool.and_eq_true, List.contains_iff_mem] at hd
      cases h
      simp [mem_used, ho, hd]
    · rename_i hd
      rw [Bool.and_eq_true, List.contains_iff_mem] at hd
      rw [hvalues h fun hc => hd ⟨hc.1, hc.2.2⟩]
      simp only [ho, hd, Bool.false_eq_true, or_self, false_and, false_or]

end Statement

namespace Reading

variable {s : Session} {r : Reading} {e : Edit} {es : List Edit}

/-- An edit that a reading makes. -/
structure Makes (s : Session) (r : Reading) (e : Edit) : Prop where
  kept : r.template.isDropped = false
  edit : ∃ st, r.template.Names s st ∧
    st.Makes s r.template.modifiers r.template.effectiveDesignator r.values e

theorem exists_names (h : r.edits s = .ok es) (hd : r.template.isDropped = false) :
    ∃ st, r.template.Names s st := by
  rw [edits, hd] at h
  obtain ⟨st, hst, -⟩ := exists_ok_of_bind h
  exact ⟨st, Statement.names_of_ofTemplate hst⟩

theorem mem_edits_iff (h : r.edits s = .ok es) : e ∈ es ↔ r.Makes s e := by
  rw [edits] at h
  split at h
  · rename_i hd
    cases h
    refine ⟨fun he => (List.not_mem_nil he).elim, fun he => ?_⟩
    rw [he.kept] at hd
    cases hd
  · rename_i hd
    obtain ⟨st, hst, h⟩ := exists_ok_of_bind h
    have hnames := Statement.names_of_ofTemplate hst
    rw [Statement.mem_edits_iff h]
    constructor
    · exact fun he => ⟨Bool.eq_false_iff.2 hd, st, hnames, he⟩
    · rintro ⟨-, st', hnames', he⟩
      rwa [hnames.unique hnames']

end Reading

/-! ### Forms -/

theorem EditSet.mem_toList_ofEdits {e : Edit} {es : List Edit} :
    e ∈ (EditSet.ofEdits es).toList ↔ e ∈ es := by
  rcases hop : e.operation with _ | _
  · simp [EditSet.toList, EditSet.ofEdits, hop]
  · simp [EditSet.toList, EditSet.ofEdits, hop]

namespace Session

variable {s : Session} {form : Submission} {supply : Supply} {set : EditSet} {e : Edit}

/-- The edits of a form are those that its readings make in the session it leaves. -/
theorem mem_toList_iff (h : (s.submit form supply).edits = .ok set) : e ∈ set.toList ↔
    ∃ r ∈ s.readings form supply, r.Makes (s.submit form supply).session e := by
  obtain ⟨es, hes, rfl⟩ := allEdits_of_submit h
  obtain ⟨hread, hfrom⟩ := Reading.mem_allEdits hes
  rw [EditSet.mem_toList_ofEdits]
  constructor
  · intro he
    obtain ⟨r, hr, here, hedits, hmem⟩ := hfrom e he
    exact ⟨r, hr, (Reading.mem_edits_iff hedits).1 hmem⟩
  · rintro ⟨r, hr, hmakes⟩
    obtain ⟨here, hedits, hsub⟩ := hread r hr
    exact hsub e ((Reading.mem_edits_iff hedits).2 hmakes)

theorem mem_deletes_iff (h : (s.submit form supply).edits = .ok set) : e ∈ set.deletes ↔
    e.operation = .delete ∧
      ∃ r ∈ s.readings form supply, r.Makes (s.submit form supply).session e := by
  rw [← mem_toList_iff h]
  obtain ⟨es, -, rfl⟩ := allEdits_of_submit h
  rw [EditSet.mem_toList_ofEdits]
  simp [EditSet.ofEdits, and_comm]

theorem exists_names_of_submit (h : (s.submit form supply).edits = .ok set) {r : Reading}
    (hr : r ∈ s.readings form supply) (hd : r.template.isDropped = false) :
    ∃ st, r.template.Names (s.submit form supply).session st := by
  obtain ⟨es, hes, -⟩ := allEdits_of_submit h
  obtain ⟨here, hedits, -⟩ := (Reading.mem_allEdits hes).1 r hr
  exact Reading.exists_names hedits hd

end Session

end FormEdits
