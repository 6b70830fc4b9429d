import FormEdits.Proofs.Edit.Errors
import FormEdits.Proofs.Edit.Execution
import FormEdits.Proofs.Statement.Values

/-! # Where the resources of edits come from

In a session that replaces no terms, each resource in an edit is one that a token of a key names,
the subject or the graph of the session, or what a value that is used becomes; and each of these is
in an edit, if the reading makes any (`Session.mem_terms_iff`). -/

namespace FormEdits

namespace Template

variable {s : Session} {t : Template} {st : Statement}

/-- The tokens of a key that name resources. -/
def terms (t : Template) : List Text := t.term1 :: (t.term2.toList ++ t.graph.toList)

theorem Names.anchor_or_predicate_iff (h : t.Names s st) {r : Resource} :
    (r = st.anchor ∨ r = st.predicate) ↔
      (∃ token ∈ t.term1 :: t.term2.toList, s.resolve? token = some r) ∨
        (t.term2 = none ∧ r = s.subject) := by
  have hpredicate := h.predicate
  have hanchor := h.anchor
  rw [Template.predicate] at hpredicate
  rw [Template.anchor?] at hanchor
  rcases ht : t.term2 with _ | token
  · -- the only term is the predicate, in whichever direction
    have hsubject : st.anchor = s.subject := h.subject (by rw [Template.anchor?, ht]; split <;> rfl)
    have hterm : s.resolve? t.term1 = some st.predicate := by
      rw [ht] at hpredicate
      split at hpredicate <;> exact hpredicate
    simp [hsubject, hterm, or_comm, eq_comm (a := r)]
  · rcases hrev : t.modifiers.reverse with _ | _
    · have hsecond : s.resolve? token = some st.predicate := by simpa [hrev, ht] using hpredicate
      have hfirst := hanchor t.term1 (by simp [hrev, ht])
      simp [hfirst, hsecond, eq_comm (a := r)]
    · have hfirst : s.resolve? t.term1 = some st.predicate := by simpa [hrev] using hpredicate
      have hsecond := hanchor token (by simp [hrev, ht])
      simp [hfirst, hsecond, or_comm, eq_comm (a := r)]

theorem Names.graph_iff (h : t.Names s st) {r : Resource} : st.graph = some r ↔
    (∃ token ∈ t.graph.toList, s.resolve? token = some r) ∨ (t.graph = none ∧ s.graph = some r) := by
  rcases ht : t.graph with _ | token
  · simp [h.sessionGraph ht]
  · obtain ⟨g, hg, hst⟩ := h.graph token ht
    simp [hg, hst]

/-- The resources of a statement: those that its key names and, where it names none, the subject and
the graph of the session. -/
theorem Names.resource_iff (h : t.Names s st) {r : Resource} :
    ((r = st.anchor ∨ r = st.predicate) ∨ st.graph = some r) ↔
      (∃ token ∈ t.terms, s.resolve? token = some r) ∨
        (t.term2 = none ∧ r = s.subject) ∨ (t.graph = none ∧ s.graph = some r) := by
  rw [h.anchor_or_predicate_iff, h.graph_iff, terms, ← List.cons_append]
  simp only [List.mem_append, or_and_right, exists_or]
  exact or_or_or_comm

end Template

/-- The resource that a value becomes under a designator, if it becomes one. -/
def Session.resource? (s : Session) (d : Designator) (value : Text) : Option Resource :=
  match d with
  | .resource => s.resolve? value
  | .blank => some (.blank ((Session.blankLabel? value).getD value))
  | _ => none

theorem Resource.toTerm_injective {u u' : Resource} (h : u.toTerm = u'.toTerm) : u = u' := by
  cases u <;> cases u' <;> cases h <;> rfl

theorem Session.term_eq_toTerm_iff {s : Session} {w : Text} {d : Designator} {u : Resource}
    (hw : w ≠ []) : s.term w d = .ok (some u.toTerm) ↔ s.resource? d w = some u := by
  have hne : w.isEmpty = false := by simpa using hw
  have hliteral : ∀ l : Literal, Term.literal l ≠ u.toTerm := by
    intro l h
    cases u <;> cases h
  cases d with
  | resource =>
    rw [term, hne, resource?, ← resolve_eq_ok_iff]
    constructor
    · intro h
      obtain ⟨u', hu', heq⟩ := exists_ok_of_map h
      rw [hu', Resource.toTerm_injective (Option.some.inj heq)]
    · intro h
      rw [h]
      rfl
  | blank =>
    simp only [term, hne, Bool.false_eq_true, if_false, resource?, Except.ok.injEq,
      Option.some.injEq]
    exact ⟨fun h => Resource.toTerm_injective h, congrArg Resource.toTerm⟩
  | literal => simp [term, resource?, hliteral]
  | language tag =>
    simp only [term, resource?]
    split <;> simp [hliteral]
  | datatype token =>
    rw [term]
    rcases s.datatype token with e | iri
    · simp [Except.map, resource?]
    · simp [Except.map, resource?, hliteral]

namespace Statement

variable {s : Session} {st : Statement} {m : Modifiers} {d : Designator} {values : List Text}
  {es : List Edit}

theorem mem_terms_edit {op : Operation} {v : Option Term} {u : Term} :
    u ∈ (st.edit op v).terms ↔
      (u = st.anchor.toTerm ∨ u = st.predicate.toTerm) ∨
        st.graph.map Resource.toTerm = some u ∨ v = some u := by
  unfold edit
  split
  · simp only [Edit.mem_terms, Option.some.injEq, eq_comm (a := u)]
    tauto
  · simp only [Edit.mem_terms, Option.some.injEq, eq_comm (a := u)]
    tauto

theorem exists_of_term_eq_ok {w : Text} {o : Option Term} (hw : w ≠ [])
    (h : s.term w d = .ok o) : ∃ t, o = some t := by
  have hne : w.isEmpty = false := by simpa using hw
  cases d with
  | resource =>
    simp only [Session.term, hne, Bool.false_eq_true, if_false] at h
    obtain ⟨r, -, hr⟩ := exists_ok_of_map h
    exact ⟨_, hr.symm⟩
  | blank =>
    simp only [Session.term, hne, Bool.false_eq_true, if_false] at h
    exact ⟨_, (Except.ok.inj h).symm⟩
  | literal => exact ⟨_, (Except.ok.inj h).symm⟩
  | language tag =>
    simp only [Session.term] at h
    split at h
    · exact ⟨_, (Except.ok.inj h).symm⟩
    · cases h
  | datatype token =>
    obtain ⟨iri, -, hr⟩ := exists_ok_of_map h
    exact ⟨_, hr.symm⟩

theorem exists_term_of_used (hn : s.replacement = none) (h : edits s st m d values = .ok es)
    {w : Text} (hw : w ∈ used m values) : ∃ t, s.coerce w d = .ok (some t) := by
  have hok : ∃ ts, (used m values).mapM (fun v => s.coerce v d) = .ok ts := by
    rcases hm : (used m values).mapM (fun v => s.coerce v d) with e | ts
    · rw [edits_eq_error_iff.2 hm] at h; cases h
    · exact ⟨ts, rfl⟩
  obtain ⟨ts, hts⟩ := hok
  obtain ⟨o, -, ho⟩ := exists_ok_of_mapM hts hw
  rw [Session.coerce_eq_term hn] at ho ⊢
  obtain ⟨t, rfl⟩ := exists_of_term_eq_ok (mem_used.1 hw).2.2 ho
  exact ⟨t, ho⟩

end Statement

namespace Reading

variable {s : Session} {r : Reading} {e : Edit} {es : List Edit}

/-- Whether a reading makes any edit. -/
def HasEdits (r : Reading) : Prop :=
  r.template.isDropped = false ∧
    (r.template.modifiers.overwrite ∨ ∃ v ∈ r.values, v = [] → r.template.modifiers.delete)

instance (r : Reading) : Decidable r.HasEdits :=
  inferInstanceAs (Decidable (r.template.isDropped = false ∧
    (r.template.modifiers.overwrite ∨ ∃ v ∈ r.values, v = [] → r.template.modifiers.delete)))

/-- The resources that a reading takes from its key, the session and its values. -/
def resources (s : Session) (r : Reading) : List Resource :=
  r.template.terms.filterMap s.resolve? ++ (if r.template.term2 = none then [s.subject] else []) ++
    (if r.template.graph = none then s.graph.toList else []) ++
    (Statement.used r.template.modifiers r.values).filterMap
      (s.resource? r.template.effectiveDesignator)

theorem mem_resources {u : Resource} : u ∈ r.resources s ↔
    ((∃ token ∈ r.template.terms, s.resolve? token = some u) ∨
      (r.template.term2 = none ∧ u = s.subject) ∨ (r.template.graph = none ∧ s.graph = some u)) ∨
    ∃ w ∈ Statement.used r.template.modifiers r.values,
      s.resource? r.template.effectiveDesignator w = some u := by
  simp [resources, or_assoc]

theorem Makes.hasEdits (h : r.Makes s e) : r.HasEdits := by
  obtain ⟨hkept, st, -, hmakes⟩ := h
  refine ⟨hkept, ?_⟩
  rcases hmakes with hc | ⟨hw, -⟩
  · exact hc.imp_right fun ⟨hd, hmem⟩ => ⟨[], hmem, fun _ => hd⟩
  · obtain ⟨-, hmem, hne⟩ := Statement.mem_used.1 hw
    exact .inr ⟨_, hmem, fun h => (hne h).elim⟩

theorem HasEdits.exists_makes (h : r.HasEdits) (hn : s.replacement = none)
    (hedits : r.edits s = .ok es) : ∃ e, r.Makes s e := by
  obtain ⟨hkept, hsome⟩ := h
  rw [edits, hkept] at hedits
  obtain ⟨st, hst, hedits⟩ := exists_ok_of_bind hedits
  have hnames := Statement.names_of_ofTemplate hst
  by_cases hc : r.template.modifiers.overwrite ∨ r.template.modifiers.delete ∧ [] ∈ r.values
  · exact ⟨_, hkept, st, hnames, .all hc⟩
  · obtain ⟨v, hmem, hv⟩ := hsome.resolve_left (not_or.1 hc).1
    obtain ⟨-, hused⟩ := Statement.mem_used_of_not_all hc hmem hv
    obtain ⟨t, ht⟩ := Statement.exists_term_of_used hn hedits hused
    exact ⟨_, hkept, st, hnames, .value hused ht⟩

theorem Makes.mem_resources (h : r.Makes s e) (hn : s.replacement = none) {u : Resource}
    (hu : u.toTerm ∈ e.terms) : u ∈ r.resources s := by
  obtain ⟨-, st, hnames, hedit⟩ := h
  have hst : ∀ {op : Operation} {v : Option Term}, u.toTerm ∈ (st.edit op v).terms →
      u ∈ r.resources s ∨ v = some u.toTerm := by
    intro op v hu
    rcases Statement.mem_terms_edit.1 hu with h | h | hv
    · exact .inl (Reading.mem_resources.2 (.inl (hnames.resource_iff.1
        (.inl (h.imp Resource.toTerm_injective Resource.toTerm_injective)))))
    · obtain ⟨g, hg, hgu⟩ := Option.map_eq_some_iff.1 h
      obtain rfl := Resource.toTerm_injective hgu
      exact .inl (Reading.mem_resources.2 (.inl (hnames.resource_iff.1 (.inr hg))))
    · exact .inr hv
  rcases hedit with hc | ⟨hw, hcoerce⟩
  · rcases hst hu with hmem | hv
    · exact hmem
    · cases hv
  · rcases hst hu with hmem | hv
    · exact hmem
    · rw [hv, Session.coerce_eq_term hn, Session.term_eq_toTerm_iff (Statement.mem_used.1 hw).2.2]
        at hcoerce
      exact Reading.mem_resources.2 (.inr ⟨_, hw, hcoerce⟩)

theorem HasEdits.exists_mem_terms (h : r.HasEdits) (hn : s.replacement = none)
    (hedits : r.edits s = .ok es) {u : Resource} (hu : u ∈ r.resources s) :
    ∃ e, r.Makes s e ∧ u.toTerm ∈ e.terms := by
  obtain ⟨e, hkept, st, hnames, hedit⟩ := h.exists_makes hn hedits
  rcases Reading.mem_resources.1 hu with hnamed | ⟨w, hw, hr⟩
  · refine ⟨e, ⟨hkept, st, hnames, hedit⟩, ?_⟩
    have hst : (u.toTerm = st.anchor.toTerm ∨ u.toTerm = st.predicate.toTerm) ∨
        st.graph.map Resource.toTerm = some u.toTerm := by
      rcases hnames.resource_iff.2 hnamed with hsp | hg
      · exact .inl (hsp.imp (congrArg _) (congrArg _))
      · exact .inr (by rw [hg]; rfl)
    rcases hedit with _ | _
    all_goals exact Statement.mem_terms_edit.2 (hst.imp_right .inl)
  · have ht := (Session.term_eq_toTerm_iff (Statement.mem_used.1 hw).2.2).2 hr
    rw [← Session.coerce_eq_term hn] at ht
    exact ⟨_, ⟨hkept, st, hnames, .value hw ht⟩, Statement.mem_terms_edit.2 (.inr (.inr rfl))⟩

end Reading

/-- The resources in the edits of a form are those of its readings with edits. -/
theorem Session.mem_terms_iff {s : Session} {form : Submission} {supply : Supply} {set : EditSet}
    (hn : s.replacement = none) (h : (s.submit form supply).edits = .ok set) {u : Resource} :
    (∃ e ∈ set.toList, u.toTerm ∈ e.terms) ↔ ∃ r ∈ s.readings form supply,
      r.HasEdits ∧ u ∈ r.resources (s.submit form supply).session := by
  have hn' := replacement_submit hn form supply
  obtain ⟨es, hes, -⟩ := allEdits_of_submit h
  constructor
  · rintro ⟨e, he, hu⟩
    obtain ⟨r, hr, hmakes⟩ := (mem_toList_iff h).1 he
    exact ⟨r, hr, hmakes.hasEdits, hmakes.mem_resources hn' hu⟩
  · rintro ⟨r, hr, hhas, hu⟩
    obtain ⟨here, hhere, -⟩ := (Reading.mem_allEdits hes).1 r hr
    obtain ⟨e, hmakes, ht⟩ := hhas.exists_mem_terms hn' hhere hu
    exact ⟨e, (mem_toList_iff h).2 ⟨r, hr, hmakes⟩, ht⟩

end FormEdits
