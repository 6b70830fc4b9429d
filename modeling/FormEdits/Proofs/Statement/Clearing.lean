import FormEdits.Proofs.Edit.Membership
import FormEdits.Proofs.Statement.Readings

/-! # Statements that replace what is there

An overwrite, and a delete with an empty value, delete all statements with their anchor and their
predicate in their graph before anything is inserted. After the edits of a form are applied, the
statements of that kind in the store are those that the form itself inserts
(`Session.submit_clears`). -/

namespace FormEdits

namespace Template

/-- The token of the predicate: the only term, or else the second one of a forward statement and the
first one of a reverse statement. -/
def predicate (t : Template) : Text := if t.modifiers.reverse then t.term1 else t.term2.getD t.term1

/-- The token of the other term, if there are two. -/
def anchor? (t : Template) : Option Text :=
  if t.modifiers.reverse then t.term2 else t.term2.map fun _ => t.term1

/-- What the terms and the graph of a template stand for. Where it has no other term than the
predicate or no graph, those of the session are meant. -/
structure Names (s : Session) (t : Template) (st : Statement) : Prop where
  reverse : st.reverse = t.modifiers.reverse
  predicate : s.resolve? t.predicate = some st.predicate
  anchor : ∀ token, t.anchor? = some token → s.resolve? token = some st.anchor
  subject : t.anchor? = none → st.anchor = s.subject
  graph : ∀ token, t.graph = some token → ∃ g, s.resolve? token = some g ∧ st.graph = some g
  sessionGraph : t.graph = none → st.graph = s.graph

theorem Names.unique {s : Session} {t : Template} {st st' : Statement} (h : t.Names s st)
    (h' : t.Names s st') : st = st' := by
  have hreverse : st.reverse = st'.reverse := h.reverse.trans h'.reverse.symm
  have hpredicate : st.predicate = st'.predicate :=
    Option.some.inj (h.predicate.symm.trans h'.predicate)
  have hanchor : st.anchor = st'.anchor := by
    rcases ht : t.anchor? with _ | token
    · rw [h.subject ht, h'.subject ht]
    · exact Option.some.inj ((h.anchor token ht).symm.trans (h'.anchor token ht))
  have hgraph : st.graph = st'.graph := by
    rcases ht : t.graph with _ | token
    · rw [h.sessionGraph ht, h'.sessionGraph ht]
    · obtain ⟨g, hg, hst⟩ := h.graph token ht
      obtain ⟨g', hg', hst'⟩ := h'.graph token ht
      rw [hst, hst', ← hg, ← hg']
  cases st
  cases st'
  simp only [Statement.mk.injEq]
  exact ⟨hanchor, hpredicate, hgraph, hreverse⟩

end Template

/-- Whether all statements of a kind are deleted: by an overwrite, or by a delete with an empty
value unless it is a reverse one whose values would be literals. -/
def Reading.Clears (r : Reading) : Prop :=
  r.template.modifiers.overwrite ∨ r.template.modifiers.delete ∧ [] ∈ r.values ∧
    (r.template.modifiers.reverse → r.template.effectiveDesignator.isResource)

namespace Statement

def quad (st : Statement) (v : Term) : Quad :=
  let graph := st.graph.map Resource.toTerm
  if st.reverse then ⟨v, st.predicate, st.anchor, graph⟩ else ⟨st.anchor, st.predicate, v, graph⟩

variable {s : Session} {t : Template} {st : Statement} {m : Modifiers} {d : Designator}
  {values : List Text} {es : List Edit}

theorem mapM_resolve_eq_ok {token : Option Text} {r : Option Resource}
    (h : token.mapM s.resolve = .ok r) : token = none ∧ r = none ∨
      ∃ text resource, token = some text ∧ r = some resource ∧ s.resolve? text = some resource := by
  cases token with
  | none => cases h; exact .inl ⟨rfl, rfl⟩
  | some text =>
    rcases hr : s.resolve text with e | resource
    · rw [Option.mapM_some, hr] at h; cases h
    · rw [Option.mapM_some, hr] at h; cases h
      exact .inr ⟨text, resource, rfl, rfl, Session.resolve_eq_ok_iff.1 hr⟩

theorem names_of_ofTemplate (h : ofTemplate s t = .ok st) : t.Names s st := by
  obtain ⟨⟨insert, delete, overwrite, reverse⟩, token1, token2, designator, token, expands⟩ := t
  rw [ofTemplate] at h
  obtain ⟨term1, h1, h⟩ := exists_ok_of_bind h
  obtain ⟨term2, h2, h⟩ := exists_ok_of_bind h
  obtain ⟨graph, hg, h⟩ := exists_ok_of_bind h
  have hfirst := Session.resolve_eq_ok_iff.1 h1
  have hgraph : ∀ text, token = some text →
      ∃ g, s.resolve? text = some g ∧ graph.or s.graph = some g := by
    rintro text rfl
    rcases mapM_resolve_eq_ok hg with ⟨hn, -⟩ | ⟨text, g, hs, rfl, hresolve⟩
    · cases hn
    · cases hs; exact ⟨g, hresolve, rfl⟩
  have hnone : token = none → graph.or s.graph = s.graph := by
    rintro rfl
    cases hg; rfl
  rcases mapM_resolve_eq_ok h2 with ⟨rfl, rfl⟩ | ⟨text, r, rfl, rfl, hsecond⟩
  · cases reverse <;> cases h <;>
      exact ⟨rfl, hfirst, fun _ ha => (by cases ha), fun _ => rfl, hgraph, hnone⟩
  · have hanchor : ∀ {a : Text} {r' : Resource}, s.resolve? a = some r' →
        ∀ token', some a = some token' → s.resolve? token' = some r' := by
      rintro a r' hr token' ⟨⟩
      exact hr
    cases reverse <;> cases h
    · exact ⟨rfl, hsecond, hanchor hfirst, fun ha => (by cases ha), hgraph, hnone⟩
    · exact ⟨rfl, hfirst, hanchor hsecond, fun ha => (by cases ha), hgraph, hnone⟩

theorem isWildcard_edit (st : Statement) (op : Operation) (v : Term) :
    (st.edit op (some v)).isWildcard = false := by
  unfold edit
  split <;> rfl

theorem operation_edit (st : Statement) (op : Operation) (v : Option Term) :
    (st.edit op v).operation = op := by
  unfold edit
  split <;> rfl

theorem matches_edit (st : Statement) (kind : StoreKind) (v : Term) :
    (st.edit .delete none).Matches kind (st.quad v) := by
  have hsame : ∀ t : Term, t.same t := fun t => decide_eq_true rfl
  have hanchor : ∀ t : Term, some (st.anchor : Term) = some t → t.same st.anchor := by
    rintro t ⟨⟩
    exact hsame _
  unfold edit quad
  split
  · exact ⟨fun _ h => (by cases h), hsame _, hanchor, decide_eq_true rfl⟩
  · exact ⟨hanchor, hsame _, fun _ h => (by cases h), decide_eq_true rfl⟩

theorem valueEdits_eq_ok {op : Operation} (h : valueEdits s st op d values = .ok es) :
    ∀ e ∈ es, ∃ w ∈ values, ∃ v, s.coerce w d = .ok (some v) ∧ e = st.edit op (some v) := by
  rw [valueEdits] at h
  obtain ⟨terms, hterms, h⟩ := exists_ok_of_bind h
  cases h
  intro e he
  obtain ⟨t, ht, h⟩ := List.mem_filterMap.1 he
  obtain ⟨v, rfl, rfl⟩ := Option.map_eq_some_iff.1 h
  obtain ⟨w, hw, hv⟩ := exists_of_mem_mapM hterms ht
  exact ⟨w, List.mem_of_mem_filter hw, v, hv, rfl⟩

/-- The edits of a statement are those with the terms of its values, and that for all values if the
values ask for it. -/
theorem edits_eq_ok (h : edits s st m d values = .ok es) :
    (∀ e ∈ es, e = st.edit .delete none ∨
      ∃ op, ∃ w ∈ values, ∃ v, s.coerce w d = .ok (some v) ∧ e = st.edit op (some v)) ∧
      (m.overwrite ∨ m.delete ∧ [] ∈ values → st.edit .delete none ∈ es) := by
  rw [edits] at h
  split at h
  · obtain ⟨here, hv, rfl⟩ := exists_ok_of_map h
    refine ⟨fun e he => ?_, fun _ => List.mem_cons_self ..⟩
    rcases List.mem_cons.1 he with rfl | he
    · exact .inl rfl
    · exact .inr ⟨_, valueEdits_eq_ok hv e he⟩
  · rename_i hover
    split at h
    · cases h
      exact ⟨fun e he => .inl (List.mem_singleton.1 he), fun _ => List.mem_cons_self ..⟩
    · rename_i hdelete
      rw [Bool.and_eq_true, List.contains_iff_mem] at hdelete
      exact ⟨fun e he => .inr ⟨_, valueEdits_eq_ok h e he⟩, fun hc => (hc.elim hover hdelete).elim⟩

end Statement

theorem Template.IsRenderable.not_reverse {t : Template} (h : t.IsRenderable)
    (ho : t.modifiers.overwrite) : t.modifiers.reverse = false := by
  have hall : ∀ e ∈ Modifiers.words, e.2.overwrite → e.2.reverse = false := by decide
  obtain ⟨ws, ⟨hm, -⟩ | ⟨w, -, hw⟩⟩ := h.modifiers
  · rw [hm] at ho; cases ho
  · exact hall _ hw ho

namespace Reading

variable {s : Session} {r : Reading} {es : List Edit}

theorem Clears.not_isDropped (h : r.Clears) (hr : r.template.IsRenderable) :
    r.template.isDropped = false := by
  rw [Template.isDropped]
  rcases h with ho | ⟨-, -, hres⟩
  · rw [hr.not_reverse ho]; rfl
  · rcases hrev : r.template.modifiers.reverse with _ | _
    · rfl
    · rw [hres hrev]; rfl

theorem edits_eq_ok (h : r.edits s = .ok es) (hr : r.template.IsRenderable) :
    (∀ e ∈ es, e.operation = .insert → e.isWildcard = false) ∧
      (r.Clears → ∃ st, r.template.Names s st ∧ st.edit .delete none ∈ es) := by
  rw [edits] at h
  split at h
  · rename_i hd
    cases h
    refine ⟨fun e he => (List.not_mem_nil he).elim, fun hc => ?_⟩
    rw [hc.not_isDropped hr] at hd
    cases hd
  · obtain ⟨st, hst, h⟩ := exists_ok_of_bind h
    obtain ⟨hall, hclear⟩ := Statement.edits_eq_ok h
    constructor
    · intro e he hop
      rcases hall e he with rfl | ⟨op, w, -, v, -, rfl⟩
      · rw [st.operation_edit] at hop; cases hop
      · exact st.isWildcard_edit op v
    · intro hc
      refine ⟨st, Statement.names_of_ofTemplate hst, hclear ?_⟩
      rcases hc with ho | ⟨hd, hmem, -⟩
      exacts [.inl ho, .inr ⟨hd, hmem⟩]

end Reading

namespace Session

/-- What the edits of a form do to a store. The statements of each kind that the form deletes as a
whole are afterwards those that it inserts, whatever order its fields have; and whatever no delete
matches is kept, in particular the same triple in a graph that no delete names. -/
theorem submit_clears (s : Session) (form : Submission) (supply : Supply) (set : EditSet)
    (store : Store) (h : (s.submit form supply).edits = .ok set) :
    ∃ store', set.apply store = .ok store' ∧
      (∀ r ∈ s.readings form supply, r.Clears →
        (∃ st, r.template.Names (s.submit form supply).session st) ∧
        ∀ st : Statement, r.template.Names (s.submit form supply).session st →
          (r.template.modifiers.overwrite → st.reverse = false) ∧
          ∀ v, store'.Holds (st.quad v) ↔ ∃ e ∈ set.inserts, e.Writes store.kind (st.quad v)) ∧
      (∀ q ∈ store.quads, (∀ e ∈ set.deletes, ¬ e.Matches store.kind q) → q ∈ store'.quads) ∧
      ∀ q ∈ store.quads, (∀ e ∈ set.deletes,
        ¬ Quad.sameGraph (store.kind.place e.graph) (store.kind.place q.graph)) →
        q ∈ store'.quads := by
  obtain ⟨es, hes, rfl⟩ := allEdits_of_submit h
  obtain ⟨hread, hfrom⟩ := Reading.mem_allEdits hes
  have hinserts : ∀ e ∈ (EditSet.ofEdits es).inserts, e.isWildcard = false := by
    intro e he
    obtain ⟨he, hop⟩ := List.mem_filter.1 he
    obtain ⟨r, hr, here, hedits, hmem⟩ := hfrom e he
    exact (Reading.edits_eq_ok hedits (isRenderable_of_mem_readings hr)).1 e hmem
      (of_decide_eq_true hop)
  obtain ⟨store', ha, -, -⟩ := EditSet.view_apply hinserts store
  obtain ⟨hkind, hholds⟩ := EditSet.holds_iff_of_apply hinserts ha
  refine ⟨store', ha, fun r hr hc => ?_, fun q hq hd => EditSet.mem_quads_of_apply hq hd ha,
    fun q hq hd => EditSet.mem_quads_of_apply hq (fun e he hm => hd e he hm.graph) ha⟩
  obtain ⟨here, hedits, hsub⟩ := hread r hr
  have hrender := isRenderable_of_mem_readings hr
  obtain ⟨st, hnames, hclear⟩ := (Reading.edits_eq_ok hedits hrender).2 hc
  refine ⟨⟨st, hnames⟩, fun st' hnames' => ?_⟩
  obtain rfl := hnames.unique hnames'
  refine ⟨fun ho => hnames.reverse.trans (hrender.not_reverse ho), fun v => ?_⟩
  have hdelete : st.edit .delete none ∈ (EditSet.ofEdits es).deletes :=
    List.mem_filter.2 ⟨hsub _ hclear, decide_eq_true (st.operation_edit .delete none)⟩
  -- whatever the store held of this kind is deleted, so only the inserts are left
  rw [hholds]
  constructor
  · rintro (hw | ⟨-, hnone⟩)
    · exact hw
    · exact (hnone _ hdelete (st.matches_edit store.kind v)).elim
  · exact .inl

/-- Statements about a city, one of them in a graph of its own too. -/
def cities : Store := .ofQuads .dataset
  [⟨.iri "urn:rome", .iri "p:name", .literal (.plain "Roma"), none⟩,
    ⟨.iri "urn:rome", .iri "p:name", .literal (.plain "Roma"), some (.iri "urn:g")⟩,
    ⟨.iri "urn:rome", .iri "p:size", .literal (.plain "1"), none⟩]

/-- A form that overwrites the names after it has given one, and deletes the sizes by a macro. -/
def newNames : Submission :=
  .ofFields [("p:name @en", ["Rome"]), ("- p:size $", ["2", "$none"]), ("= p:name", [" Rom "]),
    ("$ none", [" "])]

theorem submit_clears_newNames : ∃ (s : Session) (set : EditSet) (store' : Store),
    (s.submit newNames (.fresh id id)).edits = .ok set ∧ set.apply cities = .ok store' ∧
    store'.Holds ⟨.iri "urn:rome", .iri "p:name", .literal (.inLanguage "Rome" "EN"), none⟩ ∧
    ¬ store'.Holds ⟨.iri "urn:rome", .iri "p:name", .literal (.plain "Roma"), none⟩ ∧
    ¬ store'.Holds ⟨.iri "urn:rome", .iri "p:size", .literal (.plain "1"), none⟩ ∧
    ⟨.iri "urn:rome", .iri "p:name", .literal (.plain "Roma"), some (.iri "urn:g")⟩ ∈
      store'.quads := by
  let s : Session := ⟨.iri "urn:rome", none, Prefixes.default, none⟩
  let outcome := s.submit newNames (.fresh id id)
  let name (v : Literal) : Edit :=
    ⟨.insert, some (.iri "urn:rome"), .iri "p:name", some (.literal v), none⟩
  let set : EditSet := ⟨[⟨.delete, some (.iri "urn:rome"), .iri "p:size", none, none⟩,
    ⟨.delete, some (.iri "urn:rome"), .iri "p:name", none, none⟩],
    [name (.inLanguage "Rome" "en"), name (.plain "Rom")]⟩
  have hset : outcome.edits = .ok set := eq_ok_of_toOption (by decide +kernel)
  obtain ⟨store', ha, hclears, -, hgraph⟩ :=
    submit_clears s newNames (.fresh id id) set cities hset
  -- what the keys of the overwrite and of the delete name
  have hnames : Template.Names outcome.session
      ⟨⟨false, false, true, false⟩, "p:name", none, none, none, false⟩
      ⟨.iri "urn:rome", .iri "p:name", none, false⟩ :=
    ⟨rfl, by decide +kernel, fun _ h => (by cases h), fun _ => by decide +kernel,
      fun _ h => (by cases h), fun _ => by decide +kernel⟩
  have hsizes : Template.Names outcome.session
      ⟨⟨false, true, false, false⟩, "p:size", none, none, none, true⟩
      ⟨.iri "urn:rome", .iri "p:size", none, false⟩ :=
    ⟨rfl, by decide +kernel, fun _ h => (by cases h), fun _ => by decide +kernel,
      fun _ h => (by cases h), fun _ => by decide +kernel⟩
  have hname := ((hclears ⟨_, [" Rom "], ["Rom"]⟩ (by decide +kernel) (.inl rfl)).2 _ hnames).2
  have hsize := ((hclears ⟨_, ["2", "$none"], ["2", ""]⟩ (by decide +kernel)
    (.inr ⟨rfl, by decide, fun h => (by cases h)⟩)).2 _ hsizes).2
  refine ⟨s, set, store', hset, ha, ?_, ?_, ?_, ?_⟩
  · exact (hname (.literal (.inLanguage "Rome" "EN"))).2 (by decide)
  · exact mt (hname (.literal (.plain "Roma"))).1 (by decide)
  · exact mt (hsize (.literal (.plain "1"))).1 (by decide)
  · exact hgraph _ (by decide) (by decide)

end Session

end FormEdits
