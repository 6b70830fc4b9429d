import FormEdits.Proofs.Edit.Labels
import FormEdits.Proofs.Statement.Values

/-! # Deletes in blank graphs

A graph may be a blank node, and the graph of a delete is written as it is. So the update of a form
names a blank node in a delete exactly if a statement of the form deletes something in a blank
graph, which its key names or the session has (`Session.submit_deleteLabels`). -/

namespace FormEdits

open Sparql

namespace Statement

theorem graph_edit (st : Statement) (op : Operation) (v : Option Term) :
    (st.edit op v).graph = st.graph.map Resource.toTerm := by
  unfold edit
  split <;> rfl

end Statement

namespace Reading

variable {s : Session} {r : Reading} {e : Edit}

/-- Whether a reading deletes anything: all statements of a kind, or that with a value. -/
def Deletes (s : Session) (r : Reading) : Prop :=
  r.template.isDropped = false ∧ (r.template.modifiers.overwrite ∨ r.template.modifiers.delete ∧
    ∃ v ∈ r.values, v = [] ∨ ∃ t, s.coerce v r.template.effectiveDesignator = .ok (some t))

/-- Whether the graph of a reading is a blank node. The key may name the graph; otherwise it is that
of the session. -/
def InBlankGraph (s : Session) (r : Reading) : Prop :=
  match r.template.graph with
  | some token => "_:" <+: token
  | none => ∃ l, s.graph = some (.blank l)

theorem graph_eq_blank_iff {st : Statement} (h : r.template.Names s st) :
    (∃ l, st.graph = some (.blank l)) ↔ r.InBlankGraph s := by
  unfold InBlankGraph
  rcases ht : r.template.graph with _ | token
  · rw [h.sessionGraph ht]
  · obtain ⟨g, hg, hst⟩ := h.graph token ht
    simp only [← Session.resolve?_eq_blank_iff (s := s), hg, hst]

theorem Makes.graph (h : r.Makes s e) :
    (∃ l, e.graph = some (.blank l)) ↔ r.InBlankGraph s := by
  obtain ⟨-, st, hnames, hmakes⟩ := h
  have hgraph : e.graph = st.graph.map Resource.toTerm := by
    rcases hmakes with _ | _
    · exact st.graph_edit ..
    · exact st.graph_edit ..
  rw [← graph_eq_blank_iff hnames, hgraph]
  rcases st.graph with _ | (iri | label)
  · simp
  · simp [Resource.toTerm]
  · simp [Resource.toTerm]

theorem Makes.deletes (h : r.Makes s e) (hop : e.operation = .delete) : r.Deletes s := by
  obtain ⟨hkept, st, -, hmakes⟩ := h
  refine ⟨hkept, ?_⟩
  rcases hmakes with hc | ⟨hw, hv⟩
  · exact hc.imp_right fun ⟨hd, hmem⟩ => ⟨hd, [], hmem, .inl rfl⟩
  · rw [st.operation_edit] at hop
    split at hop
    · rename_i hd
      exact .inr ⟨hd, _, (Statement.mem_used.1 hw).2.1, .inr ⟨_, hv⟩⟩
    · cases hop

theorem Deletes.exists_makes (h : r.Deletes s) {st : Statement} (hnames : r.template.Names s st) :
    ∃ e, r.Makes s e ∧ e.operation = .delete := by
  obtain ⟨hkept, hdel⟩ := h
  by_cases hc : r.template.modifiers.overwrite ∨ r.template.modifiers.delete ∧ [] ∈ r.values
  · exact ⟨_, ⟨hkept, st, hnames, .all hc⟩, st.operation_edit ..⟩
  · obtain ⟨hd, v, hmem, hv⟩ := hdel.resolve_left (not_or.1 hc).1
    obtain ⟨hne, hused⟩ := Statement.mem_used_of_not_all hc hmem fun _ => hd
    obtain ⟨t, ht⟩ := hv.resolve_left hne
    refine ⟨_, ⟨hkept, st, hnames, .value hused ht⟩, ?_⟩
    rw [st.operation_edit, if_pos hd]

end Reading

namespace Session

/-- In the update of a form, no operation that deletes has the label of a blank node in a pattern,
but the name of a graph is one exactly if a statement deletes something in a blank graph. The text
of the update is that of its operations. -/
theorem submit_deleteLabels (s : Session) (form : Submission) (supply : Supply) (set : EditSet)
    (h : (s.submit form supply).edits = .ok set) :
    (∀ text, set.sparql = .ok text → ∃ texts, text = List.intercalate " ;\n" texts ∧
      List.Forall₂ Update.WrittenAs set.updates texts) ∧
    (∀ u ∈ set.updates, u.operation = .delete → ∀ q ∈ u.slots, ¬ q.IsLabel) ∧
    ((∃ u ∈ set.updates, u.operation = .delete ∧ ∃ q ∈ u.graphNames, q.IsLabel) ↔
      ∃ r ∈ s.readings form supply, r.Deletes (s.submit form supply).session ∧
        r.InBlankGraph (s.submit form supply).session) := by
  refine ⟨fun text => EditSet.writtenAs_of_sparql, fun u => EditSet.not_isLabel_slots, ?_⟩
  rw [EditSet.exists_isLabel_graphNames_iff]
  constructor
  · rintro ⟨e, he, l, hl⟩
    obtain ⟨hop, r, hr, hmakes⟩ := (mem_deletes_iff h).1 he
    exact ⟨r, hr, hmakes.deletes hop, hmakes.graph.1 ⟨l, hl⟩⟩
  · rintro ⟨r, hr, hd, hb⟩
    obtain ⟨st, hnames⟩ := exists_names_of_submit h hr hd.1
    obtain ⟨e, hmakes, hop⟩ := hd.exists_makes hnames
    exact ⟨e, (mem_deletes_iff h).2 ⟨hop, r, hr, hmakes⟩, hmakes.graph.2 hb⟩

/-- A form that moves to a blank subject and a blank graph. It deletes in a graph with an IRI, with
blank nodes around it, and inserts in the blank graph. -/
def moved : Submission :=
  .ofFields [("$ SUBJECT", ["_:s"]), ("$ GRAPH", ["_:g"]), ("- p:a _ p:g", ["x", "_:y"]),
    ("= p:b : p:g", ["_:s"]), ("p:c", ["v"])]

theorem submit_deleteLabels_moved : ∃ (s : Session) (set : EditSet),
    (s.submit moved (.fresh id id)).edits = .ok set ∧ set.deletes.length = 3 ∧
    (∀ u ∈ set.updates, u.operation = .delete →
      (∀ q ∈ u.slots, ¬ q.IsLabel) ∧ ∀ q ∈ u.graphNames, ¬ q.IsLabel) ∧
    ∃ u ∈ set.updates, ∃ q ∈ u.graphNames, q.IsLabel := by
  let s : Session := ⟨.iri "urn:a", none, Prefixes.default, none⟩
  let outcome := s.submit moved (.fresh id id)
  let edit (op : Operation) (p : Text) (o : Option Term) : Edit :=
    ⟨op, some (.blank "s"), .iri p, o, some (.iri "p:g")⟩
  let set : EditSet := ⟨[edit .delete "p:a" (some (.blank "x")),
      edit .delete "p:a" (some (.blank "y")), edit .delete "p:b" none],
    [edit .insert "p:b" (some (.blank "s")), ⟨.insert, some (.blank "s"), .iri "p:c",
      some (.literal (.plain "v")), some (.blank "g")⟩]⟩
  have hset : outcome.edits = .ok set := eq_ok_of_toOption (by decide +kernel)
  obtain ⟨-, hslots, hgraphs⟩ := submit_deleteLabels s moved (.fresh id id) set hset
  let key (m : Modifiers) (p : Text) (d : Option Designator) (g : Option Text) : Template :=
    ⟨m, p, none, d, g, false⟩
  have hread : s.readings moved (.fresh id id) = [
      ⟨key ⟨false, true, false, false⟩ "p:a" (some .blank) (some "p:g"), ["x", "_:y"], ["x", "_:y"]⟩,
      ⟨key ⟨false, false, true, false⟩ "p:b" (some .resource) (some "p:g"), ["_:s"], ["_:s"]⟩,
      ⟨key .empty "p:c" none none, ["v"], ["v"]⟩] := by decide +kernel
  have hnone : ¬ ∃ r ∈ s.readings moved (.fresh id id), r.Deletes outcome.session ∧
      r.InBlankGraph outcome.session := by
    rw [hread]
    rintro ⟨r, hr, hd, hb⟩
    rcases List.mem_cons.1 hr with rfl | hr
    · exact absurd (show ("_:" : Text) <+: "p:g" from hb) (by decide)
    rcases List.mem_cons.1 hr with rfl | hr
    · exact absurd (show ("_:" : Text) <+: "p:g" from hb) (by decide)
    · obtain rfl := List.mem_singleton.1 hr
      rcases hd.2 with h | ⟨h, -⟩
      · cases h
      · cases h
  have hinsert : ∃ u ∈ set.updates, Slot.term (.blank "g") ∈ u.graphNames := by decide +kernel
  obtain ⟨u, hu, hq⟩ := hinsert
  refine ⟨s, set, hset, rfl, fun u hu hop => ⟨hslots u hu hop, fun q hq hlabel => ?_⟩, u, hu, _, hq,
    Slot.isLabel_iff.2 ⟨_, rfl⟩⟩
  exact hnone (hgraphs.1 ⟨u, hu, hop, q, hq, hlabel⟩)

/-- A delete in the graph of the session, which is a blank node. -/
theorem submit_deleteLabels_blankGraph : ∃ (s : Session) (set : EditSet),
    (s.submit (.ofFields [("$ GRAPH", ["_:g"]), ("- p:a", [""])]) (.fresh id id)).edits = .ok set ∧
    set.sparql = .ok ("DELETE WHERE \x7b\n  GRAPH _:g \x7b\n    <urn:s> <p:a> ?o .\n  \x7d\n\x7d" : Text) ∧
    ∃ u ∈ set.updates, u.operation = .delete ∧ ∃ q ∈ u.graphNames, q.IsLabel := by
  let set : EditSet :=
    ⟨[⟨.delete, some (.iri "urn:s"), .iri "p:a", none, some (.blank "g")⟩], []⟩
  refine ⟨⟨.iri "urn:s", none, Prefixes.default, none⟩, set, eq_ok_of_toOption (by decide +kernel),
    eq_ok_of_toOption (by decide +kernel), EditSet.exists_isLabel_graphNames_iff.2 ?_⟩
  exact ⟨_, List.mem_singleton_self _, "g", rfl⟩

end Session

end FormEdits
