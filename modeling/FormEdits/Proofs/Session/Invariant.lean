import FormEdits.Proofs.Edit.WellFormed
import FormEdits.Proofs.Session.Rebuilt
import FormEdits.Proofs.Statement.Clearing

/-! # What every submission keeps

A session that replaces no terms makes well-formed edits, since the value of a statement is a
resource wherever it stands for a subject. Whatever forms are submitted to a session, also ones that
fail, its subject and its graph stay resources and no prefix is ever forgotten
(`Session.submit_wellFormed`). -/

namespace FormEdits

theorem Resource.isResource_toTerm (r : Resource) : r.toTerm.isResource := by
  cases r with
  | iri t => rfl
  | blank l => rfl

theorem Resource.all_isResource (r : Option Resource) :
    (r.map Resource.toTerm).all Term.isResource := by
  cases r with
  | none => rfl
  | some r => exact r.isResource_toTerm

/-! ### The edits of a statement -/

namespace Session

variable {s : Session} {value : Text} {d : Designator} {t : Term}

theorem isResource_of_term (hd : d.isResource) (h : s.term value d = .ok (some t)) :
    t.isResource := by
  cases d with
  | resource =>
    rw [term] at h
    split at h
    · cases h
    · obtain ⟨r, -, hr⟩ := exists_ok_of_map h
      cases hr
      exact r.isResource_toTerm
  | blank =>
    rw [term] at h
    split at h
    · cases h
    · cases h; rfl
  | literal => cases hd
  | language tag => cases hd
  | datatype token => cases hd

end Session

namespace Statement

variable {st : Statement} {op : Operation} {v : Option Term}

theorem wellFormed_edit (hv : v = none → op = .delete)
    (hr : st.reverse → v.all Term.isResource) : (st.edit op v).WellFormed := by
  have hgraph := Resource.all_isResource st.graph
  have hanchor := st.anchor.isResource_toTerm
  have hpredicate := st.predicate.isResource_toTerm
  have hinsert : (st.edit op v).operation = .insert → (st.edit op v).isWildcard = false := by
    intro hop
    rw [operation_edit] at hop
    rcases v with _ | v
    · rw [hv rfl] at hop; cases hop
    · exact st.isWildcard_edit op v
  rw [edit] at hinsert ⊢
  split at hinsert
  · rename_i hrev
    rw [if_pos hrev]
    exact ⟨hgraph, hpredicate, hr hrev, .inr rfl, hinsert⟩
  · rename_i hrev
    rw [if_neg hrev]
    exact ⟨hgraph, hpredicate, hanchor, .inl rfl, hinsert⟩

end Statement

/-- A reverse statement is dropped unless its values are resources, so no literal becomes a
subject. -/
theorem Reading.wellFormed_edits {s : Session} {r : Reading} {es : List Edit}
    (hn : s.replacement = none) (h : r.edits s = .ok es) : ∀ e ∈ es, e.WellFormed := by
  rw [edits] at h
  split at h
  · cases h
    exact fun e he => (List.not_mem_nil he).elim
  rename_i hd
  obtain ⟨st, hst, h⟩ := exists_ok_of_bind h
  have hresource : st.reverse → r.template.effectiveDesignator.isResource := by
    intro hrev
    rw [(Statement.names_of_ofTemplate hst).reverse] at hrev
    simpa [Template.isDropped, hrev] using hd
  intro e he
  rcases (Statement.edits_eq_ok h).1 e he with rfl | ⟨op, w, -, v, hv, rfl⟩
  · exact Statement.wellFormed_edit (fun _ => rfl) fun _ => rfl
  · rw [Session.coerce_eq_term hn] at hv
    exact Statement.wellFormed_edit (fun hnone => by cases hnone) fun hrev =>
      Session.isResource_of_term (hresource hrev) hv

/-! ### Submissions -/

namespace Session

variable {s : Session}

theorem wellFormed_of_submit (hn : s.replacement = none) {form : Submission} {supply : Supply}
    {set : EditSet} (h : (s.submit form supply).edits = .ok set) : set.WellFormed := by
  have hsession := replacement_submit hn form supply
  obtain ⟨es, hes, rfl⟩ := allEdits_of_submit h
  refine EditSet.wellFormed_ofEdits fun e he => ?_
  obtain ⟨r, -, here, hedits, hmem⟩ := (Reading.mem_allEdits hes).2 e he
  exact Reading.wellFormed_edits hsession hedits e hmem

theorem keys_prefix_submit (s : Session) (form : Submission) (supply : Supply) :
    s.prefixes.keys <+: (s.submit form supply).session.prefixes.keys := by
  obtain ⟨lines, hp⟩ := s.exists_bind_of_submit form supply
  rw [hp, Prefixes.bind_eq_overlay]
  exact Assoc.keys_prefix_overlay _ _

/-- Submissions bind prefixes anew or behind the others. -/
theorem keys_prefix_submitAll (s : Session) (forms : List Submission) (supply : Supply) :
    s.prefixes.keys <+: (s.submitAll forms supply).1.prefixes.keys :=
  submitAll_induction (P := fun s' => s.prefixes.keys <+: s'.prefixes.keys) List.prefix_rfl
    (fun s' form supply h => h.trans (s'.keys_prefix_submit form supply)) forms supply

theorem replacement_of_ofValues {subject graph prefixes : Value}
    (h : ofValues subject graph prefixes .absent = .ok s) : s.replacement = none := by
  unfold ofValues at h
  split at h
  · cases h
  · obtain ⟨g, -, h⟩ := exists_ok_of_bind h
    obtain ⟨p, -, h⟩ := exists_ok_of_bind h
    cases h
    rfl

/-- After any submissions to a session that replaces no terms, its subject and its graph are
resources, and the known prefixes and all that were bound at some point are still bound. Every edit
set that a further submission makes is well formed: it can be applied to every store, and writing it
never meets a term that is missing. -/
theorem submit_wellFormed (subject graph prefixes : Value) (s₀ s s' : Session)
    (earlier later : List Submission) (supply₀ supply supply' : Supply)
    (h₀ : ofValues subject graph prefixes .absent = .ok s₀)
    (hs : s₀.submitAll earlier supply₀ = (s, supply))
    (hs' : s.submitAll later supply = (s', supply')) :
    s'.subject.toTerm.isResource ∧ (s'.graph.map Resource.toTerm).all Term.isResource ∧
    (∀ name ∈ (["rdf", "rdfs", "owl", "xsd"] : List Text), (s'.prefixes.find? name).isSome) ∧
    (∀ name, (s.prefixes.find? name).isSome → (s'.prefixes.find? name).isSome) ∧
    ∀ form set, (s'.submit form supply').edits = .ok set → set.WellFormed ∧
      (∀ store, ∃ store', set.apply store = .ok store') ∧
      UnwritableOnly set.sparql ∧ UnwritableOnly set.report ∧ UnwritableOnly set.insertLines := by
  have hs : s = (s₀.submitAll earlier supply₀).1 := by rw [hs]
  have hs' : s' = (s.submitAll later supply).1 := by rw [hs']
  have hkeys : ∀ name, (s.prefixes.find? name).isSome → (s'.prefixes.find? name).isSome := by
    intro name hname
    rw [Assoc.find?_isSome_iff] at hname ⊢
    rw [hs']
    exact (s.keys_prefix_submitAll later supply).subset hname
  have hknown : ∀ name ∈ Prefixes.default.keys, (s.prefixes.find? name).isSome := by
    obtain ⟨es, hes⟩ := extend_of_submitAll (extend_of_ofValues h₀) earlier supply₀
    intro name hname
    rw [Assoc.find?_isSome_iff, hs, hes]
    exact (Assoc.keys_prefix_overlay _ _).subset hname
  have hn : s'.replacement = none := by
    rw [hs', hs]
    exact replacement_submitAll (replacement_submitAll (replacement_of_ofValues h₀) _ _) _ _
  refine ⟨s'.subject.isResource_toTerm, Resource.all_isResource s'.graph,
    fun name hname => hkeys name (hknown name hname), hkeys, fun form set h => ?_⟩
  have hset := wellFormed_of_submit hn h
  exact ⟨hset, hset.apply, hset.sparql, set.unwritableOnly_report, hset.insertLines⟩

/-- A form that binds a prefix and names a blank node as the subject before its statement fails. -/
def unfinished : Submission :=
  .ofFields [("ex:size ^_:t", ["1"]), ("$ PREFIX", ["ex: urn:ex:"]), ("$ SUBJECT", ["_:a"])]

/-- A form that uses the prefix: it overwrites a name, makes a reverse statement and deletes all
reverse statements of another predicate. -/
def related : Submission :=
  .ofFields [("= ex:name @en", [" N "]), ("! ex:knows", ["_:b", ""]), ("!- ex:old :", [""])]

theorem submit_wellFormed_related : ∃ (s₀ s s' : Session) (supply supply' : Supply) (set : EditSet),
    ofValues (.term (.iri "urn:a")) .null .null .absent = .ok s₀ ∧
    s₀.submitAll [unfinished] (.fresh id id) = (s, supply) ∧
    s.submitAll [related, unfinished] supply = (s', supply') ∧
    (s₀.submit unfinished (.fresh id id)).edits.toBool = false ∧
    (s.prefixes.find? "ex").isSome ∧ (s'.prefixes.find? "ex").isSome ∧
    (s'.submit related supply').edits = .ok set ∧ set.WellFormed ∧ set.size = 4 := by
  let s₀ : Session := ⟨.iri "urn:a", none, Prefixes.default, none⟩
  let first := s₀.submitAll [unfinished] (.fresh id id)
  let second := first.1.submitAll [related, unfinished] first.2
  let outcome := second.1.submit related second.2
  let edit (op : Operation) (v : Option Term) (p : Text) : Edit :=
    ⟨op, some (.blank "a"), .iri p, v, none⟩
  let set : EditSet := ⟨[edit .delete none "urn:ex:name",
      ⟨.delete, none, .iri "urn:ex:old", some (.blank "a"), none⟩],
    [edit .insert (some (.literal (.inLanguage "N" "en"))) "urn:ex:name",
      ⟨.insert, some (.blank "b"), .iri "urn:ex:knows", some (.blank "a"), none⟩]⟩
  have hset : outcome.edits = .ok set := eq_ok_of_toOption (by decide +kernel)
  have hbound : (first.1.prefixes.find? "ex").isSome := by decide +kernel
  obtain ⟨-, -, -, hkeep, hedits⟩ := submit_wellFormed (.term (.iri "urn:a")) .null .null
    s₀ first.1 second.1 [unfinished] [related, unfinished] _ _ _ rfl rfl rfl
  exact ⟨s₀, first.1, second.1, first.2, second.2, set, rfl, rfl, rfl, by decide +kernel, hbound,
    hkeep "ex" hbound, hset, (hedits related set hset).1, rfl⟩

end Session

end FormEdits
