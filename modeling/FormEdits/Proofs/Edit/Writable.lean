import FormEdits.Proofs.Edit.Labels
import FormEdits.Proofs.Edit.WellFormed

/-! # Edits that can be written

An IRI with a forbidden character in it cannot be written, and nothing else is ever refused. Since
every term of an edit stands in a line of some operation and in the report, an edit set can be
written exactly if all of its IRIs can (`EditSet.WellFormed.exists_sparql_iff`,
`EditSet.exists_report_iff`). -/

namespace FormEdits

/-- Whether a resource can be written. -/
def Resource.isWritable : Resource → Bool
  | .iri t => !t.any Written.isForbidden
  | .blank _ => true

/-- The error for one of the resources that cannot be written. -/
def UnwritableAmong (P : Resource → Prop) (e : Error) : Prop :=
  ∃ iri, e = .unwritable iri ∧ Resource.isWritable (.iri iri) = false ∧ P (.iri iri)

namespace Written

theorem exists_term_iff (u : Resource) :
    (∃ w, term u.toTerm = .ok w) ↔ u.isWritable := by
  cases u with
  | iri t =>
    simp only [Resource.toTerm, term, iri, Resource.isWritable]
    split
    · rename_i h; simp [h]
    · rename_i h; simp [h]
  | blank l => exact ⟨fun _ => rfl, fun _ => ⟨_, rfl⟩⟩

theorem unwritableAmong_term (t : Term) :
    ErrorsIn (UnwritableAmong fun u => u.toTerm = t) (term t) := by
  cases t with
  | iri t =>
    rw [term, iri]
    split
    · rename_i h
      exact .error ⟨t, rfl, by rw [Resource.isWritable, h]; rfl, rfl⟩
    · exact .ok _
  | blank l => exact .ok _
  | literal l => exact .ok _

end Written

open Sparql

namespace Edit

variable {e : Edit}

theorem isWritable_iff : e.IsWritable ↔ ∀ u : Resource, u.toTerm ∈ e.terms → u.isWritable := by
  constructor
  · exact fun h u hu => (Written.exists_term_iff u).1 (h _ hu)
  · intro h t ht
    cases t with
    | iri t => exact (Written.exists_term_iff (.iri t)).2 (h _ ht)
    | blank l => exact ⟨_, rfl⟩
    | literal l => exact ⟨_, rfl⟩

theorem exists_term_of_patternSlot {labels : List Text} {x w : Text} {t : Term}
    (h : (patternSlot labels x (some t)).WrittenAs w) : ∃ w, Written.term t = .ok w := by
  cases t with
  | iri t => exact ⟨w, h⟩
  | blank l => exact ⟨_, rfl⟩
  | literal l => exact ⟨w, h⟩

theorem isWritable_of_writtenAs {p : Pattern} {w : Text} (hp : p = e.pattern ∨ p = e.triple)
    (h : p.WrittenAs w) (hg : ∀ g, e.graph = some g → ∃ w, Written.term g = .ok w) :
    e.IsWritable := by
  obtain ⟨s, v, o, hs, hv, ho, -⟩ := h
  intro t ht
  rcases mem_terms.1 ht with ht | ht | ht | ht
  · rcases hp with rfl | rfl
    · rw [pattern, ht] at hs; exact exists_term_of_patternSlot hs
    · rw [triple, ht] at hs; exact ⟨s, hs⟩
  · rcases hp with rfl | rfl
    · rw [pattern, ht] at hv; exact exists_term_of_patternSlot hv
    · rw [triple, ht] at hv; exact ⟨v, hv⟩
  · rcases hp with rfl | rfl
    · rw [pattern, ht] at ho; exact exists_term_of_patternSlot ho
    · rw [triple, ht] at ho; exact ⟨o, ho⟩
  · exact hg t ht

theorem isWritable_of_report {q : QuadReport} (h : e.report = .ok q) : e.IsWritable := by
  rw [report] at h
  obtain ⟨s, hs, h⟩ := exists_ok_of_bind h
  obtain ⟨v, hv, h⟩ := exists_ok_of_bind h
  obtain ⟨o, ho, h⟩ := exists_ok_of_bind h
  obtain ⟨g, hg, -⟩ := exists_ok_of_bind h
  have hsome : ∀ {x : Option Term} {y : Option Text} {t : Term}, x.mapM Written.term = .ok y →
      x = some t → ∃ w, Written.term t = .ok w := by
    rintro x y t hx rfl
    obtain ⟨w, hw, -⟩ := exists_ok_of_bind hx
    exact ⟨w, hw⟩
  intro t ht
  rcases mem_terms.1 ht with ht | rfl | ht | ht
  · exact hsome hs ht
  · exact ⟨v, hv⟩
  · exact hsome ho ht
  · exact hsome hg ht

end Edit

namespace Sparql

theorem Update.writtenAs_of_mem_lines {u : Update} {t : Text} (h : u.text = .ok t)
    {g : Option Term} {p : Pattern} (hl : (g, p) ∈ u.lines) :
    (∃ w, p.WrittenAs w) ∧ ∀ k, g = some k → ∃ w, Written.term k = .ok w := by
  obtain ⟨parts, hparts, -⟩ := Update.writtenAs_of_text h
  obtain ⟨b, hb, rfl, hp⟩ := Assoc.exists_of_mem_entries hl
  obtain ⟨part, -, lines, hlines, hgraph⟩ := exists_of_forall₂ hparts hb
  obtain ⟨w, -, hw⟩ := exists_of_forall₂ hlines hp
  refine ⟨⟨w, hw⟩, fun k hk => ?_⟩
  rcases hgraph with ⟨hnone, -⟩ | ⟨k', name, hk', hname, -⟩
  · rw [hk] at hnone; cases hnone
  · rw [hk] at hk'; cases hk'
    exact ⟨name, hname⟩

end Sparql

namespace EditSet

variable {set : EditSet}

theorem isWritable_of_sparql {text : Text} (h : set.sparql = .ok text) :
    ∀ e ∈ set.toList, e.IsWritable := by
  obtain ⟨texts, ht, -⟩ := exists_ok_of_map h
  have hwritten : ∀ u ∈ set.updates, ∃ t, u.text = .ok t := by
    intro u hu
    obtain ⟨t, -, ht⟩ := exists_ok_of_mapM ht hu
    exact ⟨t, ht⟩
  intro e he
  rcases List.mem_append.1 he with he | he
  · obtain ⟨u, hu, -, p, hp, hline⟩ := exists_line_of_mem_deletes he
    obtain ⟨t, ht⟩ := hwritten u hu
    obtain ⟨⟨w, hw⟩, hg⟩ := Update.writtenAs_of_mem_lines ht hline
    exact Edit.isWritable_of_writtenAs hp hw hg
  · obtain ⟨u, hu, -, hline⟩ := exists_line_of_mem_inserts he
    obtain ⟨t, ht⟩ := hwritten u hu
    obtain ⟨⟨w, hw⟩, hg⟩ := Update.writtenAs_of_mem_lines ht hline
    exact Edit.isWritable_of_writtenAs (.inr rfl) hw hg

theorem isWritable_of_report {r : Report} (h : set.report = .ok r) :
    ∀ e ∈ set.toList, e.IsWritable := by
  obtain ⟨deletes, hd, h⟩ := exists_ok_of_bind h
  obtain ⟨inserts, hi, -⟩ := exists_ok_of_bind h
  intro e he
  rcases List.mem_append.1 he with he | he
  · obtain ⟨q, -, hq⟩ := exists_ok_of_mapM hd he
    exact Edit.isWritable_of_report hq
  · obtain ⟨q, -, hq⟩ := exists_ok_of_mapM hi he
    exact Edit.isWritable_of_report hq

theorem succeeds_of_isWritable (h : ∀ e ∈ set.toList, e.IsWritable) :
    ∀ e ∈ set.toList, e.TermErrorsIn fun _ => False := by
  intro e he t ht
  obtain ⟨w, hw⟩ := h e he t ht
  exact .of_eq_ok hw

theorem WellFormed.exists_sparql_iff (h : set.WellFormed) :
    (∃ text, set.sparql = .ok text) ↔ ∀ e ∈ set.toList, e.IsWritable :=
  ⟨fun ⟨_, ht⟩ => isWritable_of_sparql ht,
    fun hw => Succeeds.exists_ok (h.errorsIn_sparql (succeeds_of_isWritable hw))⟩

theorem exists_report_iff : (∃ r, set.report = .ok r) ↔ ∀ e ∈ set.toList, e.IsWritable :=
  ⟨fun ⟨_, hr⟩ => isWritable_of_report hr,
    fun hw => Succeeds.exists_ok (errorsIn_report (succeeds_of_isWritable hw))⟩

end EditSet

end FormEdits
