import FormEdits.Proofs.Form
import FormEdits.Proofs.Key.Declaration
import FormEdits.Proofs.Macros.Reference

/-! # Expanding every key

A key without references is read as it is, and only a key with references waits for the macros. It
makes no difference to expand all keys that declare no macro and to look for templates among their
expansions alone (`Session.submitExpanding_eq_submit`): a text without references expands to itself,
whether or not it is a template. -/

namespace FormEdits

open Macros (names)

/-- The fields of a form with the keys that declare no macro left to be expanded, whatever they
are. -/
def Sorted.unread (fields : List Field) : Sorted :=
  ⟨.ofDeclarations (declarations fields),
    (fields.filter declaresNothing).map fun f => ⟨.unexpanded f.1, f.2⟩⟩

/-- Submits a form, looking for its statements among the expansions of its keys alone. -/
def Session.submitExpanding (s : Session) (form : Submission) (supply : Supply) : Outcome :=
  match form.fields with
  | .error e => ⟨s, .error e, supply⟩
  | .ok fields => s.submitSorted (Sorted.unread fields) supply

namespace Candidate

variable {s : Session} {m : Expansions} {c c' : Candidate} {cs cs' : List Candidate}

/-! ### Candidates with the same templates -/

theorem templates_of_unbound {key : Text} (h : ∀ x ∈ names key, m.find? x = none)
    (values : List Text) (supply : Supply) :
    templates ⟨.unexpanded key, values⟩ m supply = ((Template.parse? key).toList, supply) := by
  rw [templates]
  simp only [Macros.expand_of_unbound h]
  rcases ht : Template.parse? key with _ | t
  · simp [ht]
  · simp [ht]

theorem templates_filter (m : Expansions) (key : Text) (values : List Text) (supply : Supply) :
    (templates ⟨.unexpanded key, values⟩ m supply).1 =
      ((Macros.expand m key supply).1.filter fun t => (Declaration.parse? t).isNone).filterMap
        Template.parse? := by
  rw [templates, List.filterMap_filter]
  refine List.filterMap_congr fun t _ => ?_
  rcases hd : Declaration.parse? t with _ | d
  · rfl
  · exact Template.parse?_eq_none_of_declaration hd

theorem edits_cons_congr (ht : c'.templates m = c.templates m) (hv : c'.values = c.values)
    (hcs : ∀ supply, edits s m cs' supply = edits s m cs supply) (supply : Supply) :
    edits s m (c' :: cs') supply = edits s m (c :: cs) supply := by
  simp only [edits, ht, hv, hcs]

theorem edits_cons_of_templates_nil (ht : ∀ supply, c.templates m supply = ([], supply))
    (supply : Supply) : edits s m (c :: cs) supply = edits s m cs supply := by
  simp only [edits, ht, templateEdits]
  rcases edits s m cs supply with ⟨e | es, supply'⟩
  · rfl
  · rfl

/-- Candidates that are read before the macros are put in make the edits that they make when they
are read after. -/
theorem edits_unread (s : Session) (m : Expansions) (fields : List Field) (supply : Supply) :
    edits s m (Sorted.unread fields).candidates supply =
      edits s m (fields.filterMap ofField?) supply := by
  show edits s m ((fields.filter declaresNothing).map _) supply = _
  induction fields generalizing supply with
  | nil => rfl
  | cons f fields ih =>
    rcases hd : Declaration.parse? f.1 with _ | d
    · have hf : declaresNothing f = true := by simp only [declaresNothing, hd, Option.isNone_none]
      rw [List.filter_cons_of_pos hf, List.map_cons]
      rcases hr : Macros.hasReferences f.1 with _ | _
      · -- without references, the key is its own expansion
        have hnames : ∀ x ∈ names f.1, m.find? x = none := by
          intro x hx
          rw [Macros.hasReferences_iff.2 ⟨x, hx⟩] at hr
          cases hr
        have htemplates := templates_of_unbound hnames f.2
        rcases ht : Template.parse? f.1 with _ | t
        · have hof : ofField? f = none := by simp [ofField?, Key.classify, hd, hr, ht]
          rw [ht] at htemplates
          rw [List.filterMap_cons_none hof, edits_cons_of_templates_nil htemplates, ih]
        · have hof : ofField? f = some ⟨.statement t, f.2⟩ := by
            simp [ofField?, Key.classify, hd, hr, ht]
          rw [ht] at htemplates
          have hread : templates ⟨.unexpanded f.1, f.2⟩ m = templates ⟨.statement t, f.2⟩ m :=
            funext htemplates
          rw [List.filterMap_cons_some hof]
          exact edits_cons_congr hread rfl ih supply
      · have hof : ofField? f = some ⟨.unexpanded f.1, f.2⟩ := by
          simp [ofField?, Key.classify, hd, hr]
        rw [List.filterMap_cons_some hof]
        exact edits_cons_congr rfl rfl ih supply
    · have hf : ¬ declaresNothing f = true := by
        simp only [declaresNothing, hd, Option.isNone_some, Bool.false_eq_true, not_false_eq_true]
      rw [List.filter_cons_of_neg hf, List.filterMap_cons_none (ofField?_of_declaration hd), ih]

end Candidate

/-- Expanding every key makes the same edits, or fails with the same error, leaves the same session
and draws the same values. A key whose references are all unbound is read as it is written, and an
expansion that is a declaration is no statement. -/
theorem Session.submitExpanding_eq_submit (s : Session) (form : Submission) (supply : Supply) :
    s.submitExpanding form supply = s.submit form supply ∧
      (∀ (m : Expansions) (key : Text) (values : List Text) (supply : Supply),
        (∀ x ∈ names key, m.find? x = none) →
          Candidate.templates ⟨.unexpanded key, values⟩ m supply =
            ((Template.parse? key).toList, supply)) ∧
      ∀ (m : Expansions) (key : Text) (values : List Text) (supply : Supply),
        (Candidate.templates ⟨.unexpanded key, values⟩ m supply).1 =
          ((Macros.expand m key supply).1.filter fun t => (Declaration.parse? t).isNone).filterMap
            Template.parse? := by
  refine ⟨?_, fun m key values supply h => Candidate.templates_of_unbound h values supply,
    Candidate.templates_filter⟩
  rcases hf : form.fields with e | fields
  · rw [submitExpanding, submit, hf]
  · have hedits := fun s m => Candidate.edits_unread s m fields
    rw [← Sorted.candidates_ofFields] at hedits
    simp only [submitExpanding, submit, hf, submitSorted, hedits]
    rw [Sorted.table_ofFields]
    rfl

end FormEdits
