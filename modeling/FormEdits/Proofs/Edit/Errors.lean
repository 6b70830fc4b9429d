import FormEdits.Proofs.Result
import FormEdits.Submission

/-! # Errors that refuse a form

A form is refused as a whole for its fields, its macros or its special macros. No error of a
statement refuses it, unless a replacement of terms raises one that does. -/

namespace FormEdits

/-- Whether an error refuses a form before any of its statements is read. -/
def Error.refusesForm : Error → Bool
  | .configuration _ | .undecodable _ | .selfReference _ | .cycle _ | .special _ _ => true
  | _ => false

/-- A computation that does not refuse the form. -/
abbrev NoRefusal {α : Type} (x : Except Error α) : Prop := ErrorsIn (fun e => e.refusesForm = false) x

/-- Whether an outcome is that of a form refused as a whole. -/
def Outcome.isRefused (out : Outcome) : Bool :=
  match out.edits with
  | .error e => e.refusesForm
  | .ok _ => false

theorem Outcome.isRefused_eq_false {out : Outcome} (h : NoRefusal out.edits) :
    out.isRefused = false := by
  unfold isRefused
  split
  · rename_i e he; exact h e he
  · rfl

theorem Submission.errorsIn_fields {P : Error → Prop} (form : Submission)
    (hform : ∀ type, P (.configuration (.formNotMapping type)))
    (hbytes : ∀ fault, P (.undecodable fault)) : ErrorsIn P form.fields := by
  have htext : ∀ v : Value, ErrorsIn P v.fieldText := by
    intro v
    unfold Value.fieldText
    split
    · rename_i bs
      rcases Utf8.decode bs with e | t
      · exact .error (hbytes e)
      · exact .ok t
    · exact .ok _
  have hvalues : ErrorsIn P form.values := by
    unfold Submission.values
    split
    · exact .ok _
    · exact .error (hform _)
    · exact .ok _
  exact hvalues.bind fun vs => .mapM fun f _ => (ErrorsIn.mapM fun v _ => htext v).map

theorem Submission.fields_errors (form : Submission) :
    ErrorsIn (fun e => e.refusesForm = true) form.fields :=
  form.errorsIn_fields (fun _ => rfl) fun _ => rfl

namespace Session

variable {s : Session}

theorem noRefusal_resolve (token : Text) : NoRefusal (s.resolve token) := by
  intro e he
  obtain ⟨fault, -, rfl⟩ := resolve_eq_error_iff.1 he
  rfl

theorem noRefusal_datatype (token : Text) : NoRefusal (s.datatype token) := by
  unfold datatype
  split
  · exact .error rfl
  · refine (noRefusal_resolve token).bind fun r => ?_
    cases r with
    | iri t => exact .ok t
    | blank l => exact .error rfl

theorem noRefusal_term (value : Text) (d : Designator) : NoRefusal (s.term value d) := by
  cases d with
  | resource =>
    show NoRefusal (if value.isEmpty then .ok none else (s.resolve value).map fun r => some r.toTerm)
    split
    · exact .ok none
    · exact (noRefusal_resolve value).map
  | blank => exact .ok _
  | literal => exact .ok _
  | language tag =>
    simp only [term]
    split
    · exact .ok _
    · exact .error rfl
  | datatype token => exact (noRefusal_datatype token).map

theorem coerce_eq_term (h : s.replacement = none) (value : Text) (d : Designator) :
    s.coerce value d = s.term value d := by
  rw [coerce, h]
  rcases s.term value d with e | (_ | t)
  · rfl
  · rfl
  · rfl

theorem noRefusal_coerce (h : s.replacement = none) (value : Text) (d : Designator) :
    NoRefusal (s.coerce value d) := by
  rw [coerce_eq_term h]
  exact noRefusal_term value d

end Session

namespace Statement

variable {s : Session}

theorem noRefusal_ofTemplate (t : Template) : NoRefusal (ofTemplate s t) :=
  (s.noRefusal_resolve t.term1).bind fun _ =>
    (ErrorsIn.mapM_option fun token _ => s.noRefusal_resolve token).bind fun _ =>
      (ErrorsIn.mapM_option fun token _ => s.noRefusal_resolve token).bind fun _ => .ok _

theorem noRefusal_valueEdits (h : s.replacement = none) (st : Statement) (op : Operation)
    (d : Designator) (values : List Text) : NoRefusal (valueEdits s st op d values) :=
  (ErrorsIn.mapM fun v _ => s.noRefusal_coerce h v d).bind fun _ => .ok _

theorem noRefusal_edits (h : s.replacement = none) (st : Statement) (m : Modifiers) (d : Designator)
    (values : List Text) : NoRefusal (edits s st m d values) := by
  unfold edits
  dsimp only
  split
  · exact (noRefusal_valueEdits h st _ d values).map
  · split
    · exact .ok _
    · exact noRefusal_valueEdits h st _ d values

end Statement

theorem Template.noRefusal_edits {s : Session} (h : s.replacement = none) (t : Template)
    (m : Expansions) (raw : List Text) (supply : Supply) :
    NoRefusal (t.edits s m raw supply).1 := by
  unfold Template.edits
  dsimp only
  split
  · exact .ok []
  · have hst := Statement.noRefusal_ofTemplate (s := s) t
    rcases hr : Statement.ofTemplate s t with e | st
    · rw [hr] at hst; exact .error (hst e rfl)
    · exact Statement.noRefusal_edits h st _ _ _

namespace Candidate

variable {s : Session}

theorem noRefusal_templateEdits (h : s.replacement = none) (m : Expansions) (values : List Text)
    (ts : List Template) (supply : Supply) : NoRefusal (templateEdits s m values ts supply).1 := by
  induction ts generalizing supply with
  | nil => exact .ok []
  | cons t ts ih =>
    have ht := t.noRefusal_edits h m values supply
    unfold templateEdits
    rcases hr : t.edits s m values supply with ⟨_ | here, supply'⟩
    · rw [hr] at ht; exact ht
    · exact (ih supply').map

theorem noRefusal_edits (h : s.replacement = none) (m : Expansions) (cs : List Candidate)
    (supply : Supply) : NoRefusal (edits s m cs supply).1 := by
  induction cs generalizing supply with
  | nil => exact .ok []
  | cons c cs ih =>
    unfold edits
    rcases c.templates m supply with ⟨ts, supply₁⟩
    dsimp only
    have ht := noRefusal_templateEdits h m c.values ts supply₁
    rcases hr : templateEdits s m c.values ts supply₁ with ⟨_ | here, supply'⟩
    · rw [hr] at ht; exact ht
    · exact (ih supply').map

end Candidate

end FormEdits
