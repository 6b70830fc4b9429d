import FormEdits.Proofs.Edit.Errors
import FormEdits.Proofs.Form
import FormEdits.Proofs.Macros.Cycles
import FormEdits.Proofs.Macros.Solution

/-! # How submissions change the session

A submission that is refused leaves the session as it was. Any other one leaves the session that the
values of the three special macros make of it, whatever becomes of its statements
(`submit_session`). -/

namespace FormEdits

/-- The prefixes with those of lines, bound one after another. -/
def Prefixes.bind (p : Prefixes) (lines : List PrefixLine) : Prefixes :=
  lines.foldl (fun p l => p.insert l.name l.iri) p

namespace Session

/-- The last of the values names a resource in the session. -/
def NamesLast (s : Session) (values : List Text) (r : Resource) : Prop :=
  ∃ v, values.getLast? = some v ∧ v.trim ≠ [] ∧ s.resolve? v.trim = some r

/-- `s'` is `s` after the changes that the values of the special macros make. The graph is read with
the new subject; prefixes are bound last, and so no special value is read with them. -/
structure ChangedBy (values : Special → List Text) (s s' : Session) : Prop where
  subject : if values .subject = [] then s'.subject = s.subject
    else s.NamesLast (values .subject) s'.subject
  graph : if values .graph = [] then s'.graph = s.graph
    else ∃ g, s'.graph = some g ∧ { s with subject := s'.subject }.NamesLast (values .graph) g
  prefixes : ∃ lines, (values .prefixes).mapM PrefixLine.parse? = some lines ∧
    s'.prefixes = s.prefixes.bind lines
  replacement : s'.replacement = s.replacement

/-- The session after submissions one after another, and the supply that is left. -/
def submitAll (s : Session) : List Submission → Supply → Session × Supply
  | [], supply => (s, supply)
  | form :: forms, supply =>
    (s.submit form supply).session.submitAll forms (s.submit form supply).supply

end Session

namespace Special

variable {s s' : Session} {values : List Text}

/-! ### One special macro -/

/-- The session after a special macro, which changes nothing if it has no values. -/
def change (special : Special) (values : List Text) (s : Session) : Except SpecialFault Session :=
  if values = [] then .ok s else special.apply values s

theorem resource_eq_ok {v : Text} {r : Resource} :
    resource s v = .ok r ↔ v.trim ≠ [] ∧ s.resolve? v.trim = some r := by
  unfold resource
  dsimp only
  rcases hv : v.trim with _ | ⟨c, t⟩
  · simp
  · rw [Session.resolve?_eq_some_iff]
    cases s.locate (c :: t) with
    | error fault =>
      show Except.error _ = _ ↔ _
      simp
    | ok r' =>
      show Except.ok _ = _ ↔ _
      simp

theorem resource_getLast (h : values ≠ []) {r : Resource} :
    resource s (values.getLast?.getD []) = .ok r ↔ s.NamesLast values r := by
  have hl : values.getLast? = some (values.getLast h) := List.getLast?_eq_getLast_of_ne_nil h
  rw [resource_eq_ok, Session.NamesLast, hl]
  simp

theorem bind_resource (hv : values ≠ []) (f : Resource → Session) :
    (resource s (values.getLast?.getD []) >>= fun r => .ok (f r)) = .ok s' ↔
      ∃ r, s' = f r ∧ s.NamesLast values r := by
  simp only [← resource_getLast hv]
  rcases resource s (values.getLast?.getD []) with e | r
  · constructor
    · intro h; cases h
    · rintro ⟨r, -, h⟩; cases h
  · constructor
    · intro h; cases h; exact ⟨r, rfl, rfl⟩
    · rintro ⟨r', rfl, h⟩; cases h; rfl

theorem change_subject : change subject values s = .ok s' ↔
    ∃ r, s' = { s with subject := r } ∧
      if values = [] then r = s.subject else s.NamesLast values r := by
  unfold change
  split
  · constructor
    · intro h; cases h; exact ⟨s.subject, rfl, rfl⟩
    · rintro ⟨r, rfl, rfl⟩; rfl
  · rename_i hv
    exact bind_resource hv fun r => { s with subject := r }

theorem change_graph : change graph values s = .ok s' ↔
    ∃ g, s' = { s with graph := g } ∧
      if values = [] then g = s.graph else ∃ r, g = some r ∧ s.NamesLast values r := by
  unfold change
  split
  · constructor
    · intro h; cases h; exact ⟨s.graph, rfl, rfl⟩
    · rintro ⟨g, rfl, rfl⟩; rfl
  · rename_i hv
    refine (bind_resource hv fun r => { s with graph := some r }).trans ⟨?_, ?_⟩
    · rintro ⟨r, rfl, hr⟩; exact ⟨some r, rfl, r, rfl, hr⟩
    · rintro ⟨_, rfl, r, rfl, hr⟩; exact ⟨r, rfl, hr⟩

theorem foldlM_bindPrefix : values.foldlM bindPrefix s = .ok s' ↔
    ∃ lines, values.mapM PrefixLine.parse? = some lines ∧
      s' = { s with prefixes := s.prefixes.bind lines } := by
  induction values generalizing s with
  | nil =>
    constructor
    · intro h; cases h; exact ⟨[], rfl, rfl⟩
    · rintro ⟨lines, h, rfl⟩; cases h; rfl
  | cons v vs ih =>
    rw [List.foldlM_cons, List.mapM_cons, bindPrefix]
    rcases PrefixLine.parse? v with _ | l
    · constructor
      · intro h; cases h
      · rintro ⟨lines, h, -⟩; cases h
    · refine ih.trans ?_
      rcases vs.mapM PrefixLine.parse? with _ | ls
      · constructor
        · rintro ⟨lines, h, -⟩; cases h
        · rintro ⟨lines, h, -⟩; cases h
      · constructor
        · rintro ⟨lines, h, rfl⟩; cases h; exact ⟨l :: ls, rfl, rfl⟩
        · rintro ⟨lines, h, rfl⟩; cases h; exact ⟨ls, rfl, rfl⟩

theorem change_prefixes : change prefixes values s = .ok s' ↔
    ∃ lines, values.mapM PrefixLine.parse? = some lines ∧
      s' = { s with prefixes := s.prefixes.bind lines } := by
  unfold change
  split
  · rename_i hv
    subst hv
    exact @foldlM_bindPrefix s s' []
  · exact foldlM_bindPrefix

theorem ofName?_name (special : Special) : Generator.ofName? special.name = none := by
  cases special <;> decide

end Special

namespace Session

variable {s s' : Session} {m : Expansions} {values : Special → List Text}

/-! ### All special macros -/

theorem applySpecials_cons (sp : Special)
    (h : (m.find? sp.name).getD [] = (values sp).map .text) (rest : List Special) (supply : Supply) :
    s.applySpecials m (sp :: rest) supply =
      match sp.change (values sp) s with
      | .ok s' => s'.applySpecials m rest supply
      | .error fault => (.error (.special sp.name fault), supply) := by
  rw [applySpecials, h, Special.change]
  rcases values sp with _ | ⟨v, vs⟩
  · rfl
  · have hr := Macros.renderAll_text (v :: vs) supply
    rw [List.map_cons] at hr ⊢
    rw [if_neg (List.cons_ne_nil v vs)]
    rcases hs : sp.apply (v :: vs) s with e | s'
    · simp only [hr, hs]
    · simp only [hr, hs]

/-- The special macros either change the session as their values say, or one of them cannot. -/
theorem applySpecials_cases (h : ∀ sp : Special, (m.find? sp.name).getD [] = (values sp).map .text)
    (supply : Supply) :
    (∃ s', s.applySpecials m Special.all supply = (.ok s', supply) ∧
      ∀ s'', s.ChangedBy values s'' ↔ s'' = s') ∨
    ∃ sp fault, s.applySpecials m Special.all supply = (.error (.special sp fault), supply) := by
  rw [Special.all, applySpecials_cons _ (h _)]
  rcases h₁ : Special.subject.change (values .subject) s with e | s₁
  · exact .inr ⟨_, e, rfl⟩
  dsimp only
  rw [applySpecials_cons _ (h _)]
  rcases h₂ : Special.graph.change (values .graph) s₁ with e | s₂
  · exact .inr ⟨_, e, rfl⟩
  dsimp only
  rw [applySpecials_cons _ (h _)]
  rcases h₃ : Special.prefixes.change (values .prefixes) s₂ with e | s₃
  · exact .inr ⟨_, e, rfl⟩
  refine .inl ⟨s₃, rfl, fun s'' => ?_⟩
  constructor
  · rintro ⟨hs, hg, ⟨lines, hl, hp⟩, hr⟩
    have hs' := h₁.symm.trans (Special.change_subject.2 ⟨s''.subject, rfl, hs⟩)
    cases hs'
    have hg' := h₂.symm.trans (Special.change_graph.2 ⟨s''.graph, rfl, hg⟩)
    cases hg'
    have hp' := h₃.symm.trans (Special.change_prefixes.2 ⟨lines, hl, rfl⟩)
    cases hp'
    obtain ⟨subject, graph, prefixes, replacement⟩ := s''
    cases hp; cases hr
    rfl
  · rintro rfl
    obtain ⟨r, rfl, hr⟩ := Special.change_subject.1 h₁
    obtain ⟨g, rfl, hg⟩ := Special.change_graph.1 h₂
    obtain ⟨lines, hl, rfl⟩ := Special.change_prefixes.1 h₃
    exact ⟨hr, hg, ⟨lines, hl, rfl⟩, rfl⟩

theorem changedBy_refl (h : ∀ sp, values sp = []) : s.ChangedBy values s where
  subject := by rw [if_pos (h .subject)]
  graph := by rw [if_pos (h .graph)]
  prefixes := ⟨[], by rw [h .prefixes]; rfl, rfl⟩
  replacement := rfl

/-! ### Submissions -/

theorem resolve_refuses (ds : List (Text × List Text × Bool)) (supply : Supply) :
    ErrorsIn (fun e => e.refusesForm = true) (Macros.resolve (.ofDeclarations ds) supply).1 := by
  intro e he
  rcases Macros.resolve_error (MacroTable.wellFormed_ofDeclarations ds) he with
    ⟨n, rfl, -⟩ | ⟨ns, rfl, -⟩
  · rfl
  · rfl

theorem session_submitSorted_congr {sorted sorted' : Sorted} (h : sorted'.table = sorted.table)
    (supply : Supply) :
    (s.submitSorted sorted' supply).session = (s.submitSorted sorted supply).session := by
  unfold submitSorted
  rw [h]
  rcases Macros.resolve sorted.table supply with ⟨_ | m, supply₁⟩
  · rfl
  · dsimp only
    rcases s.applySpecials m Special.all supply₁ with ⟨_ | s', supply₂⟩
    · rfl
    · rfl

theorem submit_of_fields {form : Submission} {fields : List Field} (h : form.fields = .ok fields)
    (supply : Supply) : s.submit form supply = s.submitSorted (Sorted.ofFields fields) supply := by
  rw [submit, h]

/-- A submission is refused, and the session stays; or the special macros change the session, and no
error of a statement refuses the form. -/
theorem submit_cases (h : s.replacement = none) (form : Submission) (supply : Supply) :
    ((s.submit form supply).isRefused = true ∧ (s.submit form supply).session = s) ∨
    (s.submit form supply).isRefused = false ∧ ∃ fields m supply', form.fields = .ok fields ∧
      Macros.resolve (.ofDeclarations (declarations fields)) supply = (.ok m, supply') ∧
      (∀ sp : Special, (m.find? sp.name).getD [] = (m.texts sp.name).map .text) ∧
      ∀ s', s.ChangedBy (fun sp => m.texts sp.name) s' ↔ s' = (s.submit form supply).session := by
  rcases hf : form.fields with e | fields
  · have ho : s.submit form supply = ⟨s, .error e, supply⟩ := by rw [submit, hf]
    rw [ho]
    exact .inl ⟨form.fields_errors e hf, rfl⟩
  rw [submit_of_fields hf, submitSorted, Sorted.table_ofFields]
  have ht := MacroTable.wellFormed_ofDeclarations (declarations fields)
  have herr := resolve_refuses (declarations fields) supply
  rcases hm : Macros.resolve (.ofDeclarations (declarations fields)) supply with ⟨e | m, supply'⟩
  · exact .inl ⟨herr e (by rw [hm]), rfl⟩
  obtain ⟨hs, hk⟩ := Macros.settled_of_resolve ht (s := supply) (m := m) (by rw [hm])
  have hv : ∀ sp : Special, (m.find? sp.name).getD [] = (m.texts sp.name).map .text :=
    fun sp => hs.values_eq_texts ht (hk.symm.nodup ht.nodup) sp.ofName?_name
  dsimp only
  rcases s.applySpecials_cases hv supply' with ⟨s', ha, hc⟩ | ⟨sp, fault, ha⟩
  · have hr : s'.replacement = none := ((hc s').2 rfl).replacement.trans h
    have hedits := Candidate.noRefusal_edits hr m (Sorted.ofFields fields).candidates supply'
    rw [ha]
    exact .inr ⟨Outcome.isRefused_eq_false hedits.map, fields, m, supply', rfl, hm, hv, hc⟩
  · rw [ha]
    exact .inl ⟨rfl, rfl⟩

/-- What holds of a session and is kept by every submission holds after any submissions. -/
theorem submitAll_induction {P : Session → Prop} (h : P s)
    (hstep : ∀ (s : Session) (form : Submission) (supply : Supply), P s →
      P (s.submit form supply).session) (forms : List Submission) (supply : Supply) :
    P (s.submitAll forms supply).1 := by
  induction forms generalizing s supply with
  | nil => exact h
  | cons form forms ih => exact ih (hstep s form supply h) _

theorem replacement_submit (h : s.replacement = none) (form : Submission) (supply : Supply) :
    (s.submit form supply).session.replacement = none := by
  rcases submit_cases h form supply with ⟨-, hs⟩ | ⟨-, fields, m, supply', -, -, -, hc⟩
  · rw [hs]; exact h
  · exact ((hc _).2 rfl).replacement.trans h

theorem replacement_submitAll (h : s.replacement = none) (forms : List Submission)
    (supply : Supply) : (s.submitAll forms supply).1.replacement = none :=
  submitAll_induction (P := fun s => s.replacement = none) h
    (fun _ form supply h => replacement_submit h form supply) forms supply

/-- After any submissions, a further one that is refused leaves the session as it was. Any other one
leaves the one session that the special values make of it, also when a statement fails; so the
session depends on the declarations alone, and stays if they give the special macros no value. -/
theorem submit_session (s₀ : Session) (forms : List Submission) (supply₀ : Supply) (s : Session)
    (supply : Supply) (form : Submission) (h₀ : s₀.replacement = none)
    (hs : s₀.submitAll forms supply₀ = (s, supply)) :
    ((s.submit form supply).isRefused = true → (s.submit form supply).session = s) ∧
    ((s.submit form supply).isRefused = false →
      ∃ fields m supply', form.fields = .ok fields ∧
        Macros.resolve (.ofDeclarations (declarations fields)) supply = (.ok m, supply') ∧
        (∀ sp : Special, (m.find? sp.name).getD [] = (m.texts sp.name).map .text) ∧
        ∀ s', s.ChangedBy (fun sp => m.texts sp.name) s' ↔ s' = (s.submit form supply).session) ∧
    (∀ form' fields fields', form.fields = .ok fields → form'.fields = .ok fields' →
      declarations fields' = declarations fields →
      (s.submit form' supply).session = (s.submit form supply).session) ∧
    ((∀ fields, form.fields = .ok fields →
        ∀ d ∈ declarations fields, ∀ sp : Special, d.1 = sp.name → d.2.1 = []) →
      (s.submit form supply).session = s) := by
  have h : s.replacement = none := by
    have := replacement_submitAll h₀ forms supply₀
    rwa [hs] at this
  have hcases := submit_cases h form supply
  refine ⟨fun hr => ?_, fun hr => ?_, fun form' fields fields' hf hf' hd => ?_, fun hd => ?_⟩
  · rcases hcases with ⟨-, hs⟩ | ⟨hn, -⟩
    · exact hs
    · rw [hn] at hr; cases hr
  · rcases hcases with ⟨hn, -⟩ | ⟨-, hc⟩
    · rw [hn] at hr; cases hr
    · exact hc
  · rw [submit_of_fields hf, submit_of_fields hf']
    refine session_submitSorted_congr ?_ supply
    rw [Sorted.table_ofFields, Sorted.table_ofFields, hd]
  · rcases hcases with ⟨-, hs⟩ | ⟨-, fields, m, supply', hf, hm, -, hc⟩
    · exact hs
    · have hnil : ∀ sp : Special, m.texts sp.name = [] := fun sp =>
        Macros.texts_eq_nil (s := supply) (by rw [hm]) sp.ofName?_name
          fun d hmem hn => hd fields hf d hmem sp hn
      exact ((hc s).1 (changedBy_refl hnil)).symm

/-- A form that changes the subject and then fails in a statement. -/
def failingStatement : Submission :=
  .ofFields [("p:q ^_:x", ["v"]), ("$ SUBJECT", ["_:a", "_:b"])]

/-- A form that is refused after the subject and a prefix were changed. -/
def refusedPrefix : Submission :=
  .ofFields [("$ SUBJECT", ["_:c"]), ("$ PREFIX", ["ex: urn:ex:", "no prefix"])]

theorem submit_session_refusedPrefix :
    ∃ (s₀ : Session) (supply₀ : Supply) (s : Session) (supply : Supply), s₀.replacement = none ∧
      s₀.submitAll [failingStatement] supply₀ = (s, supply) ∧
      (s₀.submit failingStatement supply₀).edits.toBool = false ∧ s.subject = .blank "b" ∧
      (s.submit refusedPrefix supply).isRefused = true ∧
      (s.submit refusedPrefix supply).session = s := by
  let s₀ : Session := ⟨.iri "urn:a", none, Prefixes.default, none⟩
  let after := s₀.submitAll [failingStatement] (.fresh id id)
  have hr : (after.1.submit refusedPrefix after.2).isRefused = true := by decide +kernel
  refine ⟨s₀, .fresh id id, after.1, after.2, rfl, rfl, by decide +kernel, by decide +kernel, hr, ?_⟩
  exact (submit_session s₀ [failingStatement] _ _ _ refusedPrefix rfl rfl).1 hr

end Session

end FormEdits
