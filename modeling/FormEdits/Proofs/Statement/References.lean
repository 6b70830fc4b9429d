import FormEdits.Command.Run
import FormEdits.Proofs.Statement.Terms
import FormEdits.Proofs.Uri.Faults

/-! # References that no error message speaks of

Each way in which a form can fail is shown to the user as a fault of the form, except one. A token
that is a reference is resolved without a check of its authority: the special macros report a
malformed one, but in a statement it ends the run. A form fails so exactly if one of its readings has
such a reference, and the readings before it are free of errors; the error is the fault of the first
of these references (`Session.submit_reported`). -/

namespace FormEdits

/-- A computation whose errors are all shown to the user. -/
abbrev Reports {α : Type} (x : Except Error α) : Prop := ErrorsIn (fun e => e.isReported = true) x

/-! ### Tokens -/

namespace Session

variable {s : Session} {token : Text}

/-- The token is a reference that cannot be resolved against the subject. -/
def IsMalformed (s : Session) (token : Text) : Prop :=
  blankLabel? token = none ∧ s.prefixed? token = none ∧ Uri.IsMalformed s.base token

instance (s : Session) (token : Text) : Decidable (s.IsMalformed token) :=
  inferInstanceAs (Decidable (_ ∧ _ ∧ _))

/-- The fault for which a token is not resolved. -/
def fault? (s : Session) (token : Text) : Option Uri.Fault :=
  if (blankLabel? token).isSome || (s.prefixed? token).isSome then none
  else Uri.fault? s.base token

theorem locate_eq_error_iff {fault : Uri.Fault} :
    s.locate token = .error fault ↔ s.fault? token = some fault := by
  rw [locate, fault?]
  rcases blankLabel? token with _ | label
  · rcases s.prefixed? token with _ | t
    · show (s.absolute token).map Resource.iri = .error fault ↔ _
      rw [map_eq_error_iff, absolute, Uri.join_eq_error_iff]
      rfl
    · simp
  · simp

theorem isMalformed_iff : s.IsMalformed token ↔ ∃ fault, s.fault? token = some fault := by
  rw [IsMalformed, Uri.isMalformed_iff, fault?]
  rcases blankLabel? token with _ | label
  · rcases s.prefixed? token with _ | t
    · simp
    · simp
  · simp

theorem resolve?_eq_none_iff : s.resolve? token = none ↔ s.IsMalformed token := by
  rw [isMalformed_iff, resolve?]
  simp only [← locate_eq_error_iff]
  cases s.locate token with
  | error fault => simp [Except.toOption]
  | ok r => simp [Except.toOption]

theorem succeeds_resolve_iff : Succeeds (s.resolve token) ↔ ¬ s.IsMalformed token := by
  rw [← resolve?_eq_none_iff, ← ne_eq, Option.ne_none_iff_isSome]
  constructor
  · intro h
    obtain ⟨u, hu⟩ := h.exists_ok
    rw [resolve_eq_ok_iff.1 hu]
    rfl
  · exact succeeds_resolve

theorem resolve_of_fault? {fault : Uri.Fault} (h : s.fault? token = some fault) :
    s.resolve token = .error (.value (.malformedAuthority fault)) :=
  resolve_eq_error_iff.2 ⟨fault, locate_eq_error_iff.2 h, rfl⟩

theorem ne_nil_of_resolve {e : Error} (h : s.resolve token = .error e) : token ≠ [] := by
  obtain ⟨fault, hfault, -⟩ := resolve_eq_error_iff.1 h
  obtain ⟨-, -, -, hne, -⟩ := isMalformed_iff.2 ⟨fault, locate_eq_error_iff.1 hfault⟩
  exact hne

theorem datatype_of_resolve {e : Error} (h : s.resolve token = .error e) :
    s.datatype token = .error e := by
  have hne : token.isEmpty = false := by simpa using ne_nil_of_resolve h
  rw [datatype, hne, h]
  rfl

theorem term_resource_eq_error_iff {e : Error} :
    s.term token .resource = .error e ↔ s.resolve token = .error e := by
  rw [term]
  split
  · rename_i hempty
    simp only [reduceCtorEq, false_iff]
    intro h
    exact ne_nil_of_resolve h (List.isEmpty_iff.1 hempty)
  · rw [map_eq_error_iff]

end Session

/-! ### Readings -/

namespace Statement

variable {s : Session} {t : Template} {e : Error}

/-- A statement fails at the first of its terms that is not resolved. -/
theorem ofTemplate_eq_error_iff :
    ofTemplate s t = .error e ↔ t.terms.mapM s.resolve = .error e := by
  rw [ofTemplate, Template.terms, List.mapM_cons, List.mapM_append]
  rcases s.resolve t.term1 with e' | r
  · simp [bind, Except.bind]
  rcases t.term2 with _ | second
  · rcases t.graph with _ | graph
    · simp [bind, Except.bind, pure, Except.pure]
    · rcases hg : s.resolve graph <;> simp [bind, Except.bind, pure, Except.pure, hg]
  · rcases h2 : s.resolve second with e' | r'
    · simp [bind, Except.bind, h2]
    · rcases t.graph with _ | graph
      · simp [bind, Except.bind, pure, Except.pure, h2]
      · rcases hg : s.resolve graph <;> simp [bind, Except.bind, pure, Except.pure, h2, hg]

end Statement

namespace Reading

variable {s : Session} {r : Reading} {e : Error}

/-- The references among the values, or the datatype of each value. -/
def valueReferences (r : Reading) : List Text :=
  let values := Statement.used r.template.modifiers r.values
  match r.template.effectiveDesignator with
  | .resource => values
  | .datatype token => values.map fun _ => token
  | _ => []

theorem references_eq (hd : r.template.isDropped = false) :
    r.references = r.template.terms ++ r.valueReferences := by
  rw [references, if_neg (by rw [hd]; exact Bool.false_ne_true), ← List.cons_append]
  rfl

theorem resolves_iff : r.Resolves s ↔ ∀ token ∈ r.references, ¬ s.IsMalformed token := by
  simp only [Resolves, ← Session.resolve?_eq_none_iff, ← Option.ne_none_iff_isSome, ne_eq]

theorem resolves_iff_succeeds : r.Resolves s ↔ Succeeds (r.references.mapM s.resolve) := by
  constructor
  · exact fun h => .mapM fun token ht => Session.succeeds_resolve (h token ht)
  · intro h token ht
    obtain ⟨us, hus⟩ := h.exists_ok
    obtain ⟨u, -, hu⟩ := exists_ok_of_mapM hus ht
    rw [Session.resolve_eq_ok_iff.1 hu]
    rfl

theorem values_eq_error_iff (hn : s.replacement = none)
    (h : ¬ Succeeds (r.valueReferences.mapM s.resolve)) :
    (Statement.used r.template.modifiers r.values).mapM
      (fun v => s.coerce v r.template.effectiveDesignator) = .error e ↔
      r.valueReferences.mapM s.resolve = .error e := by
  rw [valueReferences] at h ⊢
  rcases hd : r.template.effectiveDesignator with _ | _ | _ | tag | token
  · refine mapM_eq_error_congr fun v _ e' => ?_
    rw [Session.coerce_eq_term hn, Session.term_resource_eq_error_iff]
  · rw [hd] at h
    exact (h (.ok [])).elim
  · rw [hd] at h
    exact (h (.ok [])).elim
  · rw [hd] at h
    exact (h (.ok [])).elim
  · rw [hd] at h
    simp only [List.mapM_map] at h ⊢
    rcases hr : s.resolve token with e' | u
    · refine mapM_eq_error_congr fun v _ e'' => ?_
      rw [Session.coerce_eq_term hn, Session.term, map_eq_error_iff,
        Session.datatype_of_resolve hr, Function.comp_apply, hr, Except.error.injEq,
        Except.error.injEq]
    · exact (h (.mapM fun v _ => .of_eq_ok hr)).elim

/-- A reading whose references are not all resolved fails as the first of them does, since all that
comes before the last of them is the reading of tokens. -/
theorem edits_eq_error_iff_of_not_resolves (hn : s.replacement = none) (h : ¬ r.Resolves s) :
    r.edits s = .error e ↔ r.references.mapM s.resolve = .error e := by
  rw [resolves_iff_succeeds] at h
  rcases hd : r.template.isDropped with _ | _
  · rw [references_eq hd] at h ⊢
    rw [edits, hd, mapM_append_eq_error_iff, ← Statement.ofTemplate_eq_error_iff]
    rcases hst : Statement.ofTemplate s r.template with e' | st
    · have hterms : ¬ Succeeds (r.template.terms.mapM s.resolve) :=
        fun hok => hok e' (Statement.ofTemplate_eq_error_iff.1 hst)
      simp [bind, Except.bind, hterms]
    · have hterms : Succeeds (r.template.terms.mapM s.resolve) := by
        intro e' he
        rw [Statement.ofTemplate_eq_error_iff.2 he] at hst
        cases hst
      have hvalues : ¬ Succeeds (r.valueReferences.mapM s.resolve) := by
        intro hok
        refine h fun e' he => ?_
        rcases mapM_append_eq_error_iff.1 he with he | ⟨-, he⟩
        · exact hterms e' he
        · exact hok e' he
      show Statement.edits s st r.template.modifiers r.template.effectiveDesignator r.values = _ ↔ _
      rw [Statement.edits_eq_error_iff, values_eq_error_iff hn hvalues]
      simp [hterms]
  · rw [references, hd] at h
    exact (h (.ok [])).elim

/-- A reading fails for a reference or for a blank datatype, and not for both. -/
theorem edits_eq_error_iff (hr : r.template.IsRenderable) (hn : s.replacement = none) :
    r.edits s = .error e ↔ r.references.mapM s.resolve = .error e ∨
      r.Resolves s ∧ ∃ token, r.TypedByBlank token ∧ e = .datatype (.notIri token) := by
  by_cases hs : r.Resolves s
  · have hok : r.references.mapM s.resolve ≠ .error e := resolves_iff_succeeds.1 hs e
    by_cases hb : ∃ token, r.TypedByBlank token
    · obtain ⟨token, hb⟩ := hb
      have hunique : ∀ token', r.TypedByBlank token' → token' = token := by
        intro token' hb'
        have hd := hb'.designator.symm.trans hb.designator
        simpa using hd
      rw [hb.edits hs]
      constructor
      · intro h
        exact .inr ⟨hs, token, hb, (Except.error.inj h).symm⟩
      · rintro (hno | ⟨-, token', hb', rfl⟩)
        · exact (hok hno).elim
        · rw [hunique token' hb']
    · constructor
      · intro h
        exact (succeeds_edits hr hn hs (not_exists.1 hb) e h).elim
      · rintro (hno | ⟨-, token, hb', -⟩)
        · exact (hok hno).elim
        · exact (hb ⟨token, hb'⟩).elim
  · rw [edits_eq_error_iff_of_not_resolves hn hs]
    simp [hs]

theorem succeeds_edits_iff (hr : r.template.IsRenderable) (hn : s.replacement = none) :
    Succeeds (r.edits s) ↔ r.Resolves s ∧ ∀ token, ¬ r.TypedByBlank token := by
  constructor
  · intro h
    have hs : r.Resolves s :=
      resolves_iff_succeeds.2 fun e he => h e ((edits_eq_error_iff hr hn).2 (.inl he))
    exact ⟨hs, fun token hb => h _ (hb.edits hs)⟩
  · rintro ⟨hs, hb⟩
    exact succeeds_edits hr hn hs hb

/-- The first of the references that are not resolved has the fault. -/
def HasFault (s : Session) (r : Reading) (fault : Uri.Fault) : Prop :=
  ∃ before token after, r.references = before ++ token :: after ∧
    (∀ token' ∈ before, ¬ s.IsMalformed token') ∧ s.fault? token = some fault

theorem mapM_resolve_eq_error_iff {fault : Uri.Fault} :
    r.references.mapM s.resolve = .error (.value (.malformedAuthority fault)) ↔
      r.HasFault s fault := by
  simp only [mapM_eq_error_iff, HasFault, Session.succeeds_resolve_iff, Session.resolve_eq_error_iff,
    ← Session.locate_eq_error_iff, Error.value.injEq, ValueFault.malformedAuthority.injEq,
    exists_eq_right']

theorem exists_of_mapM_resolve (h : r.references.mapM s.resolve = .error e) :
    ∃ fault, e = .value (.malformedAuthority fault) := by
  obtain ⟨-, token, -, -, -, he⟩ := mapM_eq_error_iff.1 h
  obtain ⟨fault, -, rfl⟩ := Session.resolve_eq_error_iff.1 he
  exact ⟨fault, rfl⟩

theorem HasFault.isMalformed {fault : Uri.Fault} (h : r.HasFault s fault) :
    ∃ token ∈ r.references, s.IsMalformed token := by
  obtain ⟨before, token, after, hsplit, -, hfault⟩ := h
  exact ⟨token, by simp [hsplit], Session.isMalformed_iff.2 ⟨fault, hfault⟩⟩

theorem allEdits_eq_error_iff {rs : List Reading} : allEdits s rs = .error e ↔
    ∃ before r after, rs = before ++ r :: after ∧ (∀ r' ∈ before, Succeeds (r'.edits s)) ∧
      r.edits s = .error e := by
  rw [allEdits, map_eq_error_iff, mapM_eq_error_iff]

end Reading

/-! ### Forms -/

theorem Macros.reports_resolve (ds : List (Text × List Text × Bool)) (supply : Supply) :
    Reports (resolve (.ofDeclarations ds) supply).1 := by
  intro e he
  rcases resolve_error (MacroTable.wellFormed_ofDeclarations ds) he with ⟨n, rfl, -⟩ | ⟨ns, rfl, -⟩
  · rfl
  · rfl

namespace Session

variable {s : Session} {form : Submission} {supply : Supply}

theorem reports_applySpecials (m : Expansions) (sps : List Special) (s : Session)
    (supply : Supply) : Reports (s.applySpecials m sps supply).1 := by
  induction sps generalizing s supply with
  | nil => exact .ok s
  | cons sp sps ih =>
    rw [applySpecials]
    split
    · exact ih s supply
    · dsimp only
      split
      · exact ih _ _
      · exact .error rfl

/-- What is wrong before the first statement is reported, and the statements fail at the first
reading that does. -/
theorem submit_eq_error {e : Error} {fields : List Field} (hf : form.fields = .ok fields)
    (h : (s.submit form supply).edits = .error e) : e.isReported ∨
      Reading.allEdits (s.submit form supply).session (s.readings form supply) = .error e := by
  have hmacros := Macros.reports_resolve (declarations fields) supply
  rw [← Sorted.table_ofFields] at hmacros
  rcases hm : Macros.resolve (Sorted.ofFields fields).table supply with ⟨e' | m, supply₁⟩
  · rw [submit_of_fields hf, submitSorted, hm] at h
    cases h
    exact .inl (hmacros e (by rw [hm]))
  have hspecials := reports_applySpecials m Special.all s supply₁
  rcases hs : s.applySpecials m Special.all supply₁ with ⟨e' | s', supply₂⟩
  · rw [submit_of_fields hf, submitSorted, hm] at h
    simp only [hs] at h
    cases h
    exact .inl (hspecials e (by rw [hs]))
  · obtain ⟨-, hsession, hedits⟩ := submit_of_applySpecials hf hm hs
    rw [hedits, map_eq_error_iff] at h
    rw [hsession]
    exact .inr h

theorem submit_of_allEdits {e : Error}
    (h : Reading.allEdits (s.submit form supply).session (s.readings form supply) = .error e) :
    (s.submit form supply).edits = .error e := by
  rcases s.submit_stages form supply with ⟨-, -, hnil⟩ | ⟨fields, m, supply₁, s', supply₂, hf, hm, hs⟩
  · rw [hnil] at h
    cases h
  · obtain ⟨-, hsession, hedits⟩ := submit_of_applySpecials hf hm hs
    rw [hedits, map_eq_error_iff, ← hsession]
    exact h

theorem submit_eq_malformed_iff {fields : List Field} (fault : Uri.Fault)
    (hn : s.replacement = none) (hf : form.fields = .ok fields) (supply : Supply) :
    (s.submit form supply).edits = .error (.value (.malformedAuthority fault)) ↔
      ∃ before r after, s.readings form supply = before ++ r :: after ∧
        (∀ r' ∈ before, (∀ token ∈ r'.references,
          ¬ (s.submit form supply).session.IsMalformed token) ∧ ∀ token, ¬ r'.TypedByBlank token) ∧
        r.HasFault (s.submit form supply).session fault := by
  have hn' := replacement_submit hn form supply
  have hrender : ∀ r ∈ s.readings form supply, r.template.IsRenderable :=
    fun r hr => isRenderable_of_mem_readings hr
  have hfails : ∀ r : Reading, r.template.IsRenderable →
      (r.edits (s.submit form supply).session = .error (.value (.malformedAuthority fault)) ↔
        r.HasFault (s.submit form supply).session fault) := by
    intro r hr
    rw [Reading.edits_eq_error_iff hr hn', Reading.mapM_resolve_eq_error_iff]
    simp
  have hsucceeds : ∀ r : Reading, r.template.IsRenderable →
      (Succeeds (r.edits (s.submit form supply).session) ↔
        (∀ token ∈ r.references, ¬ (s.submit form supply).session.IsMalformed token) ∧
          ∀ token, ¬ r.TypedByBlank token) := by
    intro r hr
    rw [Reading.succeeds_edits_iff hr hn', Reading.resolves_iff]
  constructor
  · intro h
    obtain ⟨before, r, after, hsplit, hbefore, hr⟩ := Reading.allEdits_eq_error_iff.1
      ((submit_eq_error hf h).resolve_left Bool.false_ne_true)
    rw [hsplit] at hrender
    refine ⟨before, r, after, hsplit, fun r' hr' => ?_, ?_⟩
    · exact (hsucceeds r' (hrender r' (List.mem_append_left _ hr'))).1 (hbefore r' hr')
    · exact (hfails r (hrender r (by simp))).1 hr
  · rintro ⟨before, r, after, hsplit, hbefore, hr⟩
    rw [hsplit] at hrender
    refine submit_of_allEdits (Reading.allEdits_eq_error_iff.2
      ⟨before, r, after, hsplit, fun r' hr' => ?_, ?_⟩)
    · exact (hsucceeds r' (hrender r' (List.mem_append_left _ hr'))).2 (hbefore r' hr')
    · exact (hfails r (hrender r (by simp))).2 hr

end Session

theorem Command.perform_of_submit {a : Arguments} {w : Surroundings} {s : Session}
    {form : Submission} {supply : Supply} {e : Error} (hs : session a w = .ok s)
    (hf : Command.form a w = .ok form) (h : (s.submit form supply).edits = .error e) :
    perform a w supply = ending e := by
  have hedits : edits a w supply = .error e := by
    rw [edits, hs, hf]
    exact h
  rw [perform, hedits]

namespace Session

/-- The errors of a form are all reported, but for that of a malformed authority: this one is the
error of the first reading that fails, if it fails for a reference, and it has the fault of the first
such reference. There is none where no reference and not the subject has a bracket or hides a
delimiter. The command ends with a message in all cases but this one. -/
theorem submit_reported (s : Session) (form : Submission) (fields : List Field) (supply : Supply)
    (hn : s.replacement = none) (hf : form.fields = .ok fields) :
    (∀ e, (s.submit form supply).edits = .error e →
      e.isReported ∨ ∃ fault, e = .value (.malformedAuthority fault)) ∧
    (∀ fault, (s.submit form supply).edits = .error (.value (.malformedAuthority fault)) ↔
      ∃ before r after, s.readings form supply = before ++ r :: after ∧
        (∀ r' ∈ before, (∀ token ∈ r'.references,
          ¬ (s.submit form supply).session.IsMalformed token) ∧ ∀ token, ¬ r'.TypedByBlank token) ∧
        r.HasFault (s.submit form supply).session fault) ∧
    (Uri.IsHarmless (s.submit form supply).session.base →
      (∀ r ∈ s.readings form supply, ∀ token ∈ r.references, Uri.IsHarmless token) →
      Reports (s.submit form supply).edits) ∧
    ∀ a w e, Command.session a w = .ok s → Command.form a w = .ok form →
      (s.submit form supply).edits = .error e →
      (e.isReported → Command.perform a w supply = .exit 1 [] ("Error: " ++ e.message ++ "\n")) ∧
        ∀ fault, e = .value (.malformedAuthority fault) →
          Command.perform a w supply = .failure e := by
  have hmalformed := fun fault => submit_eq_malformed_iff fault hn hf supply
  have hcases : ∀ e, (s.submit form supply).edits = .error e →
      e.isReported ∨ ∃ fault, e = .value (.malformedAuthority fault) := by
    intro e he
    rcases submit_eq_error hf he with hr | he
    · exact .inl hr
    obtain ⟨before, r, after, hsplit, -, hr⟩ := Reading.allEdits_eq_error_iff.1 he
    have hmem : r ∈ s.readings form supply := by simp [hsplit]
    have hrender := isRenderable_of_mem_readings hmem
    rcases (Reading.edits_eq_error_iff hrender (replacement_submit hn form supply)).1 hr with
      hreference | ⟨-, token, -, rfl⟩
    · exact .inr (Reading.exists_of_mapM_resolve hreference)
    · exact .inl rfl
  refine ⟨hcases, hmalformed, fun hbase hread e he => ?_, fun a w e hs hform he => ?_⟩
  · refine (hcases e he).resolve_right ?_
    rintro ⟨fault, rfl⟩
    obtain ⟨before, r, after, hsplit, -, hfault⟩ := (hmalformed fault).1 he
    obtain ⟨token, hmem, -, -, hbad⟩ := hfault.isMalformed
    exact Uri.not_isMalformed hbase (hread r (by simp [hsplit]) token hmem) hbad
  · rw [Command.perform_of_submit hs hform he, Command.ending]
    constructor
    · intro hr
      rw [if_pos hr]
    · rintro fault rfl
      rfl

/-- A macro gives a value whose host is no address, between references with a proper one or none, a
later one that hides a delimiter, and a blank datatype. -/
def hosts : List Field :=
  [("p:a :", ["http://[::1]/x", "a[b"]), ("$ v", ["http://[x]/"]),
    ("p:c : $", ["c", "$v", "http://\u2100/"]), ("p:d ^_:u", ["w"])]

theorem submit_reported_hosts : ∃ (a : Arguments) (w : Surroundings) (supply : Supply),
    a.form = some (Encoded.write hosts) ∧
      Command.perform a w supply = .failure (.value (.malformedAuthority (.notAddress "x"))) := by
  let s : Session := ⟨.iri "http://a.example/", none, Prefixes.default, none⟩
  let fields := Encoded.read (Encoded.write hosts)
  let a : Arguments := { Arguments.default with
    subject := some "http://a.example/", form := some (Encoded.write hosts) }
  let w : Surroundings := ⟨fun p => .error (.missing p), ⟨none, none, none⟩, []⟩
  have hs : Command.session a w = .ok s := rfl
  have hform : Command.form a w = .ok (.ofFields fields) := rfl
  obtain ⟨-, hmalformed, -, hcommand⟩ := submit_reported s (.ofFields fields) fields (.fresh id id)
    rfl (Submission.fields_ofFields fields)
  have hfails : (s.submit (.ofFields fields) (.fresh id id)).edits =
      .error (.value (.malformedAuthority (.notAddress "x"))) := by
    let statement (p : Text) (d : Designator) (expands : Bool) : Template :=
      ⟨.empty, p, none, some d, none, expands⟩
    let first : Reading := ⟨statement "p:a" .resource false, ["http://[::1]/x", "a[b"],
      ["http://[::1]/x", "a[b"]⟩
    let bad : Reading := ⟨statement "p:c" .resource true, ["c", "$v", "http://\u2100/"],
      ["c", "http://[x]/", "http://\u2100/"]⟩
    let last : Reading := ⟨statement "p:d" (.datatype "_:u") false, ["w"], ["w"]⟩
    have hfault : bad.HasFault (s.submit (.ofFields fields) (.fresh id id)).session
        (.notAddress "x") :=
      ⟨["p:c", "c"], "http://[x]/", ["http://\u2100/"], by decide +kernel, by decide +kernel,
        by decide +kernel⟩
    refine (hmalformed _).2 ⟨[first], bad, [last], by decide +kernel, fun r hr => ?_, hfault⟩
    rw [List.mem_singleton.1 hr]
    exact ⟨by decide +kernel, fun token h => by cases h.designator⟩
  exact ⟨a, w, .fresh id id, rfl, (hcommand a w _ hs hform hfails).2 _ rfl⟩

/-- One reference with an opening bracket ends the run without a message. -/
theorem submit_reported_uncaught : ∃ (s : Session) (fields : List Field) (supply : Supply)
    (w : Surroundings), s.replacement = none ∧
    (s.submit (.ofFields fields) supply).edits =
      .error (.value (.malformedAuthority .unbalancedBrackets)) ∧
    Error.isReported (.value (.malformedAuthority .unbalancedBrackets)) = false ∧
    Command.run ["-s", "http://a.example/", "--form", "p%3Aa+%3A=http%3A%2F%2F%5B"] w supply =
      .failure (.value (.malformedAuthority .unbalancedBrackets)) := by
  let s : Session := ⟨.iri "http://a.example/", none, Prefixes.default, none⟩
  let fields : List Field := [("p:a :", ["http://["])]
  let w : Surroundings := ⟨fun p => .error (.missing p), ⟨none, none, none⟩, []⟩
  let a : Arguments := { Arguments.default with
    subject := some "http://a.example/", form := some "p%3Aa+%3A=http%3A%2F%2F%5B" }
  have hread : Arguments.read ["-s", "http://a.example/", "--form", "p%3Aa+%3A=http%3A%2F%2F%5B"] =
      .ok (.run a) := rfl
  have hform : Command.form a w = .ok (.ofFields fields) := by
    have hfields : Encoded.read "p%3Aa+%3A=http%3A%2F%2F%5B" = fields := by decide +kernel
    show Except.ok (Submission.ofFields (Encoded.read "p%3Aa+%3A=http%3A%2F%2F%5B")) = _
    rw [hfields]
  have hfails : (s.submit (.ofFields fields) (.fresh id id)).edits =
      .error (.value (.malformedAuthority .unbalancedBrackets)) := by
    let bad : Reading := ⟨⟨.empty, "p:a", none, some .resource, none, false⟩, ["http://["],
      ["http://["]⟩
    have hfault : bad.HasFault (s.submit (.ofFields fields) (.fresh id id)).session
        .unbalancedBrackets :=
      ⟨["p:a"], "http://[", [], by decide +kernel, by decide +kernel, by decide +kernel⟩
    exact (submit_eq_malformed_iff _ rfl (Submission.fields_ofFields fields) (.fresh id id)).2
      ⟨[], bad, [], by decide +kernel, nofun, hfault⟩
  refine ⟨s, fields, .fresh id id, w, rfl, hfails, rfl, ?_⟩
  rw [Command.run, hread]
  exact Command.perform_of_submit rfl hform hfails

end Session

end FormEdits
