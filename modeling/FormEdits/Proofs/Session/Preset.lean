import FormEdits.Proofs.Macros.Part
import FormEdits.Proofs.Session.Rebuilt
import FormEdits.Proofs.Statement.Readings

/-! # Setting the session beforehand

A form may set the subject, the graph and prefixes itself, in whatever place among its fields, or
the session may be built with them before. The edits are the same as long as no statement uses a
generated macro or one of the three special ones (`Session.submit_preset`). -/

namespace FormEdits

open Macros (SameTexts names)
open MacroTable (RefersToOrdinary Closed ofDeclarations)

/-! ### Readings with the same texts -/

section

variable {m m' : Expansions}

theorem Template.read_eq_of_sameTexts (t : Template) {raw : List Text}
    (h : (t.expandsValues && !t.isDropped) = true → ∀ v ∈ raw, ∀ x ∈ names v, SameTexts m m' x) :
    ∃ r, (∀ s, t.read m raw s = (r, s)) ∧ ∀ s, t.read m' raw s = (r, s) := by
  rcases ht : t.expandsValues && !t.isDropped with _ | _
  · refine ⟨⟨t, raw, Statement.trimmedValues raw⟩, fun s => ?_, fun s => ?_⟩
    · simp only [read, ht, Bool.false_eq_true, if_false]
    · simp only [read, ht, Bool.false_eq_true, if_false]
  · obtain ⟨us, hm, hm'⟩ := Macros.expandAll_eq_of_sameTexts (h ht)
    refine ⟨⟨t, raw, Statement.trimmedValues us⟩, fun s => ?_, fun s => ?_⟩
    · simp only [read, ht, if_true, hm]
    · simp only [read, ht, if_true, hm']

theorem Template.readAll_eq_of_sameTexts {raw : List Text} {ts : List Template} {supply : Supply}
    (h : ∀ r ∈ (readAll m raw ts supply).1, (r.template.expandsValues && !r.template.isDropped) →
      ∀ v ∈ r.raw, ∀ x ∈ names v, SameTexts m m' x) :
    ∃ rs, (∀ s, readAll m raw ts s = (rs, s)) ∧ ∀ s, readAll m' raw ts s = (rs, s) := by
  induction ts generalizing supply with
  | nil => exact ⟨[], fun _ => rfl, fun _ => rfl⟩
  | cons t ts ih =>
    obtain ⟨r, hm, hm'⟩ := t.read_eq_of_sameTexts (h _ (List.mem_cons_self ..))
    obtain ⟨rs, hrs, hrs'⟩ := ih fun r hr => h r (List.mem_cons_of_mem _ hr)
    refine ⟨r :: rs, fun s => ?_, fun s => ?_⟩
    · simp only [readAll, hm, hrs]
    · simp only [readAll, hm', hrs']

namespace Candidate

theorem templates_eq_of_sameTexts (c : Candidate)
    (h : ∀ text, c.key = .unexpanded text → ∀ x ∈ names text, SameTexts m m' x) :
    ∃ ts, (∀ s, c.templates m s = (ts, s)) ∧ ∀ s, c.templates m' s = (ts, s) := by
  rcases hk : c.key with d | t | text | _
  · exact ⟨[], fun s => by simp only [templates, hk], fun s => by simp only [templates, hk]⟩
  · exact ⟨[t], fun s => by simp only [templates, hk], fun s => by simp only [templates, hk]⟩
  · obtain ⟨us, hm, hm'⟩ := Macros.expand_eq_of_sameTexts (h text hk)
    exact ⟨us.filterMap Template.parse?, fun s => by simp only [templates, hk, hm],
      fun s => by simp only [templates, hk, hm']⟩
  · exact ⟨[], fun s => by simp only [templates, hk], fun s => by simp only [templates, hk]⟩

theorem readings_eq_of_sameTexts {cs : List Candidate} (supply : Supply)
    (hk : ∀ c ∈ cs, ∀ text, c.key = .unexpanded text → ∀ x ∈ names text, SameTexts m m' x)
    (hv : ∀ r ∈ (readings m cs supply).1, (r.template.expandsValues && !r.template.isDropped) →
      ∀ v ∈ r.raw, ∀ x ∈ names v, SameTexts m m' x) :
    ∃ rs, (∀ s, readings m cs s = (rs, s)) ∧ ∀ s, readings m' cs s = (rs, s) := by
  induction cs generalizing supply with
  | nil => exact ⟨[], fun _ => rfl, fun _ => rfl⟩
  | cons c cs ih =>
    obtain ⟨ts, ht, ht'⟩ := c.templates_eq_of_sameTexts (hk c (List.mem_cons_self ..))
    have hcons : (readings m (c :: cs) supply).1 = (Template.readAll m c.values ts supply).1 ++
        (readings m cs (Template.readAll m c.values ts supply).2).1 := by
      simp only [readings, ht]
    rw [hcons] at hv
    obtain ⟨here, hh, hh'⟩ := Template.readAll_eq_of_sameTexts
      fun r hr => hv r (List.mem_append_left _ hr)
    obtain ⟨rest, hr, hr'⟩ := ih _ (fun c hc => hk c (List.mem_cons_of_mem _ hc))
      fun r hr => hv r (List.mem_append_right _ hr)
    refine ⟨here ++ rest, fun s => ?_, fun s => ?_⟩
    · simp only [readings, ht, hh, hr]
    · simp only [readings, ht', hh', hr']

end Candidate

end

/-! ### Forms without the special macros -/

namespace Special

/-- Whether a name is other than those of the special macros. -/
def isOther (n : Text) : Bool := !all.any (·.name = n)

/-- Whether a field does something other than to declare a special macro. -/
def isOtherField (f : Field) : Bool := (Declaration.parse? f.1).all fun d => isOther d.name

theorem isOther_name (special : Special) : isOther special.name = false := by
  cases special <;> decide

theorem declarations_filter (fields : List Field) :
    declarations (fields.filter isOtherField) =
      (declarations fields).filter fun d => isOther d.1 :=
  declarations_filter_of_parse? (fun f d hd => by rw [isOtherField, hd, Option.all_some]) fields

theorem candidates_filter (fields : List Field) :
    (Sorted.ofFields (fields.filter isOtherField)).candidates =
      (Sorted.ofFields fields).candidates :=
  Sorted.candidates_filter_of_parse? (fun f hd => by rw [isOtherField, hd, Option.all_none]) fields

end Special

namespace Session

/-- No generated macro and no special one is used by the statements of a form, or by the values of
the other macros. -/
structure UsesOrdinary (s : Session) (form : Submission) (fields : List Field) (supply : Supply) :
    Prop where
  keys : ∀ f ∈ fields, Declaration.parse? f.1 = none → RefersToOrdinary Special.isOther f.1
  values : ∀ r ∈ s.readings form supply, (r.template.expandsValues && !r.template.isDropped) →
    ∀ v ∈ r.raw, RefersToOrdinary Special.isOther v
  macros : Closed Special.isOther (declarations fields)

theorem applySpecials_eq_self (s : Session) {m : Expansions}
    (h : ∀ special : Special, m.find? special.name = none) (supply : Supply) :
    s.applySpecials m Special.all supply = (.ok s, supply) := by
  simp only [Special.all, applySpecials, h, Option.getD_none]

/-- A form that changes the session makes the edits, or fails with the error, that the same form
without its special macros makes in a session built with what they set; where they stand among the
fields does not matter. This holds after any submissions, and whatever the clock and the identifiers
are the second time. -/
theorem submit_preset (subject graph prefixes : Value) (replacement : ReplacementSetting)
    (s₀ : Session) (forms : List Submission) (supply₀ supply supply₁ supply₂ : Supply)
    (s s' : Session) (form form' : Submission) (fields : List Field) (m : Expansions)
    (h₀ : ofValues subject graph prefixes replacement = .ok s₀)
    (hs : s₀.submitAll forms supply₀ = (s, supply)) (hf : form.fields = .ok fields)
    (hm : Macros.resolve (ofDeclarations (declarations fields)) supply = (.ok m, supply₁))
    (ha : s.applySpecials m Special.all supply₁ = (.ok s', supply₂))
    (hu : s.UsesOrdinary form fields supply)
    (hf' : form'.fields = .ok (fields.filter Special.isOtherField)) :
    (s.submit form supply).session = s' ∧ s'.rebuilt = .ok s' ∧
      ∀ supply', (s'.submit form' supply').session = s' ∧
        (s'.submit form' supply').edits = (s.submit form supply).edits := by
  -- the prefixes start with the known ones, and so a session built with them has the same
  have hextend : s.prefixes.Extend := by
    have := extend_of_submitAll (extend_of_ofValues h₀) forms supply₀
    rwa [hs] at this
  rw [← Sorted.table_ofFields] at hm
  obtain ⟨hreadings, hsession, hedits⟩ := submit_of_applySpecials hf hm ha
  rw [Sorted.table_ofFields] at hm
  refine ⟨hsession, rebuilt_eq_self (extend_of_applySpecials hextend hm ha), fun supply' => ?_⟩
  obtain ⟨m', hm', hsame⟩ := Macros.resolve_filter hu.macros (congrArg Prod.fst hm) supply'
  rw [← Special.declarations_filter] at hm'
  -- the special macros are not there any more, and all that the statements use has the same texts
  have hnone : ∀ special : Special, m'.find? special.name = none := by
    intro special
    refine Macros.find?_eq_none hm' special.ofName?_name fun d hd hdn => ?_
    rw [Special.declarations_filter] at hd
    have hother := (List.mem_filter.1 hd).2
    rw [hdn, special.isOther_name] at hother
    cases hother
  have hkeys : ∀ c ∈ (Sorted.ofFields fields).candidates, ∀ text, c.key = .unexpanded text →
      ∀ x ∈ names text, SameTexts m m' x := by
    intro c hc text hk x hx
    rw [Sorted.candidates_ofFields] at hc
    obtain ⟨f, hmem, hof⟩ := List.mem_filterMap.1 hc
    obtain ⟨hd, rfl⟩ := Candidate.unexpanded_of_ofField? hof hk
    exact hsame x (hu.keys f hmem hd x hx)
  obtain ⟨rs, hrs, hrs'⟩ := Candidate.readings_eq_of_sameTexts supply₂ hkeys
    fun r hr he v hv x hx => hsame x (hu.values r (hreadings ▸ hr) he v hv x hx)
  rw [← Sorted.table_ofFields] at hm'
  obtain ⟨hreadings', hsession', hedits'⟩ :=
    submit_of_applySpecials hf' (Prod.ext hm' rfl) (s'.applySpecials_eq_self hnone _)
  refine ⟨hsession', ?_⟩
  rw [hedits', hedits, hreadings', hreadings, Special.candidates_filter, hrs, hrs']

/-- Fields with statements on both sides of the declarations that they are read with. -/
def movingFields : List Field :=
  [("ex:$x :", ["b"]), ("rdf:type :", ["ex:T"]), ("$ PREFIX", ["ex: urn:ex:"]),
    ("$ SUBJECT", ["/other"]), ("$ x", ["knows"]), ("$ GRAPH", ["urn:g"]), ("ex:name $", ["$y"]),
    ("$ y $", ["<$x>"])]

/-- The same fields without the special macros. -/
def remainingFields : List Field :=
  [("ex:$x :", ["b"]), ("rdf:type :", ["ex:T"]), ("$ x", ["knows"]), ("ex:name $", ["$y"]),
    ("$ y $", ["<$x>"])]

theorem submit_preset_movingFields : ∃ (s s' : Session) (set : EditSet) (supply : Supply),
    s.subject = .iri "http://a.example/" ∧ s'.rebuilt = .ok s' ∧
    s'.subject = .iri "http://a.example/other" ∧ set.inserts.length = 3 ∧
    (s.submit (.ofFields movingFields) supply).edits = .ok set ∧
    ∀ supply', (s'.submit (.ofFields remainingFields) supply').edits = .ok set := by
  -- the session has been through a submission, and knows another `rdf` than usual
  let s₀ : Session := ⟨.iri "http://a.example/", none,
    Prefixes.default.overlay [("rdf", "urn:rdf:")], none⟩
  let earlier : List Submission := [.ofFields [("$ PREFIX", ["p: urn:p:"])]]
  let after := s₀.submitAll earlier (.fresh id id)
  let resolved := Macros.resolve (ofDeclarations (declarations movingFields)) after.2
  let m : Expansions := resolved.1.toOption.getD []
  have hm : resolved = (.ok m, resolved.2) :=
    Prod.ext (eq_ok_of_toOption (by decide +kernel)) rfl
  let applied := after.1.applySpecials m Special.all resolved.2
  have hsubject : applied.1.toOption.map Session.subject =
      some (.iri "http://a.example/other") := by decide +kernel
  obtain ⟨s', hs', hsubject⟩ := Option.map_eq_some_iff.1 hsubject
  let outcome := after.1.submit (.ofFields movingFields) after.2
  have hcount : outcome.edits.toOption.map (fun set => set.inserts.length) = some 3 := by
    decide +kernel
  obtain ⟨set, hset, hcount⟩ := Option.map_eq_some_iff.1 hcount
  have hu : after.1.UsesOrdinary (.ofFields movingFields) movingFields after.2 :=
    ⟨by decide +kernel, by decide +kernel, by decide +kernel⟩
  obtain ⟨-, hrebuilt, hpreset⟩ := submit_preset (.term (.iri "http://a.example/")) .null
    (.mapping [(.text "rdf", .text "urn:rdf:")]) .absent s₀ earlier (.fresh id id) after.2
    resolved.2 applied.2 after.1 s' (.ofFields movingFields)
    (.ofFields (movingFields.filter Special.isOtherField)) movingFields m rfl rfl rfl hm
    (Prod.ext (eq_ok_of_toOption hs') rfl) hu rfl
  refine ⟨after.1, s', set, after.2, by decide +kernel, hrebuilt, hsubject, hcount,
    eq_ok_of_toOption hset, fun supply' => ?_⟩
  have hfields : movingFields.filter Special.isOtherField = remainingFields := by decide +kernel
  rw [← hfields, (hpreset supply').2, eq_ok_of_toOption hset]

end Session

end FormEdits
