import FormEdits.Proofs.Session.Preset

/-! # The place of declarations in a form

Declarations may stand anywhere among the fields of a form: what counts is the order of those of one
macro, and of the other fields among themselves. The walk through the macros enters them in another
order and may report another circle, but the table has the same entries, so it fails for both forms
or for neither, and all macros get the same texts (`Macros.sameTexts_of_entries?_eq`). The same
statements are then read in the same session (`Session.submit_rearranged`). -/

namespace FormEdits

open MacroTable (ofDeclarations IsOrdinary RefersToOrdinary Closed)
open Macros (SameTexts)

/-! ### Tables with the same entries -/

namespace MacroTable

variable {table table' : MacroTable} {n : Text}

/-- A macro without values is not in a table, so its values say whether it is there. -/
theorem WellFormed.entries?_congr (ht : table.WellFormed) (ht' : table'.WellFormed)
    (h : (table'.entries? n).getD [] = (table.entries? n).getD []) :
    table'.entries? n = table.entries? n := by
  rcases he : table.entries? n with _ | es
  · rcases he' : table'.entries? n with _ | es'
    · rfl
    · have hnil : es' = [] := by simpa [he, he'] using h
      exact absurd hnil (ht'.nonempty n es' he')
  · rcases he' : table'.entries? n with _ | es'
    · have hnil : es = [] := by simpa [he, he', eq_comm] using h
      exact absurd hnil (ht.nonempty n es he)
    · have hes : es' = es := by simpa [he, he'] using h
      rw [hes]

theorem entries?_ofDeclarations_congr {ds ds' : List (Text × List Text × Bool)}
    (h : ∀ n, ds'.filter (fun d => d.1 = n) = ds.filter fun d => d.1 = n) (n : Text) :
    (ofDeclarations ds').entries? n = (ofDeclarations ds).entries? n := by
  have ht := wellFormed_ofDeclarations ds
  have ht' := wellFormed_ofDeclarations ds'
  rcases hg : Generator.ofName? n with _ | g
  · refine ht.entries?_congr ht' ?_
    rw [entries?_ofDeclarations hg, entries?_ofDeclarations hg, h]
  · have hname : g.name = n := Generator.name_of_ofName? hg
    rw [← hname, ht.generated, ht'.generated]

end MacroTable

namespace Macros

open MacroTable

variable {p : Text → Bool} {ds ds' : List (Text × List Text × Bool)} {m m' : Expansions}

theorem exists_resolve_of_entries?_eq
    (h : ∀ n, (ofDeclarations ds').entries? n = (ofDeclarations ds).entries? n) {s : Supply}
    (hm : (resolve (.ofDeclarations ds) s).1 = .ok m) (s' : Supply) :
    ∃ m', (resolve (.ofDeclarations ds') s').1 = .ok m' := by
  have hacyclic := acyclic_of_resolve (wellFormed_ofDeclarations ds) hm
  rw [← refersTo_congr h] at hacyclic
  exact resolve_of_acyclic (wellFormed_ofDeclarations ds') hacyclic s'

theorem sameTexts_of_entries?_eq (hc : Closed p ds)
    (h : ∀ n, (ofDeclarations ds').entries? n = (ofDeclarations ds).entries? n) {s s' : Supply}
    (hm : (resolve (.ofDeclarations ds) s).1 = .ok m)
    (hm' : (resolve (.ofDeclarations ds') s').1 = .ok m') {n : Text} (hn : IsOrdinary p n) :
    SameTexts m m' n := by
  have ht := wellFormed_ofDeclarations ds
  have ht' := wellFormed_ofDeclarations ds'
  obtain ⟨hs, hk⟩ := settled_of_resolve ht hm
  obtain ⟨hs', hk'⟩ := settled_of_resolve ht' hm'
  by_cases hin : (ofDeclarations ds).contains n
  · have hfixed : (ofDeclarations ds).IsFixed n := hc.isFixed hn hin
    have hfind := (hs.find?_eq_texts ht hk hfixed).1
    have hfind' := (hs'.find?_eq_texts ht' hk' ((isFixed_congr h).2 hfixed)).1
    -- the texts of both solve the equations of the first table, which have one solution
    have hsolves : (ofDeclarations ds).Solves m.texts :=
      fun n hn => (hs.find?_eq_texts ht hk hn).2
    have hsolves' : (ofDeclarations ds).Solves m'.texts :=
      solves_congr h fun n hn => (hs'.find?_eq_texts ht' hk' hn).2
    have htexts : m'.texts n = m.texts n :=
      hsolves'.unique (hs.wellFounded ht hk) hsolves hfixed
    refine ⟨some (m.texts n), hfind, ?_⟩
    rw [hfind', htexts]
    rfl
  · have hin' : ¬ (ofDeclarations ds').contains n := by rwa [contains_congr h]
    refine ⟨none, Assoc.find?_eq_none_iff.2 fun hmem => hin ?_,
      Assoc.find?_eq_none_iff.2 fun hmem => hin' ?_⟩
    · exact contains_iff.2 (hk.mem_iff.1 hmem)
    · exact contains_iff.2 (hk'.mem_iff.1 hmem)

end Macros

/-! ### Special macros with the same texts -/

theorem Session.applySpecials_of_sameTexts {m m' : Expansions}
    (h : ∀ sp : Special, SameTexts m m' sp.name) (s : Session) :
    ∃ changed, (∀ supply, s.applySpecials m Special.all supply = (changed, supply)) ∧
      ∀ supply, s.applySpecials m' Special.all supply = (changed, supply) := by
  generalize Special.all = specials
  induction specials generalizing s with
  | nil => exact ⟨.ok s, fun _ => rfl, fun _ => rfl⟩
  | cons sp rest ih =>
    obtain ⟨ts, hts, hts'⟩ := h sp
    let values : Special → List Text := fun _ => ts.getD []
    have hval : (m.find? sp.name).getD [] = (values sp).map .text := by
      rw [hts]; cases ts <;> rfl
    have hval' : (m'.find? sp.name).getD [] = (values sp).map .text := by
      rw [hts']; cases ts <;> rfl
    have hcons := s.applySpecials_cons sp hval rest
    have hcons' := s.applySpecials_cons sp hval' rest
    rcases hch : sp.change (values sp) s with fault | s'
    · refine ⟨.error (.special sp.name fault), fun supply => ?_, fun supply => ?_⟩
      · rw [hcons, hch]
      · rw [hcons', hch]
    · obtain ⟨changed, hrest, hrest'⟩ := ih s'
      refine ⟨changed, fun supply => ?_, fun supply => ?_⟩
      · rw [hcons, hch]; exact hrest supply
      · rw [hcons', hch]; exact hrest' supply

/-! ### Forms with the same declarations -/

/-- Whether a field declares the macro `n`. -/
def declares (n : Text) (f : Field) : Bool := (Declaration.parse? f.1).any (·.name = n)

/-- The same fields, in an order that keeps those that declare the same macro, and those that declare
none, among themselves as they were. -/
structure Rearranged (fields fields' : List Field) : Prop where
  declared : ∀ n, fields'.filter (declares n) = fields.filter (declares n)
  others : fields'.filter declaresNothing = fields.filter declaresNothing

namespace Rearranged

variable {fields fields' : List Field}

theorem filter_declares_eq_nil {n : Text} (h : ∀ d ∈ declarations fields, d.1 ≠ n) :
    fields.filter (declares n) = [] := by
  rw [List.filter_eq_nil_iff]
  intro f hf hn
  obtain ⟨d, hd, hdn⟩ := (Option.any_eq_true _ _).1 hn
  have hmem : (d.name, f.2, d.pending) ∈ declarations fields :=
    List.mem_filterMap.2 ⟨f, hf, by rw [hd]; rfl⟩
  exact h _ hmem (of_decide_eq_true hdn)

theorem iff_forall_declared : Rearranged fields fields' ↔
    (∀ d ∈ declarations fields ++ declarations fields',
      fields'.filter (declares d.1) = fields.filter (declares d.1)) ∧
      fields'.filter declaresNothing = fields.filter declaresNothing := by
  constructor
  · intro h
    exact ⟨fun d _ => h.declared d.1, h.others⟩
  · rintro ⟨hdeclared, hothers⟩
    refine ⟨fun n => ?_, hothers⟩
    by_cases hn : ∃ d ∈ declarations fields ++ declarations fields', d.1 = n
    · obtain ⟨d, hd, rfl⟩ := hn
      exact hdeclared d hd
    · have hnone : ∀ d ∈ declarations fields ++ declarations fields', d.1 ≠ n :=
        fun d hd hdn => hn ⟨d, hd, hdn⟩
      rw [filter_declares_eq_nil fun d hd => hnone d (List.mem_append_right _ hd),
        filter_declares_eq_nil fun d hd => hnone d (List.mem_append_left _ hd)]

instance : Decidable (Rearranged fields fields') := decidable_of_iff _ iff_forall_declared.symm

theorem entries?_eq (h : Rearranged fields fields') (n : Text) :
    (ofDeclarations (declarations fields')).entries? n =
      (ofDeclarations (declarations fields)).entries? n := by
  have hname : ∀ (fields : List Field) (n : Text),
      declarations (fields.filter (declares n)) =
        (declarations fields).filter fun d => d.1 = n := by
    intro fields n
    refine declarations_filter_of_parse? (p := fun x => x = n) (fun f d hd => ?_) fields
    simp only [declares, hd, Option.any_some]
  refine MacroTable.entries?_ofDeclarations_congr (fun n => ?_) n
  rw [← hname, ← hname, h.declared]

theorem candidates_eq (h : Rearranged fields fields') :
    (Sorted.ofFields fields').candidates = (Sorted.ofFields fields).candidates := by
  have hothers : ∀ f : Field, Declaration.parse? f.1 = none → declaresNothing f := by
    intro f hf
    simp only [declaresNothing, hf, Option.isNone_none]
  rw [← Sorted.candidates_filter_of_parse? hothers fields', h.others,
    Sorted.candidates_filter_of_parse? hothers fields]

end Rearranged

/-- Whether an error is one of the declared macros: one that refers to itself, or a circle. -/
def Error.isOfMacros : Error → Bool
  | .selfReference _ | .cycle _ => true
  | _ => false

/-- The form fails with an error of its macros. -/
def Outcome.FailsInMacros (out : Outcome) : Prop := ∃ e, out.edits = .error e ∧ e.isOfMacros

namespace Session

/-- No generated macro is used by the statements of a form, or by the values of other macros. -/
structure DrawsNothing (s : Session) (form : Submission) (fields : List Field) (supply : Supply) :
    Prop where
  keys : ∀ f ∈ fields, Declaration.parse? f.1 = none → RefersToOrdinary (fun _ => true) f.1
  values : ∀ r ∈ s.readings form supply, (r.template.expandsValues && !r.template.isDropped) →
    ∀ v ∈ r.raw, RefersToOrdinary (fun _ => true) v
  macros : Closed (fun _ => true) (declarations fields)

variable {s : Session} {form form' : Submission} {fields fields' : List Field}
  {supply : Supply}

theorem submit_of_resolve_error {e : Error} (hf : form.fields = .ok fields)
    (hm : (Macros.resolve (ofDeclarations (declarations fields)) supply).1 = .error e) :
    (s.submit form supply).session = s ∧ (s.submit form supply).edits = .error e := by
  rw [submit_of_fields hf, submitSorted, Sorted.table_ofFields]
  rcases hr : Macros.resolve (ofDeclarations (declarations fields)) supply with ⟨e' | m, supply₁⟩
  · rw [hr] at hm
    cases hm
    exact ⟨rfl, rfl⟩
  · rw [hr] at hm
    cases hm

theorem submit_of_applySpecials_error {e : Error} {m : Expansions} {supply₁ supply₂ : Supply}
    (hf : form.fields = .ok fields)
    (hm : Macros.resolve (ofDeclarations (declarations fields)) supply = (.ok m, supply₁))
    (hs : s.applySpecials m Special.all supply₁ = (.error e, supply₂)) :
    (s.submit form supply).session = s ∧ (s.submit form supply).edits = .error e := by
  rw [submit_of_fields hf, submitSorted, Sorted.table_ofFields]
  simp only [hm, hs, and_self]

theorem failsInMacros_of_resolve_error {e : Error} (hf : form.fields = .ok fields)
    (hm : (Macros.resolve (ofDeclarations (declarations fields)) supply).1 = .error e) :
    (s.submit form supply).FailsInMacros := by
  refine ⟨e, (submit_of_resolve_error hf hm).2, ?_⟩
  rcases Macros.resolve_error (MacroTable.wellFormed_ofDeclarations _) hm with
    ⟨n, rfl, -⟩ | ⟨ns, rfl, -⟩
  · rfl
  · rfl

/-- Once the macros of a form are resolved, a rearranged form leaves the same session and makes the
same edits, or fails with the same error. -/
theorem submit_eq_of_resolve {m : Expansions} (hf : form.fields = .ok fields)
    (hf' : form'.fields = .ok fields') (h : Rearranged fields fields')
    (hu : s.DrawsNothing form fields supply)
    (hm : (Macros.resolve (ofDeclarations (declarations fields)) supply).1 = .ok m)
    (supply' : Supply) : (s.submit form' supply').session = (s.submit form supply).session ∧
      (s.submit form' supply').edits = (s.submit form supply).edits := by
  obtain ⟨m', hm'⟩ := Macros.exists_resolve_of_entries?_eq h.entries?_eq hm supply'
  have hsame : ∀ n, IsOrdinary (fun _ => true) n → SameTexts m m' n := fun n hn =>
    Macros.sameTexts_of_entries?_eq hu.macros h.entries?_eq hm hm' hn
  obtain ⟨supply₁, hr⟩ : ∃ supply₁, Macros.resolve (ofDeclarations (declarations fields)) supply =
      (.ok m, supply₁) := ⟨_, Prod.ext hm rfl⟩
  obtain ⟨supply₁', hr'⟩ : ∃ supply₁, Macros.resolve (ofDeclarations (declarations fields')) supply' =
      (.ok m', supply₁) := ⟨_, Prod.ext hm' rfl⟩
  obtain ⟨changed, ha, ha'⟩ :=
    s.applySpecials_of_sameTexts fun sp => hsame sp.name ⟨sp.ofName?_name, rfl⟩
  rcases changed with e | s'
  · obtain ⟨hsession, hedits⟩ := submit_of_applySpecials_error hf hr (ha supply₁)
    obtain ⟨hsession', hedits'⟩ := submit_of_applySpecials_error hf' hr' (ha' supply₁')
    exact ⟨hsession'.trans hsession.symm, hedits'.trans hedits.symm⟩
  rw [← Sorted.table_ofFields] at hr hr'
  obtain ⟨hreadings, hsession, hedits⟩ := submit_of_applySpecials hf hr (ha supply₁)
  obtain ⟨hreadings', hsession', hedits'⟩ := submit_of_applySpecials hf' hr' (ha' supply₁')
  refine ⟨hsession'.trans hsession.symm, ?_⟩
  -- every text that is expanded refers to macros with the same texts alone
  have hkeys : ∀ c ∈ (Sorted.ofFields fields).candidates, ∀ text, c.key = .unexpanded text →
      ∀ x ∈ Macros.names text, SameTexts m m' x := by
    intro c hc text hk x hx
    rw [Sorted.candidates_ofFields] at hc
    obtain ⟨f, hmem, hof⟩ := List.mem_filterMap.1 hc
    obtain ⟨hd, rfl⟩ := Candidate.unexpanded_of_ofField? hof hk
    exact hsame x (hu.keys f hmem hd x hx)
  obtain ⟨rs, hrs, hrs'⟩ := Candidate.readings_eq_of_sameTexts supply₁ hkeys
    fun r hr he v hv x hx => hsame x (hu.values r (hreadings ▸ hr) he v hv x hx)
  rw [hedits', hedits, hreadings', hreadings, h.candidates_eq, hrs, hrs']

/-- Moving the declarations of a form changes nothing, if those of each macro keep their order and no
generated macro is used: both forms fail in their macros or neither does, and then they leave the
same session and make the same edits, or fail with the same error. -/
theorem submit_rearranged (s : Session) (form form' : Submission) (fields fields' : List Field)
    (supply supply' : Supply) (hf : form.fields = .ok fields) (hf' : form'.fields = .ok fields')
    (h : Rearranged fields fields') (hu : s.DrawsNothing form fields supply) :
    ((s.submit form' supply').FailsInMacros ↔ (s.submit form supply).FailsInMacros) ∧
      (s.submit form' supply').session = (s.submit form supply).session ∧
      (¬ (s.submit form supply).FailsInMacros →
        (s.submit form' supply').edits = (s.submit form supply).edits) := by
  rcases hm : (Macros.resolve (ofDeclarations (declarations fields)) supply).1 with e | m
  · have hback : ∀ n, (ofDeclarations (declarations fields)).entries? n =
        (ofDeclarations (declarations fields')).entries? n := fun n => (h.entries?_eq n).symm
    obtain ⟨e', hm'⟩ : ∃ e',
        (Macros.resolve (ofDeclarations (declarations fields')) supply').1 = .error e' := by
      rcases hm' : (Macros.resolve (ofDeclarations (declarations fields')) supply').1 with e' | m'
      · exact ⟨e', rfl⟩
      · obtain ⟨m, hok⟩ := Macros.exists_resolve_of_entries?_eq hback hm' supply
        rw [hok] at hm
        cases hm
    have hfails := failsInMacros_of_resolve_error (s := s) hf hm
    have hfails' := failsInMacros_of_resolve_error (s := s) hf' hm'
    have hsession := (submit_of_resolve_error (s := s) hf hm).1
    have hsession' := (submit_of_resolve_error (s := s) hf' hm').1
    exact ⟨⟨fun _ => hfails, fun _ => hfails'⟩, hsession'.trans hsession.symm,
      fun hno => absurd hfails hno⟩
  · obtain ⟨hsession, hedits⟩ := submit_eq_of_resolve hf hf' h hu hm supply'
    refine ⟨?_, hsession, fun _ => hedits⟩
    rw [Outcome.FailsInMacros, Outcome.FailsInMacros, hedits]

/-- A form that declares everything after its statements, one macro twice. -/
def declaredLast : List Field :=
  [("ex:$x : $", ["$y"]), ("rdf:type :", ["ex:T"]), ("$ x", ["knows"]), ("$ y $", ["<$x>", "$z"]),
    ("$ PREFIX", ["ex: urn:ex:"]), ("$  x", ["likes"]), ("$ SUBJECT $", ["/$x"])]

/-- The same form, with its declarations before its statements and between them. -/
def declaredFirst : List Field :=
  [("$ SUBJECT $", ["/$x"]), ("$ y $", ["<$x>", "$z"]), ("$ x", ["knows"]), ("ex:$x : $", ["$y"]),
    ("$  x", ["likes"]), ("$ PREFIX", ["ex: urn:ex:"]), ("rdf:type :", ["ex:T"])]

theorem submit_rearranged_declaredFirst : ∃ (s s' : Session) (set : EditSet),
    s'.subject = .iri "http://a.example/likes" ∧ set.inserts.length = 7 ∧
    (s.submit (.ofFields declaredLast) (.fresh id id)).session = s' ∧
    (s.submit (.ofFields declaredFirst) (.fresh id id)).session = s' ∧
    (s.submit (.ofFields declaredLast) (.fresh id id)).edits = .ok set ∧
    (s.submit (.ofFields declaredFirst) (.fresh id id)).edits = .ok set := by
  let s : Session := ⟨.iri "http://a.example/", none, Prefixes.default, none⟩
  let outcome := s.submit (.ofFields declaredLast) (.fresh id id)
  have hcount : outcome.edits.toOption.map (fun set => set.inserts.length) = some 7 := by
    decide +kernel
  obtain ⟨set, hset, hcount⟩ := Option.map_eq_some_iff.1 hcount
  have hok : outcome.edits = .ok set := eq_ok_of_toOption hset
  have hu : s.DrawsNothing (.ofFields declaredLast) declaredLast (.fresh id id) :=
    ⟨by decide +kernel, by decide +kernel, by decide +kernel⟩
  obtain ⟨-, hsession, hedits⟩ := submit_rearranged s (.ofFields declaredLast)
    (.ofFields declaredFirst) declaredLast declaredFirst (.fresh id id) (.fresh id id) rfl rfl
    (by decide +kernel) hu
  have hno : ¬ outcome.FailsInMacros := by
    rintro ⟨e, he, -⟩
    rw [hok] at he
    cases he
  exact ⟨s, outcome.session, set, by decide +kernel, hcount, rfl, hsession, hok,
    (hedits hno).trans hok⟩

end Session

end FormEdits
