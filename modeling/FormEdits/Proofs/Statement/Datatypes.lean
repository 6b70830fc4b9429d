import FormEdits.Proofs.Session.Rebuilt
import FormEdits.Proofs.Statement.Readings

/-! # Datatypes that are no IRIs

A token resolves to a blank node exactly if it starts with `_:`, whatever the prefixes are, and no
literal can have such a datatype. The token of a datatype is resolved with each value that is not
empty, and so a form fails for it only if there is such a value (`Session.submit_typedByBlank`). -/

namespace FormEdits

theorem Literal.exists_tagged? {tag : Text} (h : isLanguageTag tag) (t : Text) :
    ∃ l, Literal.tagged? t tag = some l := by
  rw [Literal.tagged?]
  split
  · exact ⟨_, rfl⟩
  · rename_i hne
    have hword : tag.IsWord := ⟨by simpa using hne, isBlank_of_isLanguageTag h⟩
    rw [hword.dropFinalLineFeed, if_pos h]
    exact ⟨_, rfl⟩

namespace Session

variable {s : Session} {token : Text}

theorem resolve?_eq_blank_iff : (∃ l, s.resolve? token = some (.blank l)) ↔ "_:" <+: token := by
  constructor
  · rintro ⟨l, hl⟩
    rw [resolve?_eq_some_iff, locate] at hl
    split at hl
    · rename_i label hlabel
      exact ⟨label, Text.after?_eq_some_iff.1 hlabel⟩
    · split at hl
      · cases hl
      · obtain ⟨t, -, ht⟩ := exists_ok_of_map hl
        cases ht
  · rintro ⟨label, hlabel⟩
    have hblank : blankLabel? token = some label := Text.after?_eq_some_iff.2 hlabel
    exact ⟨label, by rw [resolve?_eq_some_iff, locate, hblank]⟩

theorem succeeds_resolve (h : (s.resolve? token).isSome) : Succeeds (s.resolve token) := by
  obtain ⟨r, hr⟩ := Option.isSome_iff_exists.1 h
  exact .of_eq_ok (resolve_eq_ok_iff.2 hr)

theorem datatype_eq_error (h : "_:" <+: token) :
    s.datatype token = .error (.datatype (.notIri token)) := by
  obtain ⟨l, hl⟩ := (resolve?_eq_blank_iff (s := s)).2 h
  have hne : token.isEmpty = false := by
    obtain ⟨rest, rfl⟩ := h
    rfl
  rw [datatype, hne, resolve_eq_ok_iff.2 hl]
  rfl

theorem succeeds_datatype (ht : isTermToken token) (h : (s.resolve? token).isSome)
    (hb : ¬ "_:" <+: token) : Succeeds (s.datatype token) := by
  have hne : token.isEmpty = false := by
    rcases token with _ | ⟨c, r⟩
    · cases ht
    · rfl
  obtain ⟨r, hr⟩ := Option.isSome_iff_exists.1 h
  cases r with
  | iri t =>
    rw [datatype, hne, resolve_eq_ok_iff.2 hr]
    exact .ok t
  | blank l => exact (hb (resolve?_eq_blank_iff.1 ⟨l, hr⟩)).elim

end Session

/-! ### The values that are used -/

namespace Statement

variable {s : Session} {st : Statement} {m : Modifiers} {d : Designator} {values : List Text}

/-- The values whose terms are made: none of them if a delete has an empty one. -/
def used (m : Modifiers) (values : List Text) : List Text :=
  if m.delete && !m.overwrite && values.contains [] then [] else values.filter (!·.isEmpty)

theorem mem_used {v : Text} : v ∈ used m values ↔
    ¬ (m.delete ∧ m.overwrite = false ∧ [] ∈ values) ∧ v ∈ values ∧ v ≠ [] := by
  rw [used]
  split
  · rename_i h
    simp_all
  · rename_i h
    simp_all

theorem valueEdits_eq_error_iff {op : Operation} {e : Error} :
    valueEdits s st op d values = .error e ↔
      (values.filter (!·.isEmpty)).mapM (fun v => s.coerce v d) = .error e := by
  rw [valueEdits]
  exact bind_eq_error_iff fun terms => .ok _

theorem edits_eq_error_iff {e : Error} :
    edits s st m d values = .error e ↔ (used m values).mapM (fun v => s.coerce v d) = .error e := by
  rw [edits, used]
  rcases ho : m.overwrite with _ | _
  · rcases hd : m.delete && values.contains [] with _ | _
    · simp only [hd, Bool.not_false, Bool.and_true, Bool.false_eq_true, if_false]
      exact valueEdits_eq_error_iff
    · simp only [hd, Bool.not_false, Bool.and_true, Bool.false_eq_true, if_false, if_true]
      constructor
      · intro h; cases h
      · intro h; cases h
  · simp only [Bool.not_true, Bool.and_false, Bool.false_and, Bool.false_eq_true, if_false, if_true]
    exact map_eq_error_iff.trans valueEdits_eq_error_iff

end Statement

/-! ### Readings -/

/-- The values of a forward statement are to be literals of a datatype that is a blank node, and one
of them is used. -/
structure Reading.TypedByBlank (r : Reading) (token : Text) : Prop where
  forward : r.template.modifiers.reverse = false
  designator : r.template.designator = some (.datatype token)
  blank : "_:" <+: token
  value : ∃ v ∈ r.values, v ≠ []
  used : ¬ (r.template.modifiers.delete ∧ r.template.modifiers.overwrite = false ∧ [] ∈ r.values)

namespace Reading

/-- The tokens that are resolved for the edits of a reading: that of a datatype with each value. -/
def references (r : Reading) : List Text :=
  let values := Statement.used r.template.modifiers r.values
  if r.template.isDropped then []
  else r.template.term1 :: (r.template.term2.toList ++ r.template.graph.toList ++
    match r.template.effectiveDesignator with
    | .resource => values
    | .datatype token => values.map fun _ => token
    | _ => [])

/-- Every reference of the reading can be resolved. -/
def Resolves (s : Session) (r : Reading) : Prop := ∀ token ∈ r.references, (s.resolve? token).isSome

instance (s : Session) (r : Reading) : Decidable (r.Resolves s) :=
  inferInstanceAs (Decidable (∀ token ∈ r.references, (s.resolve? token).isSome))

end Reading

theorem Template.designator_of_effectiveDesignator {t : Template} {d : Designator}
    (h : t.effectiveDesignator = d) (hr : d ≠ .resource) (hl : d ≠ .literal) :
    t.designator = some d := by
  rw [effectiveDesignator] at h
  rcases hd : t.designator with _ | d'
  · rw [hd, Option.getD_none] at h
    split at h
    · exact (hr h.symm).elim
    · exact (hl h.symm).elim
  · rw [hd, Option.getD_some] at h
    rw [h]

namespace Reading

variable {s : Session} {r : Reading} {token : Text}

theorem Resolves.ofTemplate (h : r.Resolves s) (hd : r.template.isDropped = false) :
    Succeeds (Statement.ofTemplate s r.template) := by
  have hmem : ∀ token ∈ r.template.term1 :: (r.template.term2.toList ++ r.template.graph.toList),
      Succeeds (s.resolve token) := by
    intro token ht
    refine Session.succeeds_resolve (h token ?_)
    rw [references, if_neg (by rw [hd]; exact Bool.false_ne_true)]
    rw [← List.cons_append]
    exact List.mem_append_left _ ht
  have h1 := hmem _ (List.mem_cons_self ..)
  have h2 : Succeeds (r.template.term2.mapM s.resolve) := .mapM_option fun token ht =>
    hmem token (List.mem_cons_of_mem _ (List.mem_append_left _ (Option.mem_toList.2 ht)))
  have hg : Succeeds (r.template.graph.mapM s.resolve) := .mapM_option fun token ht =>
    hmem token (List.mem_cons_of_mem _ (List.mem_append_right _ (Option.mem_toList.2 ht)))
  exact h1.bind fun _ => h2.bind fun _ => hg.bind fun _ => .ok _

theorem TypedByBlank.edits (h : r.TypedByBlank token) (hs : r.Resolves s) :
    r.edits s = .error (.datatype (.notIri token)) := by
  have hdropped : r.template.isDropped = false := by rw [Template.isDropped, h.forward]; rfl
  have hd : r.template.effectiveDesignator = .datatype token := by
    rw [Template.effectiveDesignator, h.designator]; rfl
  obtain ⟨st, hst⟩ := (hs.ofTemplate hdropped).exists_ok
  have hcoerce : ∀ v, s.coerce v (.datatype token) = .error (.datatype (.notIri token)) := by
    intro v
    rw [Session.coerce, Session.term, Session.datatype_eq_error h.blank]
    rfl
  obtain ⟨v, hv, hne⟩ := h.value
  have hused : v ∈ Statement.used r.template.modifiers r.values :=
    Statement.mem_used.2 ⟨h.used, hv, hne⟩
  have herror : Statement.edits s st r.template.modifiers (.datatype token) r.values =
      .error (.datatype (.notIri token)) := by
    obtain ⟨v', vs, hvs⟩ := List.exists_cons_of_ne_nil (List.ne_nil_of_mem hused)
    rw [Statement.edits_eq_error_iff, hvs, List.mapM_cons, hcoerce v']
    rfl
  rw [Reading.edits, hdropped, hst, hd]
  exact herror

theorem succeeds_coerce (hr : r.template.IsRenderable) (hn : s.replacement = none)
    (hs : r.Resolves s) (hd : r.template.isDropped = false) (hb : ∀ token, ¬ r.TypedByBlank token)
    {v : Text} (hv : v ∈ Statement.used r.template.modifiers r.values) :
    Succeeds (s.coerce v r.template.effectiveDesignator) := by
  rw [Session.coerce_eq_term hn]
  have href : ∀ token, token ∈ (match r.template.effectiveDesignator with
      | .resource => Statement.used r.template.modifiers r.values
      | .datatype token => (Statement.used r.template.modifiers r.values).map fun _ => token
      | _ => []) → (s.resolve? token).isSome := by
    intro token ht
    refine hs token ?_
    rw [references, if_neg (by rw [hd]; exact Bool.false_ne_true)]
    exact List.mem_cons_of_mem _ (List.mem_append_right _ ht)
  rcases he : r.template.effectiveDesignator with _ | _ | _ | tag | token
  · rw [he] at href
    show Succeeds (if v.isEmpty then .ok none else (s.resolve v).map fun r => some r.toTerm)
    split
    · exact .ok none
    · exact (Session.succeeds_resolve (href v hv)).map
  · exact .ok _
  · exact .ok _
  · have htag := hr.language tag
      (Template.designator_of_effectiveDesignator he Designator.noConfusion Designator.noConfusion)
    obtain ⟨l, hl⟩ := Literal.exists_tagged? htag v
    rw [Session.term, hl]
    exact .ok _
  · have hdesignator : r.template.designator = some (.datatype token) :=
      Template.designator_of_effectiveDesignator he Designator.noConfusion Designator.noConfusion
    have hforward : r.template.modifiers.reverse = false := by
      rw [Template.isDropped, he] at hd
      simpa [Designator.isResource] using hd
    obtain ⟨hused, hmem, hne⟩ := Statement.mem_used.1 hv
    have hblank : ¬ "_:" <+: token := fun hpre =>
      hb token ⟨hforward, hdesignator, hpre, ⟨v, hmem, hne⟩, hused⟩
    rw [he] at href
    have hresolves := href token (List.mem_map.2 ⟨v, hv, rfl⟩)
    exact (Session.succeeds_datatype (hr.datatype token hdesignator).1 hresolves hblank).map

theorem succeeds_edits (hr : r.template.IsRenderable) (hn : s.replacement = none)
    (hs : r.Resolves s) (hb : ∀ token, ¬ r.TypedByBlank token) : Succeeds (r.edits s) := by
  rcases hd : r.template.isDropped with _ | _
  · rw [Reading.edits, hd]
    refine (hs.ofTemplate hd).bind fun st e he => ?_
    have hterms : Succeeds ((Statement.used r.template.modifiers r.values).mapM fun v =>
        s.coerce v r.template.effectiveDesignator) :=
      .mapM fun v hv => succeeds_coerce hr hn hs hd hb hv
    exact hterms e (Statement.edits_eq_error_iff.1 he)
  · rw [Reading.edits, hd]
    exact .ok []

theorem allEdits_eq_error {before after : List Reading} (hn : s.replacement = none)
    (hr : ∀ r ∈ before, r.template.IsRenderable) (hs : ∀ r ∈ before, r.Resolves s)
    (hb : ∀ r ∈ before, ∀ token, ¬ r.TypedByBlank token) (h : r.TypedByBlank token)
    (hself : r.Resolves s) :
    allEdits s (before ++ r :: after) = .error (.datatype (.notIri token)) := by
  have hfirst := h.edits hself
  have hbefore : ∀ r' ∈ before, Succeeds (r'.edits s) :=
    fun r' hr' => succeeds_edits (hr r' hr') hn (hs r' hr') (hb r' hr')
  rw [allEdits, mapM_append_cons_eq_error hbefore hfirst]
  rfl

theorem succeeds_allEdits {rs : List Reading} (hn : s.replacement = none)
    (hr : ∀ r ∈ rs, r.template.IsRenderable) (hs : ∀ r ∈ rs, r.Resolves s)
    (hb : ∀ r ∈ rs, ∀ token, ¬ r.TypedByBlank token) : Succeeds (allEdits s rs) :=
  (ErrorsIn.mapM fun r hmem => succeeds_edits (hr r hmem) hn (hs r hmem) (hb r hmem)).map

theorem exists_first_typedByBlank {rs : List Reading} (hmem : r ∈ rs) (h : r.TypedByBlank token) :
    ∃ before r' after token', rs = before ++ r' :: after ∧
      (∀ r'' ∈ before, ∀ token'', ¬ r''.TypedByBlank token'') ∧ r'.TypedByBlank token' := by
  classical
  let typed (r : Reading) : Bool := decide (∃ token, r.TypedByBlank token)
  obtain ⟨r', hfind⟩ := Option.isSome_iff_exists.1
    (List.find?_isSome.2 ⟨r, hmem, show typed r = true from decide_eq_true ⟨token, h⟩⟩)
  obtain ⟨htyped, before, after, hsplit, hbefore⟩ := List.find?_eq_some_iff_append.1 hfind
  obtain ⟨token', h'⟩ := of_decide_eq_true htyped
  refine ⟨before, r', after, token', hsplit, fun r'' hr'' token'' h'' => ?_, h'⟩
  have hnot := hbefore r'' hr''
  rw [show typed r'' = true from decide_eq_true ⟨token'', h''⟩] at hnot
  cases hnot

end Reading

/-! ### Forms -/

namespace Session

/-- A form whose macros change the session fails for a datatype exactly if one of its statements is
typed by a blank node. The error names the token of the first such statement, and every form without
one has edits: a datatype that no value uses does no harm. -/
theorem submit_typedByBlank (s s' : Session) (form : Submission) (fields : List Field)
    (m : Expansions) (supply supply₁ supply₂ : Supply) (h : s.replacement = none)
    (hf : form.fields = .ok fields)
    (hm : Macros.resolve (.ofDeclarations (declarations fields)) supply = (.ok m, supply₁))
    (ha : s.applySpecials m Special.all supply₁ = (.ok s', supply₂))
    (hr : ∀ r ∈ s.readings form supply, r.Resolves s') :
    ((∃ fault, (s.submit form supply).edits = .error (.datatype fault)) ↔
      ∃ r ∈ s.readings form supply, ∃ token, r.TypedByBlank token) ∧
    (∀ before r after token, s.readings form supply = before ++ r :: after →
      (∀ r' ∈ before, ∀ token', ¬ r'.TypedByBlank token') → r.TypedByBlank token →
      (s.submit form supply).edits = .error (.datatype (.notIri token))) ∧
    ((∀ r ∈ s.readings form supply, ∀ token, ¬ r.TypedByBlank token) →
      ∃ set, (s.submit form supply).edits = .ok set) := by
  have hn : s'.replacement = none := (changedBy_of_applySpecials hm ha).replacement.trans h
  rw [← Sorted.table_ofFields] at hm
  obtain ⟨-, -, hedits⟩ := submit_of_applySpecials hf hm ha
  have hrender : ∀ r ∈ s.readings form supply, r.template.IsRenderable :=
    fun r hmem => isRenderable_of_mem_readings hmem
  have hfirst : ∀ before r after token, s.readings form supply = before ++ r :: after →
      (∀ r' ∈ before, ∀ token', ¬ r'.TypedByBlank token') → r.TypedByBlank token →
      (s.submit form supply).edits = .error (.datatype (.notIri token)) := by
    intro before r after token hsplit hbefore hb
    rw [hsplit] at hrender hr
    rw [hedits, hsplit, Reading.allEdits_eq_error hn
      (fun r' hr' => hrender r' (List.mem_append_left _ hr'))
      (fun r' hr' => hr r' (List.mem_append_left _ hr')) hbefore hb
      (hr r (List.mem_append_right _ (List.mem_cons_self ..)))]
    rfl
  have hnone : (∀ r ∈ s.readings form supply, ∀ token, ¬ r.TypedByBlank token) →
      Succeeds (s.submit form supply).edits := by
    intro hb
    rw [hedits]
    exact (Reading.succeeds_allEdits hn hrender hr hb).map
  refine ⟨⟨?_, ?_⟩, hfirst, fun hb => (hnone hb).exists_ok⟩
  · rintro ⟨fault, hfault⟩
    by_contra hno
    exact hnone (fun r hmem token hb => hno ⟨r, hmem, token, hb⟩) _ hfault
  · rintro ⟨r, hmem, token, hb⟩
    obtain ⟨before, r', after, token', hsplit, hbefore, hb'⟩ :=
      Reading.exists_first_typedByBlank hmem hb
    exact ⟨_, hfirst before r' after token' hsplit hbefore hb'⟩

/-- Statements with blank datatypes that do no harm: without a value, as a delete of all statements
and as a reverse statement. -/
def harmless : List Field :=
  [("p:a ^_:x", ["", " "]), ("- p:b ^_:y", ["v", ""]), ("! p:c ^_:z", ["v"])]

/-- A statement with a macro in its key and one in its value, and a further one. -/
def typed : List Field :=
  [("p:$k ^_:t $", ["$v"]), ("p:f ^_:u", ["w"]), ("$ k", ["d", "e"]), ("$ v", [" 1 ", " "])]

theorem submit_typedByBlank_typed : ∃ (s : Session) (supply : Supply) (set : EditSet),
    (s.submit (.ofFields harmless) supply).edits = .ok set ∧
    (s.submit (.ofFields (harmless ++ typed)) supply).edits =
      .error (.datatype (.notIri "_:t")) := by
  let s : Session := ⟨.iri "urn:a", none, Prefixes.default, none⟩
  let statement (m : Modifiers) (p token : Text) (expands : Bool) : Template :=
    ⟨m, p, none, some (.datatype token), none, expands⟩
  let before : List Reading := [
    ⟨statement .empty "p:a" "_:x" false, ["", " "], [""]⟩,
    ⟨statement ⟨false, true, false, false⟩ "p:b" "_:y" false, ["v", ""], ["v", ""]⟩,
    ⟨statement ⟨false, false, false, true⟩ "p:c" "_:z" false, ["v"], ["v"]⟩]
  let first : Reading := ⟨statement .empty "p:d" "_:t" true, ["$v"], ["1", ""]⟩
  let after : List Reading := [⟨statement .empty "p:e" "_:t" true, ["$v"], ["1", ""]⟩,
    ⟨statement .empty "p:f" "_:u" false, ["w"], ["w"]⟩]
  have hbefore : ∀ r ∈ before, ∀ token, ¬ r.TypedByBlank token := by
    intro r hr token h
    rcases List.mem_cons.1 hr with rfl | hr
    · obtain ⟨v, hv, hne⟩ := h.value
      exact hne (List.mem_singleton.1 hv)
    rcases List.mem_cons.1 hr with rfl | hr
    · exact h.used ⟨rfl, rfl, by decide⟩
    · obtain rfl := List.mem_singleton.1 hr
      cases h.forward
  let resolved (fields : List Field) :=
    Macros.resolve (.ofDeclarations (declarations fields)) (.fresh id id)
  let m (fields : List Field) : Expansions := (resolved fields).1.toOption.getD []
  let applied (fields : List Field) :=
    s.applySpecials (m fields) Special.all (resolved fields).2
  let s' (fields : List Field) : Session := (applied fields).1.toOption.getD s
  have hread : s.readings (.ofFields harmless) (.fresh id id) = before := by decide +kernel
  obtain ⟨-, -, hok⟩ := submit_typedByBlank s (s' harmless) (.ofFields harmless) harmless
    (m harmless) (.fresh id id) _ _ rfl rfl (Prod.ext (eq_ok_getD (by decide +kernel) _) rfl)
    (Prod.ext (eq_ok_getD (by decide +kernel) _) rfl) (by decide +kernel)
  obtain ⟨set, hset⟩ := hok (by rw [hread]; exact hbefore)
  let all := harmless ++ typed
  obtain ⟨-, hfirst, -⟩ := submit_typedByBlank s (s' all) (.ofFields all) all (m all) (.fresh id id)
    _ _ rfl rfl (Prod.ext (eq_ok_getD (by decide +kernel) _) rfl)
    (Prod.ext (eq_ok_getD (by decide +kernel) _) rfl) (by decide +kernel)
  have hblank : first.TypedByBlank "_:t" :=
    ⟨rfl, rfl, by decide, by decide, fun h => by cases h.1⟩
  exact ⟨s, .fresh id id, set, hset, hfirst before first after "_:t" (by decide +kernel) hbefore
    hblank⟩

end Session

end FormEdits
