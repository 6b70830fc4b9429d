import FormEdits.Proofs.Form.Encoded
import FormEdits.Proofs.Key.Recognition
import FormEdits.Proofs.Session.Changes
import FormEdits.Proofs.Statement.Datatypes
import FormEdits.Proofs.Statement.Edits
import FormEdits.Proofs.Statement.Reversed

/-! # Prefixes in the form that declares them

The line that binds a prefix, the key that uses it and a value that does are cut at the same colon,
so that a prefix can be used in the form that declares it, whatever it stood for before
(`Session.submit_boundPrefix`). -/

namespace FormEdits

/-! ### The three readers of a colon -/

theorem Text.trim_of_isBlank {t : Text} (h : ∀ c ∈ t, isBlank c = false) : t.trim = t := by
  have hdrop : ∀ {t : Text}, (∀ c ∈ t, isBlank c = false) → t.dropWhile isBlank = t := by
    intro t h
    rcases t with _ | ⟨c, r⟩
    · rfl
    · exact List.dropWhile_cons_of_neg (by simp [h c (List.mem_cons_self ..)])
  rw [trim, trimStart, hdrop h, trimEnd, hdrop (by simpa using h), List.reverse_reverse]

/-- A name before a colon has only characters of names or of schemes. -/
theorem notMem_of_isPrefixName {p : Text} {c : Char} (hp : isPrefixName p)
    (hn : isNameChar c = false) (hs : isSchemeChar c = false) : c ∉ p := by
  intro hc
  rcases Bool.or_eq_true_iff.1 hp with hp | hp
  · rw [isNameChar_of_isName hp c hc] at hn
    cases hn
  · obtain ⟨d, r, rfl, hd, hr⟩ := isScheme_iff.1 hp
    rcases List.mem_cons.1 hc with rfl | hc
    · rw [isSchemeChar, hd] at hs
      cases hs
    · rw [hr c hc] at hs
      cases hs

namespace PrefixLine

variable {p u : Text}

theorem name?_of_isPrefixName (hp : isPrefixName p) (hb : ∀ c ∈ p, isBlank c = false) :
    name? p = some p := by
  have hruns : Text.runs isBlank p = [([], p)] := by
    rcases p with _ | ⟨c, r⟩
    · rfl
    · rw [Text.runs, if_neg (by simp [hb c (List.mem_cons_self ..)])]
  have hmem : (p, []) ∈ namesAtFront p ++ schemesAtFront p := by
    rw [List.mem_append, mem_namesAtFront_iff, mem_schemesAtFront_iff]
    simpa [isPrefixName] using hp
  have hcut : ∀ s ∈ namesAtFront p ++ schemesAtFront p, s.1 ++ s.2 = p := by
    intro s hs
    rcases List.mem_append.1 hs with hs | hs
    · exact (mem_namesAtFront_iff.1 hs).1
    · exact (mem_schemesAtFront_iff.1 hs).1
  rw [name?, hruns, List.findSome?_singleton]
  dsimp only
  rcases hf : (namesAtFront p ++ schemesAtFront p).find? fun s => s.2.all isBlank with _ | s
  · exact absurd rfl (List.find?_eq_none.1 hf _ hmem)
  · -- what is left behind the name is blank, so it is nothing
    have hs := hcut s (List.mem_of_find?_eq_some hf)
    have hrest : s.2 = [] := by
      refine List.eq_nil_iff_forall_not_mem.2 fun c hc => ?_
      have hall : s.2.all isBlank :=
        List.find?_some (p := fun s : Text × Text => s.2.all isBlank) hf
      have hblank := List.all_eq_true.1 hall c hc
      rw [hb c (hs ▸ List.mem_append_right _ hc)] at hblank
      cases hblank
    rw [hrest, List.append_nil] at hs
    rw [hf, Option.map_some, hs]

theorem parse?_of_isPrefixName (hp : isPrefixName p) (hb : ∀ c ∈ p, isBlank c = false)
    (hu : u.IsWord) : parse? (p ++ ": " ++ u) = some ⟨p, u⟩ := by
  have hcut : Text.cut? ':' (p ++ ": " ++ u) = some (p, ' ' :: u) := by
    rw [List.append_assoc]
    exact Text.cut?_append (notMem_of_isPrefixName hp rfl rfl) _
  have hpads : Text.Pads u (' ' :: u) := ⟨" ", [], List.all_eq_true.1 rfl, nofun, by simp⟩
  have htrim : Text.trim (' ' :: u) = u := hpads.trim.trans (Text.trim_of_isBlank hu.isBlank)
  have hword : (u.isEmpty || u.any isBlank) = false := by
    simpa [hu.ne_nil] using hu.isBlank
  simp only [parse?, hcut, name?_of_isPrefixName hp hb, htrim, hword, Option.bind_eq_bind,
    Option.bind_some]
  rfl

end PrefixLine

namespace Session

variable {s : Session} {p u t : Text}

theorem resolve?_of_find? (hp : isPrefixName p) (hsign : p ≠ "_") (ht : t.head? ≠ some '/')
    (hu : s.prefixes.find? p = some u) : s.resolve? (p ++ ':' :: t) = some (.iri (u ++ t)) := by
  have hcut : Text.cut? ':' (p ++ ':' :: t) = some (p, t) :=
    Text.cut?_append (notMem_of_isPrefixName hp rfl rfl) t
  have hblank : blankLabel? (p ++ ':' :: t) = none := by
    rw [blankLabel?, Option.eq_none_iff_forall_ne_some]
    intro label hlabel
    rw [← Text.after?_eq_some_iff.1 hlabel] at hcut
    cases hcut
    exact hsign rfl
  have hprefixed : s.prefixed? (p ++ ':' :: t) = some (u ++ t) := by
    simp only [prefixed?, hcut, Option.bind_eq_bind, Option.bind_some, if_neg ht, hu,
      Option.map_some]
  rw [resolve?_eq_some_iff, locate, hblank, hprefixed]

end Session

/-! ### Declarations without pending values -/

namespace MacroTable

variable {ds : List (Text × List Text × Bool)} {n x : Text}

theorem not_refersTo_of_plain (h : ∀ d ∈ ds, d.2.2 = false) :
    ¬ (ofDeclarations ds).RefersTo n x := by
  rintro ⟨-, e, he, hpending, -⟩
  rcases hg : Generator.ofName? n with _ | g
  · rw [entries?_ofDeclarations hg] at he
    obtain ⟨d, hd, he⟩ := List.mem_flatMap.1 he
    obtain ⟨t, -, rfl⟩ := List.mem_map.1 he
    rw [h d (List.mem_of_mem_filter hd)] at hpending
    cases hpending
  · rw [← Generator.name_of_ofName? hg, (wellFormed_ofDeclarations ds).generated g,
      Option.getD_some, List.mem_singleton] at he
    subst he
    cases hpending

end MacroTable

namespace Macros

open MacroTable

variable {ds : List (Text × List Text × Bool)}

theorem resolve_of_plain (h : ∀ d ∈ ds, d.2.2 = false) (s : Supply) :
    ∃ m s', resolve (.ofDeclarations ds) s = (.ok m, s') ∧
      ∀ n, Generator.ofName? n = none → (m.find? n).getD [] =
        ((ds.filter fun d => d.1 = n).flatMap fun d => d.2.1).map .text := by
  have ht := wellFormed_ofDeclarations ds
  obtain ⟨m, hm⟩ := resolve_of_acyclic ht (fun n hn => by
    obtain ⟨x, hx, -⟩ := Relation.TransGen.head'_iff.1 hn
    exact not_refersTo_of_plain h hx) s
  obtain ⟨hs, hk⟩ := settled_of_resolve ht hm
  refine ⟨m, _, Prod.ext hm rfl, fun n hn => ?_⟩
  rw [hs.values_eq_texts ht (hk.symm.nodup ht.nodup) hn]
  congr 1
  have hentries := entries?_ofDeclarations hn ds
  by_cases hc : (ofDeclarations ds).contains n
  · have hfixed : (ofDeclarations ds).IsFixed n := by
      refine ⟨hc, fun g hg => ?_⟩
      rcases Relation.ReflTransGen.cases_head hg with rfl | ⟨x, hx, -⟩
      · rw [Generator.ofName?_name] at hn
        cases hn
      · exact not_refersTo_of_plain h hx
    rw [(hs.find?_eq_texts ht hk hfixed).2, hentries, List.flatMap_assoc]
    refine List.flatMap_congr fun d hd => ?_
    rw [h d (List.mem_of_mem_filter hd), List.flatMap_map]
    exact List.flatMap_singleton' d.2.1
  · have hnone : (ofDeclarations ds).entries? n = none := by
      simpa [contains, entries?] using hc
    rw [hnone, Option.getD_none, eq_comm, List.flatMap_eq_nil_iff] at hentries
    have hnil : ∀ d ∈ ds, d.1 = n → d.2.1 = [] := fun d hd hdn => by
      simpa using hentries d (List.mem_filter.2 ⟨hd, by simpa using hdn⟩)
    rw [texts_eq_nil hm hn hnil, eq_comm, List.flatMap_eq_nil_iff]
    intro d hd
    exact hnil d (List.mem_of_mem_filter hd) (by simpa using (List.mem_filter.1 hd).2)

end Macros

/-! ### The form -/

/-- A form that is a mapping of texts to texts. -/
def Submission.ofTexts (es : List (Text × Text)) : Submission :=
  .value (.mapping (es.map fun e => (.text e.1, .text e.2)))

theorem Submission.fields_ofTexts (es : List (Text × Text)) :
    (ofTexts es).fields = .ok (es.map fun e => (e.1, [e.2])) := by
  have hmembers : MembersOf (es.map fun e => (e.1, .text e.2)) (es.map fun e => (e.1, [e.2])) := by
    induction es with
    | nil => exact .nil
    | cons e es ih => exact .cons ⟨rfl, .text e.2⟩ ih
  have h := hmembers.fields_eq
  rw [List.map_map] at h
  exact h

namespace Session

variable {s : Session} {p u t v key : Text} {supply : Supply}

theorem applySpecials_of_prefixes {m : Expansions} {values : Special → List Text}
    {lines : List PrefixLine}
    (h : ∀ sp : Special, (m.find? sp.name).getD [] = (values sp).map .text)
    (hsubject : values .subject = []) (hgraph : values .graph = [])
    (hlines : (values .prefixes).mapM PrefixLine.parse? = some lines) (s : Session)
    (supply : Supply) : s.applySpecials m Special.all supply =
      (.ok { s with prefixes := s.prefixes.bind lines }, supply) := by
  have hnone : ∀ (sp : Special) (s : Session), sp.change [] s = .ok s := fun sp s => if_pos rfl
  rw [Special.all, applySpecials_cons _ (h _), hsubject, hnone]
  dsimp only
  rw [applySpecials_cons _ (h _), hgraph, hnone]
  dsimp only
  rw [applySpecials_cons _ (h _), Special.change_prefixes.2 ⟨lines, hlines, rfl⟩]
  rfl

/-- The session in which the prefix is bound. -/
def bindPrefix (s : Session) (p u : Text) : Session := { s with prefixes := s.prefixes.insert p u }

theorem submit_of_prefixLine {l : PrefixLine} {line : Text} {template : Template}
    (hl : PrefixLine.parse? line = some l) (hkey : Template.parse? key = some template)
    (href : Macros.hasReferences key = false) (he : template.expandsValues = false)
    (s : Session) (v : Text) (supply : Supply) :
    (s.submit (.ofTexts [("$ PREFIX", line), (key, v)]) supply).session =
      s.bindPrefix l.name l.iri ∧
    (s.submit (.ofTexts [("$ PREFIX", line), (key, v)]) supply).edits =
      (Reading.edits (s.bindPrefix l.name l.iri) ⟨template, [v], [v.trim]⟩).map
        EditSet.ofEdits := by
  let fields : List Field := [("$ PREFIX", [line]), (key, [v])]
  have hf : (Submission.ofTexts [("$ PREFIX", line), (key, v)]).fields = .ok fields :=
    Submission.fields_ofTexts _
  have hprefix : Declaration.parse? "$ PREFIX" = some ⟨Special.prefixes.name, false⟩ := by
    decide +kernel
  have hnone : Declaration.parse? key = none := by
    rcases hd : Declaration.parse? key with _ | d
    · rfl
    · rw [Template.parse?_eq_none_of_declaration hd] at hkey
      cases hkey
  have hds : declarations fields = [(Special.prefixes.name, [line], false)] := by
    simp only [declarations, fields, List.filterMap_cons, List.filterMap_nil, hprefix, hnone,
      Option.map_some, Option.map_none]
  have hcandidates : (Sorted.ofFields fields).candidates = [⟨.statement template, [v]⟩] := by
    have hstatement : Key.classify key = .statement template := by
      simp [Key.classify, hnone, href, hkey]
    have hskip : Candidate.ofField? ("$ PREFIX", [line]) = none :=
      Candidate.ofField?_of_declaration hprefix
    have hkeep : Candidate.ofField? (key, [v]) = some ⟨.statement template, [v]⟩ := by
      simp only [Candidate.ofField?, hstatement]
    rw [Sorted.candidates_ofFields]
    simp only [fields, List.filterMap_cons, List.filterMap_nil, hskip, hkeep]
  have hplain : ∀ d ∈ declarations fields, d.2.2 = false := by simp [hds]
  obtain ⟨m, supply₁, hm, hvalues⟩ := Macros.resolve_of_plain hplain supply
  rw [← Sorted.table_ofFields] at hm
  have hspecials : s.applySpecials m Special.all supply₁ =
      (.ok { s with prefixes := s.prefixes.bind [l] }, supply₁) :=
    applySpecials_of_prefixes (fun sp => hvalues _ sp.ofName?_name)
      (by rw [hds]; rfl) (by rw [hds]; rfl) (by rw [hds]; simp [hl]) s supply₁
  obtain ⟨hreadings, hsession, hedits⟩ := submit_of_applySpecials hf hm hspecials
  have hread : (Candidate.readings m [⟨.statement template, [v]⟩] supply₁).1 =
      [⟨template, [v], [v.trim]⟩] := by
    simp only [Candidate.readings, Candidate.templates, Template.readAll, Template.read, he,
      Bool.false_and]
    rfl
  refine ⟨hsession, ?_⟩
  rw [hedits, hreadings, hcandidates, hread, Reading.allEdits_singleton]
  rfl

end Session

/-! ### Keys of one term -/

namespace Template

variable {w : Text}

theorem isTermWord_of_isPrefixName {p t : Text} (hp : isPrefixName p)
    (hb : ∀ c ∈ p, isBlank c = false) (ht : ∀ c ∈ t, isBlank c = false) :
    IsTermWord (p ++ ':' :: t) := by
  constructor
  · have hcut : Text.cut? ':' (p ++ ':' :: t) = some (p, t) :=
      Text.cut?_append (notMem_of_isPrefixName hp rfl rfl) t
    simp only [isTermToken, hcut, hp, Bool.true_and, List.all_eq_true]
    intro c hc
    rw [ht c hc]
    rfl
  · intro c hc
    rcases List.mem_append.1 hc with hc | hc
    · exact hb c hc
    · rcases List.mem_cons.1 hc with rfl | hc
      · rfl
      · exact ht c hc

theorem parse?_of_isTermWord (hw : IsTermWord w) :
    parse? w = some ⟨.empty, w, none, none, none, false⟩ := by
  have hwords : Text.words w = [w] := by
    have h := Text.words_append (isTermWord_iff.1 hw).2 (t := []) rfl
    rwa [List.append_nil] at h
  have hmodifiers : writesModifiers .empty [] := .inl ⟨rfl, rfl⟩
  refine parse?_of_words ⟨⟨[], hmodifiers⟩, hw, nofun, nofun, nofun, nofun, nofun⟩ hmodifiers ?_
  rw [hwords]
  rfl

theorem parse?_of_isTermWord_resource (hw : IsTermWord w) :
    parse? (w ++ " :") = some ⟨.empty, w, none, some .resource, none, false⟩ := by
  have hwords : Text.words (w ++ " :") = [w, [':']] :=
    Text.words_append (isTermWord_iff.1 hw).2 (t := " :") rfl
  have hmodifiers : writesModifiers .empty [] := .inl ⟨rfl, rfl⟩
  refine parse?_of_words (isRenderable_of_isResource hmodifiers hw nofun nofun rfl) hmodifiers ?_
  rw [hwords]
  rfl

end Template

theorem Macros.hasReferences_of_notMem {t : Text} (h : '$' ∉ t) : hasReferences t = false := by
  rw [Bool.eq_false_iff]
  intro href
  obtain ⟨x, hx⟩ := hasReferences_iff.1 href
  obtain ⟨p, braced, s, -, -, rfl⟩ := mem_names_iff_refersTo.1 hx
  cases braced <;> exact h (by simp [Piece.text])

namespace Session

variable {s : Session} {p u t v key : Text} {supply : Supply}

theorem term_of_resolve? {w : Text} {r : Resource} (hw : w ≠ []) (h : s.resolve? w = some r) :
    s.term w .resource = .ok (some r.toTerm) := by
  simp only [term, List.isEmpty_iff, if_neg hw, resolve_eq_ok_iff.2 h]
  rfl

theorem edits_of_predicate {token w : Text} {d : Option Designator} {r : Resource} {o : Term}
    (hn : s.replacement = none) (hr : s.resolve? token = some r) (hw : w ≠ [])
    (ho : s.term w (d.getD .literal) = .ok (some o)) (raw : List Text) :
    Reading.edits s ⟨⟨.empty, token, none, d, none, false⟩, raw, [w]⟩ =
      .ok [⟨.insert, some s.subject.toTerm, r.toTerm, some o, s.graph.map Resource.toTerm⟩] := by
  let st : Statement := ⟨s.subject, r, s.graph, false⟩
  have hst : Statement.ofTemplate s ⟨.empty, token, none, d, none, false⟩ = .ok st := by
    simp only [Statement.ofTemplate, resolve_eq_ok_iff.2 hr]
    rfl
  have hvalue : Statement.valueEdits s st .insert (d.getD .literal) [w] =
      .ok [st.edit .insert (some o)] := by
    have hfilter : [w].filter (fun w => !w.isEmpty) = [w] := by simp [hw]
    simp only [Statement.valueEdits, hfilter, List.mapM_cons, List.mapM_nil,
      Session.coerce_eq_term hn, ho]
    rfl
  show (Statement.ofTemplate s _ >>= fun st =>
    Statement.edits s st .empty (d.getD .literal) [w]) = _
  rw [hst]
  exact hvalue

/-- A prefix can be used in the form that declares it, whatever it stood for before and whether or
not it is a URI scheme too: as the predicate of a statement and as a value that is a resource. -/
theorem submit_boundPrefix (s : Session) (p u t v : Text) (supply : Supply)
    (hn : s.replacement = none) (hp : isPrefixName p) (hb : ∀ c ∈ p, isBlank c = false)
    (hsign : p ≠ "_") (hu : u.IsWord) (ht : ∀ c ∈ t, isBlank c = false)
    (hslash : t.head? ≠ some '/') (href : '$' ∉ t) (hv : v.trim ≠ []) :
    let form := Submission.ofTexts [("$ PREFIX", p ++ ": " ++ u), (p ++ ':' :: t, v)]
    let related := Submission.ofTexts
      [("$ PREFIX", p ++ ": " ++ u), (p ++ ':' :: t ++ " :", p ++ ':' :: t)]
    (s.submit form supply).edits = .ok ⟨[], [⟨.insert, some s.subject.toTerm, .iri (u ++ t),
      some (.literal (.plain v.trim)), s.graph.map Resource.toTerm⟩]⟩ ∧
    (s.submit form supply).session.coerce (p ++ ':' :: t) .resource =
      .ok (some (.iri (u ++ t))) ∧
    (s.submit related supply).edits = .ok ⟨[], [⟨.insert, some s.subject.toTerm, .iri (u ++ t),
      some (.iri (u ++ t)), s.graph.map Resource.toTerm⟩]⟩ := by
  intro form related
  let token : Text := p ++ ':' :: t
  let s' : Session := s.bindPrefix p u
  have hn' : s'.replacement = none := hn
  have hline := PrefixLine.parse?_of_isPrefixName hp hb hu
  have hresolve : s'.resolve? token = some (.iri (u ++ t)) :=
    resolve?_of_find? hp hsign hslash Assoc.find?_insert_self
  have hword : Template.IsTermWord token := Template.isTermWord_of_isPrefixName hp hb ht
  have hne : token ≠ [] := (Template.isTermWord_iff.1 hword).2.ne_nil
  have hvalue : s'.term token .resource = .ok (some (.iri (u ++ t))) :=
    term_of_resolve? hne hresolve
  have hnosign : '$' ∉ token := by
    have hp : '$' ∉ p := notMem_of_isPrefixName hp rfl rfl
    simp [token, hp, href]
  obtain ⟨hsession, hedits⟩ : (s.submit form supply).session = s' ∧ _ :=
    submit_of_prefixLine hline (Template.parse?_of_isTermWord hword)
      (Macros.hasReferences_of_notMem hnosign) rfl s v supply
  obtain ⟨-, hedits'⟩ := submit_of_prefixLine hline (Template.parse?_of_isTermWord_resource hword)
    (Macros.hasReferences_of_notMem (by simpa using hnosign)) rfl s token supply
  refine ⟨?_, ?_, ?_⟩
  · rw [hedits, edits_of_predicate (o := .literal (.plain v.trim)) hn' hresolve hv rfl]
    rfl
  · rw [hsession, coerce_eq_term hn', hvalue]
  · rw [hedits', Text.trim_of_isBlank hword.2,
      edits_of_predicate (d := some .resource) hn' hresolve hne hvalue]
    rfl

/-- A default prefix that is bound anew, to an IRI with colons, and one that is a URI scheme. -/
theorem submit_boundPrefix_scheme : ∃ (s : Session) (supply : Supply),
    s.prefixes.find? "rdf" = some "http://www.w3.org/1999/02/22-rdf-syntax-ns#" ∧
    (s.submit (.ofTexts [("$ PREFIX", "rdf: urn:x:y#"), ("rdf:a/b:c", " v ")]) supply).edits =
      .ok ⟨[], [⟨.insert, some (.blank "d"), .iri "urn:x:y#a/b:c", some (.literal (.plain "v")),
        some (.iri "urn:g")⟩]⟩ ∧
    (s.submit (.ofTexts [("$ PREFIX", "http: $"), ("http: :", "http:")]) supply).edits =
      .ok ⟨[], [⟨.insert, some (.blank "d"), .iri "$", some (.iri "$"), some (.iri "urn:g")⟩]⟩ := by
  let s : Session := ⟨.blank "d", some (.iri "urn:g"), Prefixes.default, none⟩
  have hrdf : Text.IsWord "rdf" := by decide
  have hlocal : Text.IsWord "a/b:c" := by decide
  have hhttp : Text.IsWord "http" := by decide
  obtain ⟨hedits, -, -⟩ := submit_boundPrefix s "rdf" "urn:x:y#" "a/b:c" " v " (.fresh id id) rfl
    rfl hrdf.isBlank (by decide) (by decide) hlocal.isBlank (by decide) (by decide) (by decide)
  obtain ⟨-, -, hedits'⟩ := submit_boundPrefix s "http" "$" "" " v " (.fresh id id) rfl
    rfl hhttp.isBlank (by decide) (by decide) nofun nofun nofun (by decide)
  exact ⟨s, .fresh id id, by decide, hedits, hedits'⟩

end Session

end FormEdits
