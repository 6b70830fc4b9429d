import FormEdits.Command.Run
import FormEdits.Proofs.Edit.Writable
import FormEdits.Proofs.Session.Invariant
import FormEdits.Proofs.Statement.Terms
import FormEdits.Proofs.Uri.Characters

/-! # Forms whose edits can be written

Whether an IRI can be written is not asked before it is, so a form may be accepted whose edits
cannot: exactly if one of its readings has a resource with a forbidden character. It has none if
there is none in the session, in the tokens of its keys and in the values that are references, since
resolving puts no others in (`Session.submit_writable`). -/

namespace FormEdits

/-- No character of the text is forbidden in an IRI that is written. -/
def Text.isClean (t : Text) : Bool := !t.any Written.isForbidden

theorem Text.isClean_iff {t : Text} :
    t.isClean ↔ t.Within fun c => Written.isForbidden c = false := by
  rw [isClean, Bool.not_eq_true', List.any_eq_false]
  simp only [Bool.not_eq_true, Text.Within]

theorem Uri.holdsInUris_isForbidden : HoldsInUris fun c => Written.isForbidden c = false where
  delimiter := fun c hc => by
    have hall : ("/:?#;" : Text).all (!Written.isForbidden ·) := by decide +kernel
    simpa using List.all_eq_true.1 hall c hc
  lower := fun c hc => by
    have hall : ("<>\" \x7b\x7d|\\^`" : Text).all fun d => d.toNat < 97 || 122 < d.toNat := by
      decide +kernel
    rcases toLower_cases c with hsame | hrange
    · rwa [hsame]
    · by_contra hf
      have hmem := List.contains_iff_mem.1 (Bool.eq_true_of_not_eq_false hf)
      have hsmall := List.all_eq_true.1 hall _ hmem
      simp only [Bool.or_eq_true, decide_eq_true_eq] at hsmall
      omega

/-! ### Sessions -/

theorem Prefixes.find?_bind {p : Prefixes} {lines : List PrefixLine} {name t : Text}
    (h : (p.bind lines).find? name = some t) :
    p.find? name = some t ∨ ∃ l ∈ lines, l.iri = t := by
  induction lines generalizing p with
  | nil => exact .inl h
  | cons l lines ih =>
    rcases ih h with hp | ⟨l', hl', ht⟩
    · change (p.alter l.name fun _ => l.iri).find? name = some t at hp
      by_cases hn : name = l.name
      · rw [hn, Assoc.find?_alter_self] at hp
        exact .inr ⟨l, List.mem_cons_self .., Option.some.inj hp⟩
      · rw [Assoc.find?_alter_of_ne _ hn] at hp
        exact .inl hp
    · exact .inr ⟨l', List.mem_cons_of_mem _ hl', ht⟩

theorem Prefixes.isClean_default {name t : Text} (h : Prefixes.default.find? name = some t) :
    t.isClean := by
  obtain ⟨before, after, hmem, -⟩ := List.lookup_eq_some_iff.1 h
  have hall : ∀ b ∈ Prefixes.default, b.2.isClean := by decide +kernel
  exact hall (name, t) (hmem ▸ List.mem_append_right _ (List.mem_cons_self ..))

namespace Session

variable {s s' : Session}

/-- No IRI of the session has a forbidden character. -/
structure IsClean (s : Session) : Prop where
  subject : s.subject.isWritable
  graph : ∀ g, s.graph = some g → g.isWritable
  prefixes : ∀ name t, s.prefixes.find? name = some t → t.isClean

theorem IsClean.resolve? (h : s.IsClean) {token : Text} (ht : token.isClean) {u : Resource}
    (hu : s.resolve? token = some u) : u.isWritable := by
  rw [resolve?_eq_some_iff, locate] at hu
  split at hu
  · cases hu; rfl
  · split at hu
    · rename_i t hprefixed
      cases hu
      rw [prefixed?] at hprefixed
      obtain ⟨⟨name, rest⟩, hcut, hprefixed⟩ := Option.bind_eq_some_iff.1 hprefixed
      dsimp only at hprefixed
      split at hprefixed
      · cases hprefixed
      · obtain ⟨iri, hfind, rfl⟩ := Option.map_eq_some_iff.1 hprefixed
        have hrest := ((Text.isClean_iff.1 ht).cut? hcut).2
        exact Text.isClean_iff.2
          (Text.within_append.2 ⟨Text.isClean_iff.1 (h.prefixes name iri hfind), hrest⟩)
    · obtain ⟨t, hjoin, rfl⟩ := exists_ok_of_map hu
      have hbase : s.base.isClean := by
        have hsubject := h.subject
        rw [base]
        rcases hs : s.subject with t | l
        · rw [hs] at hsubject
          exact hsubject
        · rfl
      exact Text.isClean_iff.2 (Uri.within_join Uri.holdsInUris_isForbidden
        (Text.isClean_iff.1 hbase) (Text.isClean_iff.1 ht) hjoin)

/-- The last values of the special macros that name resources, and the IRIs of prefix lines, have no
forbidden character. -/
structure CleanSpecials (values : Special → List Text) : Prop where
  subject : ∀ v ∈ (values .subject).getLast?, v.trim.isClean
  graph : ∀ v ∈ (values .graph).getLast?, v.trim.isClean
  prefixes : ∀ lines, (values .prefixes).mapM PrefixLine.parse? = some lines →
    ∀ l ∈ lines, l.iri.isClean

theorem IsClean.namesLast (h : s.IsClean) {values : List Text} {u : Resource}
    (hv : ∀ v ∈ values.getLast?, v.trim.isClean) (hu : s.NamesLast values u) : u.isWritable := by
  obtain ⟨v, hlast, -, hr⟩ := hu
  exact h.resolve? (hv v hlast) hr

theorem IsClean.changedBy {values : Special → List Text} (h : s.IsClean)
    (hv : CleanSpecials values) (hc : s.ChangedBy values s') : s'.IsClean := by
  have hsubject : s'.subject.isWritable := by
    have hchanged := hc.subject
    split at hchanged
    · rw [hchanged]; exact h.subject
    · exact h.namesLast hv.subject hchanged
  have hmoved : ({ s with subject := s'.subject } : Session).IsClean := ⟨hsubject, h.graph, h.prefixes⟩
  refine ⟨hsubject, fun g hg => ?_, fun name t ht => ?_⟩
  · have hchanged := hc.graph
    split at hchanged
    · exact h.graph g (hchanged ▸ hg)
    · obtain ⟨g', hg', hlast⟩ := hchanged
      rw [hg] at hg'
      cases hg'
      exact hmoved.namesLast hv.graph hlast
  · obtain ⟨lines, hlines, hprefixes⟩ := hc.prefixes
    rw [hprefixes] at ht
    rcases Prefixes.find?_bind ht with hp | ⟨l, hl, rfl⟩
    · exact h.prefixes name t hp
    · exact hv.prefixes lines hlines l hl

end Session

/-! ### Readings -/

namespace Reading

variable {s : Session} {r : Reading}

/-- No token of the key and no value that is a reference has a forbidden character. -/
structure IsClean (r : Reading) : Prop where
  terms : ∀ token ∈ r.template.terms, token.isClean
  values : r.template.effectiveDesignator = .resource →
    ∀ v ∈ Statement.used r.template.modifiers r.values, v.isClean

theorem IsClean.resources (h : r.IsClean) (hs : s.IsClean) :
    ∀ u ∈ r.resources s, u.isWritable := by
  intro u hu
  rcases mem_resources.1 hu with (⟨token, ht, hr⟩ | ⟨-, rfl⟩ | ⟨-, hg⟩) | ⟨w, hw, hr⟩
  · exact hs.resolve? (h.terms token ht) hr
  · exact hs.subject
  · exact hs.graph u hg
  · rw [Session.resource?.eq_def] at hr
    split at hr
    · rename_i hd
      exact hs.resolve? (h.values hd w hw) hr
    · cases hr; rfl
    · cases hr

end Reading

/-! ### Forms -/

/-- A well-formed edit set is written in every format, or fails with errors that its terms have. -/
theorem Command.errorsIn_format {P : Error → Prop} {set : EditSet} (h : set.WellFormed)
    (ht : ∀ e ∈ set.toList, e.TermErrorsIn P) (f : Format) : ErrorsIn P (format set f) := by
  cases f with
  | sparql => exact h.errorsIn_sparql ht
  | json => exact (EditSet.errorsIn_report ht).map
  | nquads => exact (h.errorsIn_insertLines ht).map

namespace Session

/-- The edits of an accepted form are written as an update exactly if no resource of its readings
has a forbidden character, and the same holds of the report. If they are not written, in whichever
format, then such a resource is the reason. A form whose text is free of these characters, read in
such a session, leaves such a session, and its edits are written in every format. -/
theorem submit_writable (s : Session) (form : Submission) (supply : Supply) (set : EditSet)
    (hn : s.replacement = none) (h : (s.submit form supply).edits = .ok set) :
    ((∃ text, set.sparql = .ok text) ↔ ∀ r ∈ s.readings form supply, r.HasEdits →
      ∀ u ∈ r.resources (s.submit form supply).session, u.isWritable) ∧
    ((∃ report, set.report = .ok report) ↔ ∀ r ∈ s.readings form supply, r.HasEdits →
      ∀ u ∈ r.resources (s.submit form supply).session, u.isWritable) ∧
    (∀ f e, Command.format set f = .error e →
      ∃ iri, e = .unwritable iri ∧ Resource.isWritable (.iri iri) = false ∧
        ∃ r ∈ s.readings form supply, r.HasEdits ∧
          .iri iri ∈ r.resources (s.submit form supply).session) ∧
    ∀ fields m supply', form.fields = .ok fields →
      Macros.resolve (.ofDeclarations (declarations fields)) supply = (.ok m, supply') →
      s.IsClean → CleanSpecials (fun sp => m.texts sp.name) →
      (s.submit form supply).session.IsClean ∧
        ((∀ r ∈ s.readings form supply, r.IsClean) → ∀ f, ∃ text, Command.format set f = .ok text) := by
  have hset := wellFormed_of_submit hn h
  have hterms : (∀ e ∈ set.toList, e.IsWritable) ↔ ∀ r ∈ s.readings form supply, r.HasEdits →
      ∀ u ∈ r.resources (s.submit form supply).session, u.isWritable := by
    simp only [Edit.isWritable_iff]
    constructor
    · intro hw r hr hhas u hu
      obtain ⟨e, he, hmem⟩ := (mem_terms_iff hn h).2 ⟨r, hr, hhas, hu⟩
      exact hw e he u hmem
    · intro hw e he u hu
      obtain ⟨r, hr, hhas, hmem⟩ := (mem_terms_iff hn h).1 ⟨e, he, hu⟩
      exact hw r hr hhas u hmem
  have hformat : ∀ f, ErrorsIn (UnwritableAmong fun u => ∃ r ∈ s.readings form supply,
      r.HasEdits ∧ u ∈ r.resources (s.submit form supply).session) (Command.format set f) := by
    refine Command.errorsIn_format hset fun e he t ht err herr => ?_
    obtain ⟨iri, rfl, hiri, rfl⟩ := Written.unwritableAmong_term t err herr
    exact ⟨iri, rfl, hiri, (mem_terms_iff hn h).1 ⟨e, he, ht⟩⟩
  refine ⟨hset.exists_sparql_iff.trans hterms, EditSet.exists_report_iff.trans hterms,
    hformat, ?_⟩
  intro fields m supply' hf hm hs hv
  rcases submit_cases hn form supply with ⟨hrefused, -⟩ | ⟨-, fields', m', _, hf', hm', -, hc⟩
  · rw [Outcome.isRefused, h] at hrefused
    cases hrefused
  rw [hf] at hf'
  cases hf'
  rw [hm] at hm'
  cases hm'
  have hclean := hs.changedBy hv ((hc _).2 rfl)
  refine ⟨hclean, fun hread f => Succeeds.exists_ok fun e he => ?_⟩
  obtain ⟨iri, -, hiri, r, hr, -, hmem⟩ := hformat f e he
  rw [(hread r hr).resources hclean _ hmem] at hiri
  cases hiri

/-- References of all kinds. Only values that are no references have characters that an IRI must not
have. -/
def references : List Field :=
  [("$ SUBJECT", ["x y", " ../b "]), ("$ PREFIX", ["ex : http://ex.example/"]),
    ("ex:p :", ["c?q#", "_:n"]), ("= ex:q", ["<text> with `signs`"]), ("_:k ex:r _ ex:g", ["a|b"])]

theorem submit_writable_references : ∃ (s : Session) (set : EditSet),
    (s.submit (.ofFields references) (.fresh id id)).edits = .ok set ∧ s.IsClean ∧
    (∀ f, ∃ text, Command.format set f = .ok text) ∧ set.size = 5 ∧
    ∃ e ∈ set.inserts, e.object = some (.iri "http://a.example/c?q#") := by
  let s : Session := ⟨.iri "http://a.example/dir/a", none, Prefixes.default, none⟩
  let outcome := s.submit (.ofFields references) (.fresh id id)
  let set : EditSet := outcome.edits.toOption.getD .empty
  have hset : outcome.edits = .ok set := eq_ok_getD (by decide +kernel) _
  have hs : s.IsClean := ⟨by decide +kernel, fun g hg => (by cases hg),
    fun name t => Prefixes.isClean_default⟩
  let resolved := Macros.resolve (.ofDeclarations (declarations references)) (.fresh id id)
  let m : Expansions := resolved.1.toOption.getD []
  have hm : resolved = (.ok m, resolved.2) := Prod.ext (eq_ok_getD (by decide +kernel) _) rfl
  have hspecials : CleanSpecials fun sp => m.texts sp.name := by
    refine ⟨by decide +kernel, by decide +kernel, fun lines hl => ?_⟩
    have hparsed : (m.texts Special.prefixes.name).mapM PrefixLine.parse? =
        some [⟨"ex", "http://ex.example/"⟩] := by decide +kernel
    rw [hparsed] at hl
    cases hl
    decide +kernel
  obtain ⟨-, -, -, hclean⟩ := submit_writable s (.ofFields references) (.fresh id id) set rfl hset
  have hread : ∀ r ∈ s.readings (.ofFields references) (.fresh id id),
      (∀ token ∈ r.template.terms, token.isClean) ∧
      (r.template.effectiveDesignator = .resource →
        ∀ v ∈ Statement.used r.template.modifiers r.values, v.isClean) := by decide +kernel
  have hformat := (hclean references m _ rfl hm hs hspecials).2
    fun r hr => ⟨(hread r hr).1, (hread r hr).2⟩
  exact ⟨s, set, hset, hs, hformat, by decide +kernel, by decide +kernel⟩

/-- A reference with a blank in it is accepted, and cannot be written. -/
theorem submit_writable_unwritable : ∃ (s : Session) (set : EditSet),
    (s.submit (.ofFields [("p:a :", ["http://a.example/b c"])]) (.fresh id id)).edits = .ok set ∧
    (∀ text, set.sparql ≠ .ok text) ∧ (∀ report, set.report ≠ .ok report) ∧
    Command.format set .sparql = .error (.unwritable "http://a.example/b c") := by
  let set : EditSet := ⟨[],
    [⟨.insert, some (.iri "urn:s"), .iri "p:a", some (.iri "http://a.example/b c"), none⟩]⟩
  have hterm : ¬ ∀ e ∈ set.toList, e.IsWritable := by
    intro hw
    have hu := Edit.isWritable_iff.1 (hw _ (List.mem_singleton_self _))
      (.iri "http://a.example/b c") (by decide +kernel)
    exact absurd hu (by decide +kernel)
  refine ⟨⟨.iri "urn:s", none, Prefixes.default, none⟩, set, eq_ok_of_toOption (by decide +kernel),
    fun text ht => hterm (EditSet.isWritable_of_sparql ht),
    fun report hr => hterm (EditSet.isWritable_of_report hr), ?_⟩
  rfl

end Session

end FormEdits
