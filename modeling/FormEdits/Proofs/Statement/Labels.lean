import FormEdits.Proofs.Statement.Terms

/-! # Labels of blank nodes

The label of a blank node is written as it is, so a label with a blank or a bracket in it can end
its operation and begin another. Labels come from the tokens of keys, which hold no blanks, from the
subject and the graph of the session, and from values under two of the designators, where nothing
but the blanks at the ends is checked (`Session.submit_labels`). -/

namespace FormEdits

/-- Characters that end a label, or end or open a block, an IRI or a literal. -/
def endsLabel (c : Char) : Bool := isBlank c || ("\x7b\x7d;<>\"" : Text).contains c

/-- A label that is written as one word, with nothing in it that reaches beyond it. -/
def IsSafeLabel (l : Text) : Prop := l ≠ [] ∧ l.any endsLabel = false

instance (l : Text) : Decidable (IsSafeLabel l) :=
  inferInstanceAs (Decidable (l ≠ [] ∧ l.any endsLabel = false))

/-- Some edit has the blank node with the label. -/
def EditSet.HasLabel (set : EditSet) (l : Text) : Prop := ∃ e ∈ set.toList, Term.blank l ∈ e.terms

def Resource.label? : Resource → Option Text
  | .blank l => some l
  | .iri _ => none

theorem Resource.label?_eq_some_iff {r : Resource} {l : Text} :
    r.label? = some l ↔ r = .blank l := by
  cases r <;> simp [label?]

/-- The label of the blank node that a value becomes under a designator, if it becomes one. -/
def Designator.label? (d : Designator) (value : Text) : Option Text :=
  match d with
  | .resource => Session.blankLabel? value
  | .blank => some ((Session.blankLabel? value).getD value)
  | _ => none

namespace Session

variable {s s' : Session} {l : Text}

theorem resolve?_eq_some_blank_iff {token : Text} :
    s.resolve? token = some (.blank l) ↔ blankLabel? token = some l := by
  rw [resolve?_eq_some_iff, locate]
  rcases blankLabel? token with _ | label
  · rcases s.prefixed? token with _ | t
    · constructor
      · intro h
        obtain ⟨t, -, ht⟩ := exists_ok_of_map h
        cases ht
      · intro h; cases h
    · simp
  · simp

theorem resource?_eq_blank_iff {w : Text} {d : Designator} :
    s.resource? d w = some (.blank l) ↔ d.label? w = some l := by
  cases d with
  | resource => exact resolve?_eq_some_blank_iff
  | blank => simp [resource?, Designator.label?]
  | literal => simp [resource?, Designator.label?]
  | language tag => simp [resource?, Designator.label?]
  | datatype token => simp [resource?, Designator.label?]

/-! ### The session -/

/-- The last of the values is a blank node with the label. -/
def LastLabel (values : List Text) (l : Text) : Prop :=
  ∃ v, values.getLast? = some v ∧ blankLabel? v.trim = some l

theorem NamesLast.eq_blank_iff {values : List Text} {r : Resource} (h : s.NamesLast values r) :
    r = .blank l ↔ LastLabel values l := by
  obtain ⟨v, hlast, -, hr⟩ := h
  constructor
  · rintro rfl
    exact ⟨v, hlast, resolve?_eq_some_blank_iff.1 hr⟩
  · rintro ⟨v', hlast', htrim⟩
    rw [hlast] at hlast'
    cases hlast'
    rw [resolve?_eq_some_blank_iff.2 htrim] at hr
    exact (Option.some.inj hr).symm

theorem ChangedBy.subject_eq_blank_iff {values : Special → List Text} (h : s.ChangedBy values s') :
    s'.subject = .blank l ↔
      if values .subject = [] then s.subject = .blank l else LastLabel (values .subject) l := by
  have hsubject := h.subject
  split at hsubject
  · rename_i hnil
    rw [if_pos hnil, hsubject]
  · rename_i hne
    rw [if_neg hne, hsubject.eq_blank_iff]

theorem ChangedBy.graph_eq_blank_iff {values : Special → List Text} (h : s.ChangedBy values s') :
    s'.graph = some (.blank l) ↔
      if values .graph = [] then s.graph = some (.blank l) else LastLabel (values .graph) l := by
  have hgraph := h.graph
  split at hgraph
  · rename_i hnil
    rw [if_pos hnil, hgraph]
  · rename_i hne
    obtain ⟨g, hg, hlast⟩ := hgraph
    rw [if_neg hne, hg, Option.some.injEq, hlast.eq_blank_iff]

end Session

/-! ### Readings -/

namespace Reading

variable {s : Session} {r : Reading} {l : Text}

/-- The labels of the blank nodes that a reading takes from its key, the session and its values. -/
def labels (s : Session) (r : Reading) : List Text :=
  r.template.terms.filterMap Session.blankLabel? ++
    (if r.template.term2 = none then s.subject.label?.toList else []) ++
    (if r.template.graph = none then (s.graph.bind Resource.label?).toList else []) ++
    (Statement.used r.template.modifiers r.values).filterMap r.template.effectiveDesignator.label?

theorem mem_labels_iff : l ∈ r.labels s ↔ .blank l ∈ r.resources s := by
  have hsubject : s.subject.label? = some l ↔ Resource.blank l = s.subject := by
    rw [Resource.label?_eq_some_iff, eq_comm]
  have hgraph : s.graph.bind Resource.label? = some l ↔ s.graph = some (.blank l) := by
    simp [Option.bind_eq_some_iff, Resource.label?_eq_some_iff]
  simp [labels, mem_resources, Session.resolve?_eq_some_blank_iff, Session.resource?_eq_blank_iff,
    hsubject, hgraph, or_assoc]

end Reading

theorem Template.IsRenderable.isTermWord_of_mem_terms {t : Template} (h : t.IsRenderable)
    {token : Text} (ht : token ∈ t.terms) : IsTermWord token := by
  rcases List.mem_cons.1 ht with rfl | ht
  · exact h.term1
  rcases List.mem_append.1 ht with ht | ht
  · exact h.term2 token (Option.mem_toList.1 ht)
  · exact h.graph token (Option.mem_toList.1 ht)

/-! ### Forms -/

namespace Session

/-- The labels of the blank nodes in the edits of a form are those in its keys, those of the subject
and the graph it leaves, and those of its values under the two designators of resources; so they are
safe to be written exactly if all of these are. Labels in keys hold no blanks. The labels of the
subject and the graph are those that the last values of their macros write, or are kept. -/
theorem submit_labels (s : Session) (form : Submission) (supply : Supply) (set : EditSet)
    (hn : s.replacement = none) (h : (s.submit form supply).edits = .ok set) :
    (∀ l, set.HasLabel l ↔ ∃ r ∈ s.readings form supply,
      r.HasEdits ∧ l ∈ r.labels (s.submit form supply).session) ∧
    ((∀ l, set.HasLabel l → IsSafeLabel l) ↔ ∀ r ∈ s.readings form supply, r.HasEdits →
      ∀ l ∈ r.labels (s.submit form supply).session, IsSafeLabel l) ∧
    (∀ r ∈ s.readings form supply, ∀ token ∈ r.template.terms, ∀ c ∈ token, isBlank c = false) ∧
    ∃ fields m supply', form.fields = .ok fields ∧
      Macros.resolve (.ofDeclarations (declarations fields)) supply = (.ok m, supply') ∧
      ∀ l, ((s.submit form supply).session.subject = .blank l ↔
          if m.texts Special.subject.name = [] then s.subject = .blank l
          else LastLabel (m.texts Special.subject.name) l) ∧
        ((s.submit form supply).session.graph = some (.blank l) ↔
          if m.texts Special.graph.name = [] then s.graph = some (.blank l)
          else LastLabel (m.texts Special.graph.name) l) := by
  have hlabels : ∀ l, set.HasLabel l ↔ ∃ r ∈ s.readings form supply,
      r.HasEdits ∧ l ∈ r.labels (s.submit form supply).session := by
    intro l
    simp only [Reading.mem_labels_iff]
    exact mem_terms_iff (u := .blank l) hn h
  refine ⟨hlabels, ?_, fun r hr token ht => ?_, ?_⟩
  · simp only [hlabels]
    exact ⟨fun hsafe r hr hhas l hl => hsafe l ⟨r, hr, hhas, hl⟩,
      fun hsafe l ⟨r, hr, hhas, hl⟩ => hsafe r hr hhas l hl⟩
  · exact ((isRenderable_of_mem_readings hr).isTermWord_of_mem_terms ht).2
  · rcases submit_cases hn form supply with ⟨hrefused, -⟩ | ⟨-, fields, m, supply', hf, hm, -, hc⟩
    · rw [Outcome.isRefused, h] at hrefused
      cases hrefused
    · have hchanged := (hc _).2 rfl
      exact ⟨fields, m, supply', hf, hm, fun l =>
        ⟨hchanged.subject_eq_blank_iff, hchanged.graph_eq_blank_iff⟩⟩

/-- A form with labels of every kind. The unsafe one is in a value that is not used. -/
def labelled : Submission :=
  .ofFields [("$ SUBJECT", ["no blank node", " _:s "]), ("p:a _", ["v", "_:w"]),
    ("_:k p:b : _:g", ["_:x"]), ("- p:c _", ["x . \x7d ; DROP ALL", ""])]

theorem submit_labels_labelled : ∃ (s : Session) (set : EditSet),
    (s.submit labelled (.fresh id id)).edits = .ok set ∧
    (∀ l ∈ (["s", "v", "w", "k", "g", "x"] : List Text), set.HasLabel l) ∧
    ∀ l, set.HasLabel l → IsSafeLabel l := by
  let s : Session := ⟨.iri "urn:a", none, Prefixes.default, none⟩
  let outcome := s.submit labelled (.fresh id id)
  let set : EditSet := outcome.edits.toOption.getD .empty
  have hset : outcome.edits = .ok set := eq_ok_getD (by decide +kernel) _
  obtain ⟨hlabels, hsafe, -, -⟩ := submit_labels s labelled (.fresh id id) set rfl hset
  have hall : ∀ l ∈ (["s", "v", "w", "k", "g", "x"] : List Text),
      ∃ r ∈ s.readings labelled (.fresh id id), r.HasEdits ∧ l ∈ r.labels outcome.session := by
    decide +kernel
  exact ⟨s, set, hset, fun l hl => (hlabels l).2 (hall l hl), hsafe.2 (by decide +kernel)⟩

/-- The value of a blank node that ends its operation and adds another one to the request. -/
def injecting : Submission :=
  .ofFields [("p:a _", ["x . \x7d ; DROP ALL ; INSERT DATA \x7b <urn:a> <urn:b> _:y"])]

theorem submit_labels_injecting : ∃ (s : Session) (set : EditSet) (l : Text),
    (s.submit injecting (.fresh id id)).edits = .ok set ∧ set.HasLabel l ∧ ¬ IsSafeLabel l ∧
    set.sparql = .ok ("INSERT DATA \x7b\n  <urn:s> <p:a> _:x . \x7d ; DROP ALL ; " ++
      "INSERT DATA \x7b <urn:a> <urn:b> _:y .\n\x7d" : String) := by
  let l : Text := "x . \x7d ; DROP ALL ; INSERT DATA \x7b <urn:a> <urn:b> _:y"
  let set : EditSet :=
    ⟨[], [⟨.insert, some (.iri "urn:s"), .iri "p:a", some (.blank l), none⟩]⟩
  exact ⟨⟨.iri "urn:s", none, Prefixes.default, none⟩, set, l, eq_ok_of_toOption (by decide +kernel),
    ⟨_, List.mem_singleton_self _, by decide +kernel⟩, by decide +kernel,
    eq_ok_of_toOption (by decide +kernel)⟩

end Session

end FormEdits
