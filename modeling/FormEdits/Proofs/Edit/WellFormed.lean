import FormEdits.Edit.QuadLines
import FormEdits.Edit.Report
import FormEdits.Proofs.Edit.Written

/-! # Well-formed edits

An edit is well formed if its subject, its predicate and its graph are resources, as far as it has
them, and if it leaves out one term at most, a delete alone. Well-formed edit sets can be applied to
every store (`EditSet.WellFormed.apply`). Writing them can only fail at an IRI whose text cannot be
written, and so never for a term that is missing. -/

namespace FormEdits

structure Edit.WellFormed (e : Edit) : Prop where
  graph : e.graph.all Term.isResource
  predicate : e.predicate.isResource
  subject : e.subject.all Term.isResource
  oneWildcard : e.subject.isSome ∨ e.object.isSome
  insert : e.operation = .insert → e.isWildcard = false

/-- All edits are well formed and listed as what they are. -/
structure EditSet.WellFormed (set : EditSet) : Prop where
  edits : ∀ e ∈ set.toList, e.WellFormed
  deletes : ∀ e ∈ set.deletes, e.operation = .delete
  inserts : ∀ e ∈ set.inserts, e.operation = .insert

theorem EditSet.wellFormed_ofEdits {es : List Edit} (h : ∀ e ∈ es, e.WellFormed) :
    (EditSet.ofEdits es).WellFormed where
  edits := by
    intro e he
    rcases List.mem_append.1 he with he | he
    · exact h e (List.mem_of_mem_filter he)
    · exact h e (List.mem_of_mem_filter he)
  deletes := fun e he => of_decide_eq_true (List.mem_filter.1 he).2
  inserts := fun e he => of_decide_eq_true (List.mem_filter.1 he).2

/-! ### Writing

Writing an edit set fails only as writing one of its terms does, and so only at an IRI. -/

/-- A computation that fails at most at an IRI that cannot be written. -/
abbrev UnwritableOnly {α : Type} (x : Except Error α) : Prop :=
  ErrorsIn (fun e => ∃ iri, e = .unwritable iri) x

variable {P : Error → Prop}

namespace Written

theorem unwritableOnly_term (t : Term) : UnwritableOnly (term t) := by
  cases t with
  | iri t =>
    rw [term, iri]
    split
    · exact .error ⟨t, rfl⟩
    · exact .ok _
  | blank l => exact .ok _
  | literal l => exact .ok _

theorem errorsIn_termOnLine {t : Term} (h : ErrorsIn P (term t)) : ErrorsIn P (termOnLine t) := by
  cases t with
  | iri t => exact h
  | blank l => exact .ok _
  | literal l => exact .ok _

end Written

/-- The terms of the edit are written or fail with errors of `P`. -/
abbrev Edit.TermErrorsIn (P : Error → Prop) (e : Edit) : Prop :=
  ∀ t ∈ e.terms, ErrorsIn P (Written.term t)

namespace Sparql

/-- All places of a pattern are written. -/
structure Pattern.Complete (p : Pattern) : Prop where
  subject : p.subject ≠ .missing
  predicate : p.predicate ≠ .missing
  object : p.object ≠ .missing

theorem Slot.errorsIn_text {s : Slot} (h : s ≠ .missing)
    (ht : ∀ t, s = .term t → ErrorsIn P (Written.term t)) : ErrorsIn P s.text := by
  rcases s with t | x | _
  · exact ht t rfl
  · exact .ok _
  · exact (h rfl).elim

theorem Pattern.Complete.errorsIn_text {p : Pattern} (h : p.Complete)
    (ht : ∀ t, p.subject = .term t ∨ p.predicate = .term t ∨ p.object = .term t →
      ErrorsIn P (Written.term t)) : ErrorsIn P p.text := by
  have hs := Slot.errorsIn_text h.subject fun t hs => ht t (.inl hs)
  have hv := Slot.errorsIn_text h.predicate fun t hv => ht t (.inr (.inl hv))
  have ho := Slot.errorsIn_text h.object fun t ho => ht t (.inr (.inr ho))
  exact hs.bind fun _ => hv.bind fun _ => ho.bind fun _ => .ok _

end Sparql

open Sparql

namespace Edit

variable {e : Edit}

theorem complete_pattern (e : Edit) : e.pattern.Complete := by
  have hslot : ∀ (x : Text) (t : Option Term), patternSlot e.blankLabels x t ≠ .missing := by
    intro x t
    rcases t with _ | (iri | label | l)
    · exact Slot.noConfusion
    · exact Slot.noConfusion
    · exact Slot.noConfusion
    · exact Slot.noConfusion
  exact ⟨hslot _ _, hslot _ _, hslot _ _⟩

theorem complete_triple (h : e.isWildcard = false) : e.triple.Complete := by
  obtain ⟨s, o, hs, ho⟩ := eq_some_of_isWildcard h
  rw [triple, hs, ho]
  exact ⟨Slot.noConfusion, Slot.noConfusion, Slot.noConfusion⟩

theorem isWildcard_of_needsPattern (h : e.needsPattern = false) : e.isWildcard = false := by
  simp only [needsPattern, Bool.or_eq_false_iff] at h
  exact h.1.1.1

theorem eq_some_of_patternSlot {labels : List Text} {x : Text} {o : Option Term} {t : Term}
    (h : patternSlot labels x o = .term t) : o = some t := by
  rcases o with _ | (iri | label | l)
  · cases h
  · cases h; rfl
  · cases h
  · cases h; rfl

theorem eq_some_of_getD {o : Option Term} {t : Term}
    (h : (o.map Slot.term).getD .missing = .term t) : o = some t := by
  rcases o with _ | u
  · cases h
  · cases h; rfl

theorem TermErrorsIn.pattern (h : e.TermErrorsIn P) : ErrorsIn P e.pattern.text := by
  refine e.complete_pattern.errorsIn_text fun t ht => h t (mem_terms.2 ?_)
  rcases ht with hs | hv | ho
  · exact .inl (eq_some_of_patternSlot hs)
  · exact .inr (.inl (Option.some.inj (eq_some_of_patternSlot hv)))
  · exact .inr (.inr (.inl (eq_some_of_patternSlot ho)))

theorem TermErrorsIn.triple (h : e.TermErrorsIn P) (hw : e.isWildcard = false) :
    ErrorsIn P e.triple.text := by
  refine (complete_triple hw).errorsIn_text fun t ht => h t (mem_terms.2 ?_)
  rcases ht with hs | hv | ho
  · exact .inl (eq_some_of_getD hs)
  · exact .inr (.inl (Slot.term.inj hv))
  · exact .inr (.inr (.inl (eq_some_of_getD ho)))

theorem TermErrorsIn.graph (h : e.TermErrorsIn P) (g : Term) (hg : e.graph = some g) :
    ErrorsIn P (Written.term g) :=
  h g (mem_terms.2 (.inr (.inr (.inr hg))))

theorem TermErrorsIn.report (h : e.TermErrorsIn P) : ErrorsIn P e.report := by
  have hs : ErrorsIn P (e.subject.mapM Written.term) :=
    .mapM_option fun t ht => h t (mem_terms.2 (.inl ht))
  have hp := h e.predicate (mem_terms.2 (.inr (.inl rfl)))
  have ho : ErrorsIn P (e.object.mapM Written.term) :=
    .mapM_option fun t ht => h t (mem_terms.2 (.inr (.inr (.inl ht))))
  have hg : ErrorsIn P (e.graph.mapM Written.term) := .mapM_option h.graph
  exact hs.bind fun _ => hp.bind fun _ => ho.bind fun _ => hg.bind fun _ => .ok _

theorem TermErrorsIn.line (h : e.TermErrorsIn P) {q : Quad} (hq : e.quad .dataset = .ok q) :
    ErrorsIn P q.line := by
  rw [quad] at hq
  split at hq
  · rename_i s o hes heo
    cases hq
    have hs := h s (mem_terms.2 (.inl hes))
    have hp := h e.predicate (mem_terms.2 (.inr (.inl rfl)))
    have ho := Written.errorsIn_termOnLine (h o (mem_terms.2 (.inr (.inr (.inl heo)))))
    have hg : ErrorsIn P ((StoreKind.dataset.place e.graph).mapM Written.term) := by
      rw [StoreKind.place]
      split
      · exact .ok _
      · exact .mapM_option h.graph
    exact hs.bind fun _ => hp.bind fun _ => ho.bind fun _ => hg.bind fun _ => .ok _
  · cases hq
  · cases hq

end Edit

theorem Quad.mem_of_mem_distinct {quads : List Quad} {q : Quad} (h : q ∈ distinct quads) :
    q ∈ quads := by
  have hfold : ∀ (quads kept : List Quad), q ∈ quads.foldl
      (fun kept q => if kept.any q.same then kept else kept ++ [q]) kept → q ∈ kept ∨ q ∈ quads := by
    intro quads
    induction quads with
    | nil => exact fun kept hq => .inl hq
    | cons q' quads ih =>
      intro kept hq
      rcases ih _ hq with hq | hq
      · dsimp only at hq
        split at hq
        · exact .inl hq
        · rcases List.mem_append.1 hq with hq | hq
          · exact .inl hq
          · exact .inr (List.mem_singleton.1 hq ▸ List.mem_cons_self ..)
      · exact .inr (List.mem_cons_of_mem _ hq)
  exact (hfold quads [] h).resolve_left (List.not_mem_nil)

theorem EditSet.errorsIn_report {set : EditSet} (h : ∀ e ∈ set.toList, e.TermErrorsIn P) :
    ErrorsIn P set.report :=
  (ErrorsIn.mapM fun e he => (h e (List.mem_append_left _ he)).report).bind fun _ =>
    (ErrorsIn.mapM fun e he => (h e (List.mem_append_right _ he)).report).bind fun _ => .ok _

theorem EditSet.unwritableOnly_report (set : EditSet) : UnwritableOnly set.report :=
  errorsIn_report fun _ _ t _ => Written.unwritableOnly_term t

namespace EditSet.WellFormed

variable {set : EditSet}

theorem inserts_isWildcard (h : set.WellFormed) : ∀ e ∈ set.inserts, e.isWildcard = false :=
  fun e he => (h.edits e (List.mem_append_right _ he)).insert (h.inserts e he)

/-- A well-formed edit set can be applied to every store. -/
theorem apply (h : set.WellFormed) (store : Store) : ∃ store', set.apply store = .ok store' := by
  obtain ⟨store', ha, -, -⟩ := view_apply h.inserts_isWildcard store
  exact ⟨store', ha⟩

theorem errorsIn_sparql (h : set.WellFormed) (ht : ∀ e ∈ set.toList, e.TermErrorsIn P) :
    ErrorsIn P set.sparql := by
  have hdeletes : ∀ e ∈ set.deletes, e.TermErrorsIn P := fun e he => ht e (List.mem_append_left _ he)
  have hinserts : ∀ e ∈ set.inserts, e.TermErrorsIn P := fun e he => ht e (List.mem_append_right _ he)
  have hdata : ∀ es : List Edit, (∀ e ∈ es, e.isWildcard = false) →
      (∀ e ∈ es, e.TermErrorsIn P) → ErrorsIn P (dataText (triples es)) := fun es hw hes =>
    errorsIn_dataText (fun e he => (hes e he).triple (hw e he)) fun e he => (hes e he).graph
  refine (ErrorsIn.mapM fun u hu => ?_).map
  rcases List.mem_append.1 hu with hu | hu
  · rcases List.mem_append.1 hu with hu | hu
    · obtain ⟨e, he, rfl⟩ := List.mem_map.1 hu
      have hterms := hdeletes e (List.mem_of_mem_filter he)
      refine (errorsIn_blockText (fun p hp => ?_) hterms.graph).map
      rw [List.mem_singleton.1 hp]
      exact hterms.pattern
    · split at hu
      · cases hu
      · rw [List.mem_singleton.1 hu]
        refine (hdata _ (fun e he => Edit.isWildcard_of_needsPattern ?_) fun e he =>
          hdeletes e (List.mem_of_mem_filter he)).map
        simpa using (List.mem_filter.1 he).2
  · split at hu
    · cases hu
    · rw [List.mem_singleton.1 hu]
      exact (hdata _ h.inserts_isWildcard hinserts).map

theorem sparql (h : set.WellFormed) : UnwritableOnly set.sparql :=
  h.errorsIn_sparql fun _ _ t _ => Written.unwritableOnly_term t

theorem errorsIn_insertLines (h : set.WellFormed) (ht : ∀ e ∈ set.toList, e.TermErrorsIn P) :
    ErrorsIn P set.insertLines := by
  have hquads : ErrorsIn P (set.inserts.mapM (·.quad .dataset)) := by
    refine .mapM fun e he => ?_
    obtain ⟨q, hq, -⟩ := Edit.quad_eq_ok .dataset (h.inserts_isWildcard e he)
    exact .of_eq_ok hq
  refine hquads.bind_of_ok fun quads hok => .mapM fun q hq => ?_
  obtain ⟨e, he, hquad⟩ := exists_of_mem_mapM hok (Quad.mem_of_mem_distinct hq)
  exact (ht e (List.mem_append_right _ he)).line hquad

theorem insertLines (h : set.WellFormed) : UnwritableOnly set.insertLines :=
  h.errorsIn_insertLines fun _ _ t _ => Written.unwritableOnly_term t

end EditSet.WellFormed

end FormEdits
