import FormEdits.Proofs.Edit.Applied

/-! # Which quads a store holds after an edit set

A store holds a quad if it has it up to the case of language tags; the graph of the quad counts in a
dataset only, and there the default graph has two names. After an edit set a store holds the quads
of the inserts and, of those that it held before, the ones that no delete matches
(`EditSet.holds_apply`). So it does not matter in which order the deletes or the inserts stand, and
the same edits have no effect a second time. -/

namespace FormEdits

/-- The quad with its graph named as a store of the given kind names it. -/
def Quad.placed (kind : StoreKind) (q : Quad) : Quad := { q with graph := kind.place q.graph }

def Store.Holds (store : Store) (q : Quad) : Prop := ∃ r ∈ store.quads, r.same (q.placed store.kind)

instance (store : Store) (q : Quad) : Decidable (store.Holds q) :=
  inferInstanceAs (Decidable (∃ r ∈ store.quads, r.same (q.placed store.kind) = true))

namespace Edit

/-- The quad has the terms that the edit does not leave out, and is in the same graph. -/
structure Matches (kind : StoreKind) (e : Edit) (q : Quad) : Prop where
  subject : ∀ s, e.subject = some s → s.same q.subject
  predicate : e.predicate.same q.predicate
  object : ∀ o, e.object = some o → o.same q.object
  graph : Quad.sameGraph (kind.place e.graph) (kind.place q.graph)

/-- The edit leaves out nothing, and the quad is the one that it is about. -/
def Writes (kind : StoreKind) (e : Edit) (q : Quad) : Prop :=
  ∃ r, e.quad kind = .ok r ∧ r.same (q.placed kind)

instance (kind : StoreKind) (e : Edit) (q : Quad) : Decidable (e.Writes kind q) :=
  match hr : e.quad kind with
  | .ok r => decidable_of_iff (r.same (q.placed kind)) (by simp only [Writes, hr]; simp)
  | .error _ => isFalse (by simp only [Writes, hr]; simp)

variable {kind : StoreKind} {e : Edit} {q : Quad}

theorem matches_iff : e.Matches kind q ↔ (q.placed kind).folded ∈ e.targets kind := by
  constructor
  · rintro ⟨hs, hp, ho, hg⟩
    simp only [Term.same, decide_eq_true_eq, Quad.sameGraph] at hs hp ho hg
    exact ⟨hs, hp, ho, hg⟩
  · rintro ⟨hs, hp, ho, hg⟩
    refine ⟨?_, ?_, ?_, ?_⟩ <;> simp only [Term.same, decide_eq_true_eq, Quad.sameGraph]
    exacts [hs, hp, ho, hg]

theorem writes_iff (h : e.isWildcard = false) :
    e.Writes kind q ↔ (q.placed kind).folded ∈ e.targets kind := by
  obtain ⟨r, hr, ht⟩ := quad_eq_ok kind h
  rw [ht, Set.mem_singleton_iff, Writes]
  constructor
  · rintro ⟨r', hr', hs⟩
    rw [hr] at hr'; cases hr'
    exact (Quad.same_iff.1 hs).symm
  · intro hq
    exact ⟨r, hr, Quad.same_iff.2 hq.symm⟩

theorem exists_matches_iff {es : List Edit} :
    (∃ e ∈ es, e.Matches kind q) ↔ (q.placed kind).folded ∈ allTargets kind es := by
  simp only [matches_iff]
  rfl

theorem exists_writes_iff {es : List Edit} (h : ∀ e ∈ es, e.isWildcard = false) :
    (∃ e ∈ es, e.Writes kind q) ↔ (q.placed kind).folded ∈ allTargets kind es := by
  constructor
  · rintro ⟨e, he, hw⟩
    exact ⟨e, he, (writes_iff (h e he)).1 hw⟩
  · rintro ⟨e, he, ht⟩
    exact ⟨e, he, (writes_iff (h e he)).2 ht⟩

end Edit

theorem Store.holds_iff {store : Store} {q : Quad} :
    store.Holds q ↔ (q.placed store.kind).folded ∈ store.view := by
  simp only [Holds, Quad.same_iff]
  rfl

theorem Term.eq_of_folded_eq_iri {t : Term} {i : Text} (h : t.folded = .iri i) : t = .iri i := by
  cases t with
  | iri t => exact h
  | blank l => cases h
  | literal l => cases h

/-- A graph that is the same as one with its proper name has its proper name. -/
theorem StoreKind.place_of_folded_eq {kind : StoreKind} {g g' : Option Term}
    (h : (kind.place g).map Term.folded = g'.map Term.folded) : kind.place g' = g' := by
  cases kind with
  | graph =>
    cases g' with
    | none => rfl
    | some t => cases h
  | dataset =>
    refine if_neg ?_
    rintro rfl
    simp only [place] at h
    split at h
    · cases h
    · rename_i hg
      obtain ⟨t, rfl, ht⟩ := Option.map_eq_some_iff.1 h
      exact hg (congrArg some (Term.eq_of_folded_eq_iri ht))

namespace Store

variable {store store' : Store} {q : Quad}

theorem mem_quads_addQuad (h : q ∈ store.quads) (r : Quad) : q ∈ (store.addQuad r).quads := by
  unfold addQuad
  split
  · exact h
  · exact List.mem_append_left _ h

theorem mem_quads_removeAll {es : List Edit} (h : q ∈ store.quads)
    (hd : ∀ e ∈ es, ¬ e.Matches store.kind q) : q ∈ (es.foldl remove store).quads := by
  induction es generalizing store with
  | nil => exact h
  | cons e es ih =>
    refine ih (List.mem_filter.2 ⟨h, ?_⟩) fun e he => hd e (List.mem_cons_of_mem _ he)
    rw [Bool.not_eq_true', Bool.eq_false_iff]
    intro hc
    refine hd e (List.mem_cons_self ..) (Edit.matches_iff.2 ?_)
    obtain ⟨hs, hp, ho, hg⟩ := Edit.covers_iff.1 hc
    have hplace : store.kind.place q.graph = q.graph := StoreKind.place_of_folded_eq hg
    exact ⟨hs, hp, ho, hg.trans (congrArg (Option.map Term.folded) hplace.symm)⟩

theorem mem_quads_addAll {es : List Edit} (h : q ∈ store.quads)
    (ha : es.foldlM add store = .ok store') : q ∈ store'.quads := by
  induction es generalizing store with
  | nil => cases ha; exact h
  | cons e es ih =>
    rw [List.foldlM_cons, add] at ha
    rcases hr : e.quad store.kind with err | r
    · rw [hr] at ha; cases ha
    · rw [hr] at ha
      exact ih (mem_quads_addQuad h r) ha

end Store

namespace EditSet

variable {set set' : EditSet} {store : Store}

/-- A quad that no delete matches stays in the store, as it is spelled there. -/
theorem mem_quads_of_apply {store' : Store} {q : Quad} (hq : q ∈ store.quads)
    (hd : ∀ e ∈ set.deletes, ¬ e.Matches store.kind q) (ha : set.apply store = .ok store') :
    q ∈ store'.quads :=
  Store.mem_quads_addAll (Store.mem_quads_removeAll hq hd) ha

theorem holds_iff_of_apply (h : ∀ e ∈ set.inserts, e.isWildcard = false) {store' : Store}
    (ha : set.apply store = .ok store') : store'.kind = store.kind ∧
      ∀ q, store'.Holds q ↔ (∃ e ∈ set.inserts, e.Writes store.kind q) ∨
        store.Holds q ∧ ∀ e ∈ set.deletes, ¬ e.Matches store.kind q := by
  obtain ⟨store₁, ha₁, hk, hv⟩ := view_apply h store
  rw [ha] at ha₁; cases ha₁
  refine ⟨hk, fun q => ?_⟩
  have hd : (∀ e ∈ set.deletes, ¬ e.Matches store.kind q) ↔
      (q.placed store.kind).folded ∉ Edit.allTargets store.kind set.deletes := by
    rw [← Edit.exists_matches_iff]
    simp only [not_exists, not_and]
  rw [Store.holds_iff, hk, hv, Set.mem_union, Set.mem_sdiff, hd, Edit.exists_writes_iff h,
    Store.holds_iff, or_comm]

/-- A store holds a quad after an edit set if an insert writes it, or if the store held it before
and no delete matches it. Neither another order of the deletes or the inserts nor the same edits once
more make it hold other quads. -/
theorem holds_apply (set : EditSet) (store : Store)
    (h : ∀ e ∈ set.inserts, e.isWildcard = false) :
    ∃ store', set.apply store = .ok store' ∧ store'.kind = store.kind ∧
      (∀ q, store'.Holds q ↔ (∃ e ∈ set.inserts, e.Writes store.kind q) ∨
        store.Holds q ∧ ∀ e ∈ set.deletes, ¬ e.Matches store.kind q) ∧
      (∀ set' : EditSet, set'.deletes.Perm set.deletes → set'.inserts.Perm set.inserts →
        ∃ store'', set'.apply store = .ok store'' ∧ ∀ q, store''.Holds q ↔ store'.Holds q) ∧
      ∃ store'', set.apply store' = .ok store'' ∧ ∀ q, store''.Holds q ↔ store'.Holds q := by
  obtain ⟨store', ha, -, -⟩ := view_apply h store
  obtain ⟨hk, hq⟩ := holds_iff_of_apply h ha
  refine ⟨store', ha, hk, hq, fun set' hd hi => ?_, ?_⟩
  · have h' : ∀ e ∈ set'.inserts, e.isWildcard = false := fun e he => h e (hi.mem_iff.1 he)
    obtain ⟨store'', ha', -, -⟩ := view_apply h' store
    refine ⟨store'', ha', fun q => ?_⟩
    rw [(holds_iff_of_apply h' ha').2, hq]
    simp only [hd.mem_iff, hi.mem_iff]
  · obtain ⟨store'', ha', -, -⟩ := view_apply h store'
    refine ⟨store'', ha', fun q => ?_⟩
    -- what the deletes take out the second time is put in again by the inserts
    rw [(holds_iff_of_apply h ha').2, hq, hk]
    constructor
    · rintro (hi | ⟨hi | hs, -⟩)
      exacts [.inl hi, .inl hi, .inr hs]
    · rintro (hi | hs)
      exacts [.inl hi, .inr ⟨.inr hs, hs.2⟩]

/-- A name in two languages, and the same name in a graph of its own. -/
def names : Store := .ofQuads .dataset
  [⟨.iri "urn:s", .iri "urn:p", .literal (.inLanguage "Rom" "de"), none⟩,
    ⟨.iri "urn:s", .iri "urn:p", .literal (.inLanguage "Rome" "en"), none⟩,
    ⟨.iri "urn:s", .iri "urn:p", .literal (.inLanguage "Rome" "en"), some (.iri "urn:g")⟩]

/-- Edits that delete what they insert. -/
def rename : EditSet :=
  ⟨[⟨.delete, some (.iri "urn:s"), .iri "urn:p", none, some StoreKind.defaultGraphName⟩],
    [⟨.insert, some (.iri "urn:s"), .iri "urn:p", some (.literal (.inLanguage "Rom" "DE")), none⟩]⟩

theorem holds_apply_rename : ∃ store', rename.apply names = .ok store' ∧
    store'.Holds ⟨.iri "urn:s", .iri "urn:p", .literal (.inLanguage "Rom" "de"), none⟩ ∧
    ¬ store'.Holds ⟨.iri "urn:s", .iri "urn:p", .literal (.inLanguage "Rome" "en"), none⟩ ∧
    ∃ store'', rename.apply store' = .ok store'' ∧ ∀ q, store''.Holds q ↔ store'.Holds q := by
  obtain ⟨store', ha, hk, hq, -, htwice⟩ := holds_apply rename names (by decide)
  refine ⟨store', ha, (hq _).2 (.inl ⟨_, List.mem_cons_self .., _, rfl, by decide⟩), ?_, htwice⟩
  rw [hq]
  rintro (hw | ⟨-, hd⟩)
  · revert hw
    decide
  · refine hd _ (List.mem_cons_self ..) ⟨?_, by decide, ?_, by decide⟩
    · rintro s ⟨⟩; decide
    · rintro o ⟨⟩

end EditSet

end FormEdits
