import FormEdits.Edit.Store
import Mathlib.Data.Set.Insert
import Mathlib.Order.BooleanAlgebra.Set

/-! # What is in a store after an edit set

A store is looked at as the set of its quads, with the language tags of literals in lower case. The
quads that an edit stands for are its `targets`: a delete takes them out of this set, and an insert
puts its only one in (`EditSet.view_apply`). -/

namespace FormEdits

/-- The quad with the language tags of its literals in lower case. -/
def Quad.folded (q : Quad) : Quad :=
  ⟨q.subject.folded, q.predicate.folded, q.object.folded, q.graph.map Term.folded⟩

/-- The quads of a store, up to the case of language tags. -/
def Store.view (store : Store) : Set Quad := { q | ∃ r ∈ store.quads, r.folded = q }

/-- The quads that an edit stands for in a store, up to the case of language tags. -/
def Edit.targets (kind : StoreKind) (e : Edit) : Set Quad :=
  { q | (∀ s, e.subject = some s → s.folded = q.subject) ∧ e.predicate.folded = q.predicate ∧
    (∀ o, e.object = some o → o.folded = q.object) ∧
    (kind.place e.graph).map Term.folded = q.graph }

/-- The quads that some of the edits stand for. -/
def Edit.allTargets (kind : StoreKind) (es : List Edit) : Set Quad :=
  { q | ∃ e ∈ es, q ∈ e.targets kind }

namespace Quad

variable {a b : Quad}

theorem sameTriple_iff : a.sameTriple b ↔ a.subject.folded = b.subject.folded ∧
    a.predicate.folded = b.predicate.folded ∧ a.object.folded = b.object.folded := by
  simp [sameTriple, Term.same, and_assoc]

theorem same_iff : a.same b ↔ a.folded = b.folded := by
  simp [same, sameTriple_iff, sameGraph, folded, and_assoc]

end Quad

namespace Edit

variable {kind : StoreKind} {e : Edit} {es es' : List Edit}

theorem covers_iff {q : Quad} : e.covers kind q ↔ q.folded ∈ e.targets kind := by
  obtain ⟨op, s, p, o, g⟩ := e
  cases s <;> cases o <;>
    simp [covers, targets, Quad.folded, Quad.sameGraph, Term.same, and_assoc]

theorem eq_some_of_isWildcard (h : e.isWildcard = false) :
    ∃ s o, e.subject = some s ∧ e.object = some o := by
  rcases hs : e.subject with _ | s
  · simp [isWildcard, hs] at h
  rcases ho : e.object with _ | o
  · simp [isWildcard, ho] at h
  exact ⟨s, o, rfl, rfl⟩

theorem mem_filter_not_isWildcard :
    e ∈ es.filter (!·.isWildcard) ↔ e ∈ es ∧ e.isWildcard = false := by
  rw [List.mem_filter, Bool.not_eq_true']

theorem quad_eq_ok (kind : StoreKind) (h : e.isWildcard = false) :
    ∃ q, e.quad kind = .ok q ∧ e.targets kind = {q.folded} := by
  obtain ⟨s, o, hs, ho⟩ := eq_some_of_isWildcard h
  refine ⟨⟨s, e.predicate, o, kind.place e.graph⟩, by rw [quad, hs, ho], ?_⟩
  ext ⟨s', p', o', g'⟩
  simp [targets, hs, ho, Quad.folded, eq_comm]

theorem allTargets_nil : allTargets kind [] = ∅ := by
  ext q; simp [allTargets]

theorem allTargets_cons : allTargets kind (e :: es) = e.targets kind ∪ allTargets kind es := by
  ext q; simp [allTargets]

theorem allTargets_append :
    allTargets kind (es ++ es') = allTargets kind es ∪ allTargets kind es' := by
  induction es with
  | nil => rw [List.nil_append, allTargets_nil, Set.empty_union]
  | cons e es ih => rw [List.cons_append, allTargets_cons, ih, allTargets_cons, Set.union_assoc]

theorem allTargets_perm (h : es.Perm es') : allTargets kind es = allTargets kind es' := by
  ext q
  simp only [allTargets, Set.mem_ofPred_eq, h.mem_iff]

theorem allTargets_filter_union (p : Edit → Bool) (es : List Edit) :
    allTargets kind (es.filter p) ∪ allTargets kind (es.filter (!p ·)) = allTargets kind es := by
  rw [← allTargets_append]
  exact allTargets_perm (List.filter_append_perm _ _)

end Edit

namespace Store

variable {store : Store}

theorem view_remove (e : Edit) :
    (store.remove e).view = store.view \ e.targets store.kind := by
  ext q
  simp only [view, remove, Set.mem_ofPred_eq, Set.mem_sdiff, List.mem_filter]
  constructor
  · rintro ⟨r, ⟨hr, hc⟩, rfl⟩
    refine ⟨⟨r, hr, rfl⟩, fun ht => ?_⟩
    rw [Edit.covers_iff.2 ht] at hc
    cases hc
  · rintro ⟨⟨r, hr, rfl⟩, ht⟩
    refine ⟨r, ⟨hr, ?_⟩, rfl⟩
    rw [Bool.not_eq_true', Bool.eq_false_iff]
    exact fun hc => ht (Edit.covers_iff.1 hc)

theorem view_removeAll (store : Store) (es : List Edit) :
    (es.foldl remove store).kind = store.kind ∧
      (es.foldl remove store).view = store.view \ Edit.allTargets store.kind es := by
  induction es generalizing store with
  | nil => exact ⟨rfl, by rw [Edit.allTargets_nil, Set.sdiff_empty]; rfl⟩
  | cons e es ih =>
    obtain ⟨hk, hv⟩ := ih (store.remove e)
    refine ⟨hk, ?_⟩
    rw [List.foldl_cons, hv, view_remove, Edit.allTargets_cons, Set.sdiff_sdiff]
    rfl

theorem folded_respell (q : Quad) : (store.respell q).folded = q.folded := by
  unfold respell
  split
  · rename_i known hf
    obtain ⟨hs, hp, ho⟩ := Quad.sameTriple_iff.1 (List.find?_some hf)
    simp only [Quad.folded, hs, hp, ho]
  · rfl

theorem view_addQuad (q : Quad) : (store.addQuad q).view = insert q.folded store.view := by
  unfold addQuad
  split
  · rename_i h
    obtain ⟨r, hr, hs⟩ := List.any_eq_true.1 h
    refine (Set.insert_eq_of_mem ?_).symm
    exact ⟨r, hr, (Quad.same_iff.1 hs).symm⟩
  · ext r
    simp only [view, List.mem_append, List.mem_singleton, Set.mem_insert_iff, Set.mem_ofPred_eq]
    constructor
    · rintro ⟨r', hr | rfl, rfl⟩
      · exact .inr ⟨r', hr, rfl⟩
      · exact .inl (folded_respell q)
    · rintro (rfl | ⟨r', hr, rfl⟩)
      · exact ⟨_, .inr rfl, folded_respell q⟩
      · exact ⟨r', .inl hr, rfl⟩

theorem view_add (store : Store) {e : Edit} (h : e.isWildcard = false) :
    ∃ store', store.add e = .ok store' ∧ store'.kind = store.kind ∧
      store'.view = store.view ∪ e.targets store.kind := by
  obtain ⟨q, hq, ht⟩ := Edit.quad_eq_ok store.kind h
  refine ⟨store.addQuad q, by rw [add, hq]; rfl, ?_, ?_⟩
  · unfold addQuad; split <;> rfl
  · rw [view_addQuad, ht, Set.union_singleton]

theorem view_addAll (store : Store) {es : List Edit} (h : ∀ e ∈ es, e.isWildcard = false) :
    ∃ store', es.foldlM add store = .ok store' ∧ store'.kind = store.kind ∧
      store'.view = store.view ∪ Edit.allTargets store.kind es := by
  induction es generalizing store with
  | nil => exact ⟨store, rfl, rfl, by rw [Edit.allTargets_nil, Set.union_empty]⟩
  | cons e es ih =>
    obtain ⟨store₁, h₁, hk₁, hv₁⟩ := view_add store (h e (List.mem_cons_self ..))
    obtain ⟨store₂, h₂, hk₂, hv₂⟩ :=
      ih store₁ fun e he => h e (List.mem_cons_of_mem _ he)
    refine ⟨store₂, ?_, hk₂.trans hk₁, ?_⟩
    · rw [List.foldlM_cons, h₁]; exact h₂
    · rw [hv₂, hk₁, hv₁, Edit.allTargets_cons, Set.union_assoc]

end Store

/-- An edit set without wildcards among its inserts can be applied; the targets of its deletes go, and
then those of its inserts are there. -/
theorem EditSet.view_apply {set : EditSet} (h : ∀ e ∈ set.inserts, e.isWildcard = false)
    (store : Store) : ∃ store', set.apply store = .ok store' ∧ store'.kind = store.kind ∧
      store'.view = store.view \ Edit.allTargets store.kind set.deletes ∪
        Edit.allTargets store.kind set.inserts := by
  obtain ⟨hk, hv⟩ := store.view_removeAll set.deletes
  obtain ⟨store', ha, hk', hv'⟩ := (set.deletes.foldl .remove store).view_addAll h
  exact ⟨store', ha, hk'.trans hk, by rw [hv', hk, hv]⟩

end FormEdits
