import FormEdits.Proofs.Edit.Labels

/-! # What the patterns of deletes match

A pattern matches every quad that its delete stands for: with the terms of the quad for its
variables it is that quad (`Edit.quad?_assign`). It may match more, where the delete names blank
nodes. So the operations of an edit set that delete take out all that its deletes do
(`EditSet.deletes_matched`). -/

namespace FormEdits

theorem Numeral.digits_injective {m n : Nat} (h : digits m = digits n) : m = n := by
  have hdigits : ∀ n, Nat.ofDigitChars 10 (digits n) 0 = n := fun n =>
    Nat.ofDigitChars_ten_toDigits
  rw [← hdigits m, h, hdigits n]

namespace Sparql

/-- The terms of a quad for the variables of a pattern, each by the first place that it has. -/
def Pattern.assign (p : Pattern) (q : Quad) (x : Text) : Option Term :=
  if p.subject = .variable x then some q.subject
  else if p.predicate = .variable x then some q.predicate
  else if p.object = .variable x then some q.object
  else none

end Sparql

open Sparql

namespace Edit

variable {e : Edit} {q : Quad} {labels : List Text} {l w w' x : Text} {t t' : Option Term}

/-! ### The variables of a pattern -/

theorem patternSlot_eq_variable_iff : patternSlot labels w t = .variable x ↔
    t = none ∧ x = w ∨ ∃ l, t = some (.blank l) ∧ x = 'b' :: Numeral.digits (labels.idxOf l) := by
  rcases t with _ | (iri | l | literal)
  · simp [patternSlot, eq_comm]
  · simp [patternSlot]
  · simp [patternSlot, eq_comm]
  · simp [patternSlot]

/-- Two places have the same variable if the same blank node is there, or if they are left out and
have the same wildcard. -/
theorem eq_of_patternSlot (ht : ∀ l, t = some (.blank l) → l ∈ labels) (hw : w.head? ≠ some 'b')
    (hw' : w'.head? ≠ some 'b') (h : patternSlot labels w t = .variable x)
    (h' : patternSlot labels w' t' = .variable x) :
    t = none ∧ t' = none ∧ w = w' ∨ ∃ l, t = some (.blank l) ∧ t' = some (.blank l) := by
  rcases patternSlot_eq_variable_iff.1 h with ⟨hnone, rfl⟩ | ⟨l, hl, rfl⟩
  · rcases patternSlot_eq_variable_iff.1 h' with ⟨hnone', rfl⟩ | ⟨l', -, rfl⟩
    · exact .inl ⟨hnone, hnone', rfl⟩
    · exact absurd rfl hw
  · rcases patternSlot_eq_variable_iff.1 h' with ⟨-, rfl⟩ | ⟨l', hl', hx⟩
    · exact absurd rfl hw'
    · have hidx := Numeral.digits_injective (List.cons.inj hx).2
      have hll : l = l' := (List.idxOf_inj (ht l hl)).1 hidx
      exact .inr ⟨l, hl, hll ▸ hl'⟩

theorem mem_blankLabels : l ∈ e.blankLabels ↔ e.subject = some (.blank l) ∨
    e.predicate = .blank l ∨ e.object = some (.blank l) := by
  have hmem : l ∈ e.blankLabels ↔
      some (.blank l) ∈ [e.subject, some e.predicate, e.object] := by
    rw [blankLabels, List.mem_eraseDups, List.mem_filterMap]
    constructor
    · rintro ⟨t, ht, hl⟩
      rcases t with _ | (iri | l' | literal) <;> cases hl
      exact ht
    · intro h
      exact ⟨_, h, rfl⟩
  rw [hmem]
  simp [eq_comm]

/-- The terms of an edit with the places that they have in its pattern. -/
def places (e : Edit) : List (Option Term × Slot) :=
  [(e.subject, e.pattern.subject), (some e.predicate, e.pattern.predicate),
    (e.object, e.pattern.object)]

/-- The variables of the pattern of an edit are one for each blank node, and those of the terms that
are left out, which no blank node has. -/
structure HasVariables (e : Edit) : Prop where
  blank : ∀ l slot, (some (.blank l), slot) ∈ e.places →
    ∃ x, slot = .variable x ∧ x ≠ "s" ∧ x ≠ "o"
  same : ∀ l l' slot slot', (some (.blank l), slot) ∈ e.places →
    (some (.blank l'), slot') ∈ e.places → (slot = slot' ↔ l = l')
  wildcard : (e.subject = none → e.pattern.subject = .variable "s") ∧
    (e.object = none → e.pattern.object = .variable "o")

theorem exists_of_mem_places {slot : Slot} (h : (t, slot) ∈ e.places) :
    (∀ l, t = some (.blank l) → l ∈ e.blankLabels) ∧
      ∃ w : Text, w.head? ≠ some 'b' ∧ slot = patternSlot e.blankLabels w t := by
  simp only [places, List.mem_cons, Prod.mk.injEq, List.not_mem_nil, or_false] at h
  rcases h with ⟨rfl, rfl⟩ | ⟨rfl, rfl⟩ | ⟨rfl, rfl⟩
  · exact ⟨fun l hl => mem_blankLabels.2 (.inl hl), "s", by decide, rfl⟩
  · exact ⟨fun l hl => mem_blankLabels.2 (.inr (.inl (Option.some.inj hl))), "p", by decide, rfl⟩
  · exact ⟨fun l hl => mem_blankLabels.2 (.inr (.inr hl)), "o", by decide, rfl⟩

theorem hasVariables (e : Edit) : e.HasVariables where
  blank l slot h := by
    obtain ⟨-, w, -, rfl⟩ := exists_of_mem_places h
    refine ⟨_, rfl, ?_, ?_⟩
    · intro hx
      cases (List.cons.inj hx).1
    · intro hx
      cases (List.cons.inj hx).1
  same l l' slot slot' h h' := by
    obtain ⟨hl, w, hw, rfl⟩ := exists_of_mem_places h
    obtain ⟨-, w', hw', rfl⟩ := exists_of_mem_places h'
    constructor
    · intro he
      rcases eq_of_patternSlot hl hw hw' rfl he.symm with ⟨hnone, -⟩ | ⟨l'', ht, ht'⟩
      · cases hnone
      · cases ht
        cases ht'
        rfl
    · rintro rfl
      rfl
  wildcard := ⟨fun h => by rw [pattern, h]; rfl, fun h => by rw [pattern, h]; rfl⟩

/-! ### Quads that a pattern matches -/

theorem term?_of_assigned {β : Text → Option Term} {v : Term}
    (hv : ∀ u, t = some u → u.folded = v)
    (hβ : ∀ x, patternSlot labels w t = .variable x → β x = some v) :
    (patternSlot labels w t).term? β = some v := by
  rcases t with _ | (iri | l | literal)
  · exact hβ w rfl
  · exact congrArg some (hv _ rfl)
  · exact hβ _ rfl
  · exact congrArg some (hv _ rfl)

/-- Two places with one variable have one blank node, so any quad has one term there. -/
theorem eq_of_shared_variable {v v' : Term} (ht : ∀ l, t = some (.blank l) → l ∈ labels)
    (hw : w.head? ≠ some 'b') (hw' : w'.head? ≠ some 'b') (hne : w ≠ w')
    (hv : ∀ u, t = some u → u.folded = v) (hv' : ∀ u, t' = some u → u.folded = v')
    (h : patternSlot labels w t = .variable x) (h' : patternSlot labels w' t' = .variable x) :
    v = v' := by
  rcases eq_of_patternSlot ht hw hw' h h' with ⟨-, -, heq⟩ | ⟨l, hl, hl'⟩
  · exact absurd heq hne
  · rw [← hv _ hl, ← hv' _ hl']

/-- With the terms of a quad that the edit stands for, its pattern is that quad. -/
theorem quad?_assign (hg : e.graph.any Term.isBlank = false) (h : q ∈ e.targets .dataset) :
    quad? (e.pattern.assign q) (e.graph, e.pattern) = some q := by
  obtain ⟨hs, hp, ho, hgraph⟩ := h
  have hp : ∀ u, some e.predicate = some u → u.folded = q.predicate := by
    rintro u ⟨⟩
    exact hp
  have hsl : ∀ l, e.subject = some (.blank l) → l ∈ e.blankLabels :=
    fun l hl => mem_blankLabels.2 (.inl hl)
  have hpl : ∀ l, some e.predicate = some (.blank l) → l ∈ e.blankLabels :=
    fun l hl => mem_blankLabels.2 (.inr (.inl (Option.some.inj hl)))
  have hsubject : e.pattern.subject.term? (e.pattern.assign q) = some q.subject :=
    term?_of_assigned hs fun x hx => if_pos hx
  have hpredicate : e.pattern.predicate.term? (e.pattern.assign q) = some q.predicate := by
    refine term?_of_assigned hp fun x hx => ?_
    rw [Pattern.assign]
    split
    · rename_i hx'
      exact congrArg some
        (eq_of_shared_variable hsl (by decide) (by decide) (by decide) hs hp hx' hx)
    · exact if_pos hx
  have hobject : e.pattern.object.term? (e.pattern.assign q) = some q.object := by
    refine term?_of_assigned ho fun x hx => ?_
    rw [Pattern.assign]
    split
    · rename_i hx'
      exact congrArg some
        (eq_of_shared_variable hsl (by decide) (by decide) (by decide) hs ho hx' hx)
    split
    · rename_i hx'
      exact congrArg some
        (eq_of_shared_variable hpl (by decide) (by decide) (by decide) hp ho hx' hx)
    · exact if_pos hx
  have hg' : graph? e.graph = some q.graph := by
    rw [graph?, hg, ← hgraph]
    rfl
  simp only [quad?, hsubject, hpredicate, hobject, hg', Option.bind_eq_bind, Option.bind_some]

/-! ### Operations that delete -/

variable {es : List Edit}

theorem isBlankFree_of_needsPattern (h : e.needsPattern = false)
    (hg : e.graph.any Term.isBlank = false) : e.IsBlankFree ∧ e.isWildcard = false := by
  simp only [needsPattern, Bool.or_eq_false_iff] at h
  obtain ⟨⟨⟨hw, hs⟩, hp⟩, ho⟩ := h
  refine ⟨fun t ht => ?_, hw⟩
  rcases mem_terms.1 ht with h | h | h | h
  · simpa [h] using hs
  · rwa [h] at hp
  · simpa [h] using ho
  · simpa [h] using hg

theorem execute_pattern_subset (hg : e.graph.any Term.isBlank = false) (D : Set Quad) :
    ∃ D', Update.execute D (.deleteWhere e.graph e.pattern) = some D' ∧
      D' ⊆ D \ e.targets .dataset := by
  refine ⟨_, Update.execute_deleteWhere_eq D _ _, ?_⟩
  rintro q ⟨hq, hnone⟩
  exact ⟨hq, fun ht => hnone ⟨_, quad?_assign hg ht⟩⟩

theorem execute_patterns_subset (h : ∀ e ∈ es, e.graph.any Term.isBlank = false) (D : Set Quad) :
    ∃ D', execute (es.map fun e => .deleteWhere e.graph e.pattern) D = some D' ∧
      D' ⊆ D \ allTargets .dataset es := by
  induction es generalizing D with
  | nil => exact ⟨D, rfl, by rw [allTargets_nil, Set.sdiff_empty]⟩
  | cons e es ih =>
    obtain ⟨D₁, h₁, hsub₁⟩ := execute_pattern_subset (h e (List.mem_cons_self ..)) D
    obtain ⟨D₂, h₂, hsub₂⟩ := ih (fun e he => h e (List.mem_cons_of_mem _ he)) D₁
    refine ⟨D₂, ?_, ?_⟩
    · rw [List.map_cons, execute, List.foldlM_cons, h₁]
      exact h₂
    · rw [allTargets_cons, ← Set.sdiff_sdiff]
      exact hsub₂.trans (Set.sdiff_subset_sdiff_left hsub₁)

end Edit

theorem Store.mem_quads_foldl_remove {store : Store} {es : List Edit} {q : Quad} :
    q ∈ (es.foldl remove store).quads ↔
      q ∈ store.quads ∧ ∀ e ∈ es, e.covers store.kind q = false := by
  induction es generalizing store with
  | nil => simp
  | cons e es ih =>
    rw [List.foldl_cons, ih, remove, List.forall_mem_cons]
    simp [and_assoc]

namespace EditSet

variable {set : EditSet}

theorem filter_updates_delete (set : EditSet) : set.updates.filter (·.operation = .delete) =
    (set.deletes.filter (·.needsPattern)).map (fun e => .deleteWhere e.graph e.pattern) ++
      dataUpdate .deleteData (set.deletes.filter (!·.needsPattern)) := by
  have hpatterns : ∀ es : List Edit, (es.map fun e => Update.deleteWhere e.graph e.pattern).filter
      (·.operation = .delete) = es.map fun e => .deleteWhere e.graph e.pattern := by
    intro es
    refine List.filter_eq_self.2 fun u hu => ?_
    obtain ⟨e, -, rfl⟩ := List.mem_map.1 hu
    rfl
  have hdeletes : ∀ es : List Edit, (dataUpdate .deleteData es).filter (·.operation = .delete) =
      dataUpdate .deleteData es := by
    intro es
    cases es <;> rfl
  have hinserts : ∀ es : List Edit, (dataUpdate .insertData es).filter (·.operation = .delete) =
      [] := by
    intro es
    cases es <;> rfl
  show (_ ++ dataUpdate .deleteData _ ++ dataUpdate .insertData _).filter _ = _
  rw [List.filter_append, List.filter_append, hpatterns, hdeletes, hinserts, List.append_nil]

theorem forall_concrete (hg : ∀ e ∈ set.deletes, e.graph.any Term.isBlank = false) :
    ∀ e ∈ set.deletes.filter (!·.needsPattern), e.IsBlankFree ∧ e.isWildcard = false := by
  intro e he
  obtain ⟨he, hp⟩ := List.mem_filter.1 he
  exact Edit.isBlankFree_of_needsPattern (by simpa using hp) (hg e he)

/-- Executing the operations that delete leaves no quad that the deletes stand for. -/
theorem execute_deletes_subset (hg : ∀ e ∈ set.deletes, e.graph.any Term.isBlank = false)
    (D : Set Quad) : ∃ D', execute (set.updates.filter (·.operation = .delete)) D = some D' ∧
      D' ⊆ D \ Edit.allTargets .dataset set.deletes := by
  have hconcrete := forall_concrete hg
  obtain ⟨D₁, hD₁, hsub⟩ := Edit.execute_patterns_subset
    (fun e he => hg e (List.mem_of_mem_filter he : e ∈ set.deletes)) D
  refine ⟨D₁ \ Edit.allTargets .dataset (set.deletes.filter (!·.needsPattern)), ?_, ?_⟩
  · rw [filter_updates_delete, execute_append hD₁]
    refine execute_dataUpdate (fun hnil => ?_) (Edit.execute_deleteData
      (fun e he => (hconcrete e he).1) fun e he => (hconcrete e he).2)
    rw [hnil, Edit.allTargets_nil, Set.sdiff_empty]
  · rw [← Edit.allTargets_filter_union (·.needsPattern) set.deletes, ← Set.sdiff_sdiff]
    exact Set.sdiff_subset_sdiff_left hsub

/-- The operation that a delete is written with takes out what the delete stands for. -/
theorem exists_update_of_mem_deletes (hg : ∀ e ∈ set.deletes, e.graph.any Term.isBlank = false)
    {e : Edit} (he : e ∈ set.deletes) (D : Set Quad) :
    ∃ u ∈ set.updates, u.operation = .delete ∧ (e.graph, e.pattern) ∈ u.lines ∧
      ∃ D', u.execute D = some D' ∧ D' ⊆ D \ e.targets .dataset := by
  rcases hp : e.needsPattern with _ | _
  · have hmem : e ∈ set.deletes.filter (!·.needsPattern) :=
      List.mem_filter.2 ⟨he, by rw [hp]; rfl⟩
    have hconcrete := forall_concrete hg
    obtain ⟨hu, hline⟩ := mem_dataUpdates hmem .deleteData
    obtain ⟨hfree, hwild⟩ := hconcrete e hmem
    rw [Edit.triple_eq_pattern hfree hwild] at hline
    refine ⟨_, List.mem_append_left _ (List.mem_append_right _ hu), rfl, hline, _,
      Edit.execute_deleteData (fun e he => (hconcrete e he).1) (fun e he => (hconcrete e he).2), ?_⟩
    exact Set.sdiff_subset_sdiff_right fun q hq => ⟨e, hmem, hq⟩
  · refine ⟨.deleteWhere e.graph e.pattern, List.mem_append_left _ (List.mem_append_left _ ?_), rfl,
      List.mem_singleton_self _, Edit.execute_pattern_subset (hg e he) D⟩
    exact List.mem_map_of_mem (List.mem_filter.2 ⟨he, hp⟩)

/-- The operations of a SPARQL update that delete never delete too little, if no graph is blank. The
pattern of a delete is every quad that the delete takes out of a dataset, with the terms of the quad
for the variables; these are one for each blank node, and none of them stands for a term that is
left out. So the operation that the pattern is in takes the quad out, and all of them one after
another leave no quad that the deletes would not leave. -/
theorem deletes_matched (set : EditSet) (store : Store) (text : Text) (hk : store.kind = .dataset)
    (hg : ∀ e ∈ set.deletes, e.graph.any Term.isBlank = false) (ht : set.sparql = .ok text) :
    (∃ texts, text = List.intercalate " ;\n" texts ∧ List.Forall₂ Update.WrittenAs set.updates texts) ∧
    (∀ e ∈ set.deletes, e.HasVariables ∧ ∃ u ∈ set.updates, u.operation = .delete ∧
      (e.graph, e.pattern) ∈ u.lines ∧ ∃ D, u.execute store.view = some D ∧
        ∀ q ∈ store.quads, e.covers .dataset q →
          quad? (e.pattern.assign q.folded) (e.graph, e.pattern) = some q.folded ∧ q.folded ∉ D) ∧
    (∀ q ∈ store.quads, q ∉ (set.deletes.foldl Store.remove store).quads →
      ∃ e ∈ set.deletes, e.covers .dataset q) ∧
    ∃ D, execute (set.updates.filter (·.operation = .delete)) store.view = some D ∧
      D ⊆ (set.deletes.foldl Store.remove store).view := by
  refine ⟨writtenAs_of_sparql ht, fun e he => ⟨e.hasVariables, ?_⟩, fun q hq hr => ?_, ?_⟩
  · obtain ⟨u, hu, hop, hline, D, hD, hsub⟩ := exists_update_of_mem_deletes hg he store.view
    refine ⟨u, hu, hop, hline, D, hD, fun q hq hc => ?_⟩
    have htarget := Edit.covers_iff.1 hc
    exact ⟨Edit.quad?_assign (hg e he) htarget, fun hmem => (hsub hmem).2 htarget⟩
  · by_contra hnone
    refine hr (Store.mem_quads_foldl_remove.2 ⟨hq, fun e he => ?_⟩)
    rw [hk, Bool.eq_false_iff]
    exact fun hc => hnone ⟨e, he, hc⟩
  · obtain ⟨D, hD, hsub⟩ := execute_deletes_subset hg store.view
    refine ⟨D, hD, ?_⟩
    rwa [(store.view_removeAll set.deletes).2, hk]

/-- Blank nodes that are linked to themselves and to each other. -/
def links : Store := .ofQuads .dataset
  [⟨.blank "x", .iri "urn:p", .blank "x", none⟩, ⟨.blank "x", .iri "urn:p", .blank "y", none⟩,
    ⟨.iri "urn:s", .iri "urn:p", .blank "y", some (.iri "urn:g")⟩]

/-- A delete with one blank node twice, and one that leaves out the subject. -/
def unlink : EditSet :=
  ⟨[⟨.delete, some (.blank "x"), .iri "urn:p", some (.blank "x"), none⟩,
    ⟨.delete, none, .iri "urn:p", some (.blank "y"), some (.iri "urn:g")⟩], []⟩

theorem deletes_matched_unlink : ∃ D,
    unlink.sparql = .ok ("DELETE WHERE \x7b\n  ?b0 <urn:p> ?b0 .\n\x7d ;\n" ++
      "DELETE WHERE \x7b\n  GRAPH <urn:g> \x7b\n    ?s <urn:p> ?b0 .\n  \x7d\n\x7d") ∧
    execute (unlink.updates.filter (·.operation = .delete)) links.view = some D ∧
    (⟨.blank "x", .iri "urn:p", .blank "x", none⟩ : Quad) ∉ D ∧
    (⟨.iri "urn:s", .iri "urn:p", .blank "y", some (.iri "urn:g")⟩ : Quad) ∉ D := by
  have ht : unlink.sparql = .ok ("DELETE WHERE \x7b\n  ?b0 <urn:p> ?b0 .\n\x7d ;\n" ++
      "DELETE WHERE \x7b\n  GRAPH <urn:g> \x7b\n    ?s <urn:p> ?b0 .\n  \x7d\n\x7d") :=
    eq_ok_of_toOption (by decide +kernel)
  obtain ⟨-, -, -, D, hD, hsub⟩ := deletes_matched unlink links _ rfl (by decide) ht
  have hgone : ∀ q : Quad, (∀ r ∈ (unlink.deletes.foldl Store.remove links).quads, r.folded ≠ q) →
      q ∉ D := by
    intro q hq hmem
    obtain ⟨r, hr, hrq⟩ := hsub hmem
    exact hq r hr hrq
  exact ⟨D, ht, hD, hgone _ (by decide), hgone _ (by decide)⟩

end EditSet

end FormEdits
