import FormEdits.Edit.Sparql
import FormEdits.Proofs.Assoc
import FormEdits.Proofs.Edit.Applied
import FormEdits.Proofs.Result

/-! # Executing a SPARQL update

What the operations of an edit set do to a set of quads, read off the blocks that they are written
with: `Update.execute` takes each pattern in the graph of its block. For an edit set without blank
nodes the operations take out the targets of the deletes and put in those of the inserts, as applying
the set does (`EditSet.execute_updates_eq`). -/

namespace FormEdits

namespace Sparql

/-- The term at a place, with `β` for the variables, up to the case of language tags. A blank node
names no term of the store. -/
def Slot.term? (β : Text → Option Term) : Slot → Option Term
  | .term t => if t.isBlank then none else some t.folded
  | .variable x => β x
  | .missing => none

/-- The graph of a store that a block is about. -/
def graph? (g : Option Term) : Option (Option Term) :=
  if g.any Term.isBlank then none else some ((StoreKind.dataset.place g).map Term.folded)

/-- The quad that a pattern of a graph stands for, with `β` for the variables. -/
def quad? (β : Text → Option Term) (line : Option Term × Pattern) : Option Quad := do
  let s ← line.2.subject.term? β
  let p ← line.2.predicate.term? β
  let o ← line.2.object.term? β
  let g ← graph? line.1
  some ⟨s, p, o, g⟩

namespace Update

def keyword : Update → Text
  | deleteWhere _ _ => "DELETE WHERE"
  | deleteData _ => "DELETE DATA"
  | insertData _ => "INSERT DATA"

def operation : Update → Operation
  | deleteWhere _ _ => .delete
  | deleteData _ => .delete
  | insertData _ => .insert

/-- The blocks that an operation is written with. -/
def blocks : Update → List Block
  | deleteWhere g p => [(g, [p])]
  | deleteData ts => Sparql.blocks ts
  | insertData ts => Sparql.blocks ts

def lines (u : Update) : List (Option Term × Pattern) := Assoc.entries u.blocks

/-- The quads after an operation. Patterns delete what they match in every way in which all of them
match; data has to be without variables. -/
def execute (D : Set Quad) (u : Update) : Option (Set Quad) :=
  match u with
  | deleteWhere _ _ =>
    some (D \ { q | ∃ β qs, u.lines.mapM (quad? β) = some qs ∧ (∀ r ∈ qs, r ∈ D) ∧ q ∈ qs })
  | deleteData _ => (u.lines.mapM (quad? fun _ => none)).map fun qs => D \ { q | q ∈ qs }
  | insertData _ => (u.lines.mapM (quad? fun _ => none)).map fun qs => D ∪ { q | q ∈ qs }

end Update

theorem Update.execute_deleteWhere_eq (D : Set Quad) (g : Option Term) (p : Pattern) :
    Update.execute D (.deleteWhere g p) = some (D \ { q | ∃ β, quad? β (g, p) = some q }) := by
  have hl : ∀ β, (Update.lines (.deleteWhere g p)).mapM (quad? β) =
      (quad? β (g, p)).map fun q => [q] := by
    intro β
    show [(g, p)].mapM (quad? β) = _
    rw [List.mapM_cons, List.mapM_nil]
    rcases quad? β (g, p) with _ | q
    · rfl
    · rfl
  rw [Update.execute]
  congr 1
  ext q
  simp only [Set.mem_sdiff, Set.mem_ofPred_eq, and_congr_right_iff, not_iff_not, hl]
  intro hq
  constructor
  · rintro ⟨β, qs, hqs, -, hm⟩
    obtain ⟨q', hq', rfl⟩ := Option.map_eq_some_iff.1 hqs
    exact ⟨β, by rw [List.mem_singleton.1 hm, hq']⟩
  · rintro ⟨β, hβ⟩
    refine ⟨β, [q], by rw [hβ]; rfl, ?_, List.mem_singleton_self q⟩
    intro r hr
    rwa [List.mem_singleton.1 hr]

/-- The quads after operations one after another. -/
def execute (us : List Update) (D : Set Quad) : Option (Set Quad) := us.foldlM Update.execute D

end Sparql

open Sparql

namespace Edit

/-- The terms of an edit, its graph included. -/
def terms (e : Edit) : List Term :=
  e.subject.toList ++ [e.predicate] ++ e.object.toList ++ e.graph.toList

def IsBlankFree (e : Edit) : Prop := ∀ t ∈ e.terms, t.isBlank = false

variable {e : Edit} {es : List Edit} {β : Text → Option Term} {q : Quad} {t : Term}

theorem mem_terms : t ∈ e.terms ↔
    e.subject = some t ∨ e.predicate = t ∨ e.object = some t ∨ e.graph = some t := by
  simp [terms, Option.mem_toList, eq_comm (a := t)]

namespace IsBlankFree

theorem subject (h : e.IsBlankFree) (ht : e.subject = some t) : t.isBlank = false :=
  h t (mem_terms.2 (.inl ht))

theorem predicate (h : e.IsBlankFree) : e.predicate.isBlank = false :=
  h _ (mem_terms.2 (.inr (.inl rfl)))

theorem object (h : e.IsBlankFree) (ht : e.object = some t) : t.isBlank = false :=
  h t (mem_terms.2 (.inr (.inr (.inl ht))))

theorem graph (h : e.IsBlankFree) (ht : e.graph = some t) : t.isBlank = false :=
  h t (mem_terms.2 (.inr (.inr (.inr ht))))

end IsBlankFree

theorem any_isBlank {o : Option Term} (h : ∀ {t}, o = some t → t.isBlank = false) :
    o.any Term.isBlank = false := by
  cases o with
  | none => rfl
  | some t => exact h rfl

theorem needsPattern_eq (h : e.IsBlankFree) : e.needsPattern = e.isWildcard := by
  rw [needsPattern, any_isBlank h.subject, h.predicate, any_isBlank h.object]
  simp only [Bool.or_false]

theorem graph?_eq (h : e.IsBlankFree) :
    graph? e.graph = some ((StoreKind.dataset.place e.graph).map Term.folded) := by
  simp only [graph?, any_isBlank h.graph, Bool.false_eq_true, if_false]

/-! ### Patterns of edits -/

theorem patternSlot_some {labels : List Text} {x : Text} (h : t.isBlank = false) :
    patternSlot labels x (some t) = .term t := by
  cases t with
  | blank l => cases h
  | iri t => rfl
  | literal l => rfl

theorem term?_patternSlot {labels : List Text} {x : Text} (h : t.isBlank = false) :
    (patternSlot labels x (some t)).term? β = some t.folded := by
  rw [patternSlot_some h, Slot.term?, h, if_neg Bool.false_ne_true]

/-- A pattern has a place for each term of the edit, and a variable where there is none. -/
theorem quad?_pattern (h : e.IsBlankFree) : quad? β (e.graph, e.pattern) =
    ((e.subject.map Term.folded).or (β "s")).bind fun s =>
      ((e.object.map Term.folded).or (β "o")).map fun o =>
        ⟨s, e.predicate.folded, o, (StoreKind.dataset.place e.graph).map Term.folded⟩ := by
  have hs : (patternSlot e.blankLabels "s" e.subject).term? β =
      (e.subject.map Term.folded).or (β "s") := by
    rcases hs : e.subject with _ | s
    · rfl
    · rw [term?_patternSlot (h.subject hs)]; rfl
  have ho : (patternSlot e.blankLabels "o" e.object).term? β =
      (e.object.map Term.folded).or (β "o") := by
    rcases ho : e.object with _ | o
    · rfl
    · rw [term?_patternSlot (h.object ho)]; rfl
  simp only [quad?, pattern, hs, ho, term?_patternSlot h.predicate, graph?_eq h]
  rcases (e.subject.map Term.folded).or (β "s") with _ | s
  · rfl
  rcases (e.object.map Term.folded).or (β "o") with _ | o
  · rfl
  · rfl

theorem mem_targets_iff_quad? (h : e.IsBlankFree) :
    q ∈ e.targets .dataset ↔ ∃ β, quad? β (e.graph, e.pattern) = some q := by
  obtain ⟨qs, qp, qo, qg⟩ := q
  constructor
  · rintro ⟨hs, hp, ho, hg⟩
    refine ⟨fun x => if x = "s" then some qs else some qo, ?_⟩
    have hs' : (e.subject.map Term.folded).or (some qs) = some qs := by
      rcases hes : e.subject with _ | s
      · rfl
      · simp only [Option.map_some, hs s hes, Option.some_or]
    have ho' : (e.object.map Term.folded).or (some qo) = some qo := by
      rcases heo : e.object with _ | o
      · rfl
      · simp only [Option.map_some, ho o heo, Option.some_or]
    have hne : ("o" : Text) ≠ "s" := by decide
    rw [quad?_pattern h]
    simp only [if_true, if_neg hne, hs', ho', hp, hg, Option.bind_some, Option.map_some]
  · rintro ⟨β, hβ⟩
    rw [quad?_pattern h] at hβ
    simp only [Option.bind_eq_some_iff, Option.map_eq_some_iff, Quad.mk.injEq] at hβ
    obtain ⟨s, hs, o, ho, rfl, hp, rfl, hg⟩ := hβ
    refine ⟨fun t ht => ?_, hp, fun t ht => ?_, hg⟩
    · rw [ht] at hs; exact Option.some.inj hs
    · rw [ht] at ho; exact Option.some.inj ho

theorem triple_eq_pattern (h : e.IsBlankFree) (hw : e.isWildcard = false) :
    e.triple = e.pattern := by
  obtain ⟨s, o, hs, ho⟩ := eq_some_of_isWildcard hw
  simp only [triple, pattern, hs, ho, patternSlot_some (h.subject hs),
    patternSlot_some (h.object ho), patternSlot_some h.predicate]
  rfl

theorem quad?_triple (h : e.IsBlankFree) (hw : e.isWildcard = false) :
    ∃ q, ∀ β, quad? β (e.graph, e.triple) = some q := by
  obtain ⟨s, o, hs, ho⟩ := eq_some_of_isWildcard hw
  exact ⟨_, fun β => by rw [triple_eq_pattern h hw, quad?_pattern h, hs, ho]; rfl⟩

theorem mem_targets_iff_triple (h : e.IsBlankFree) (hw : e.isWildcard = false) :
    q ∈ e.targets .dataset ↔ quad? β (e.graph, e.triple) = some q := by
  obtain ⟨q', hq⟩ := quad?_triple h hw
  rw [mem_targets_iff_quad? h, ← triple_eq_pattern h hw]
  constructor
  · rintro ⟨β', h'⟩; rwa [hq] at h' ⊢
  · exact fun h' => ⟨β, h'⟩

theorem mem_lines_triples {line : Option Term × Pattern} :
    line ∈ Assoc.entries (blocks (EditSet.triples es)) ↔ ∃ e ∈ es, (e.graph, e.triple) = line := by
  rw [blocks, (Assoc.entries_collect_perm _).mem_iff, EditSet.triples, List.mem_map]

theorem mapM_quad?_triples (h : ∀ e ∈ es, e.IsBlankFree) (hw : ∀ e ∈ es, e.isWildcard = false) :
    ∃ qs, (Assoc.entries (blocks (EditSet.triples es))).mapM (quad? β) = some qs ∧
      { q | q ∈ qs } = allTargets .dataset es := by
  have hsome : ∀ line ∈ Assoc.entries (blocks (EditSet.triples es)), ∃ q, quad? β line = some q := by
    intro line hl
    obtain ⟨e, he, rfl⟩ := mem_lines_triples.1 hl
    obtain ⟨q, hq⟩ := quad?_triple (h e he) (hw e he)
    exact ⟨q, hq β⟩
  obtain ⟨qs, hqs, hmem⟩ := exists_mapM_option hsome
  refine ⟨qs, hqs, ?_⟩
  ext q
  simp only [Set.mem_ofPred_eq, hmem, allTargets]
  constructor
  · rintro ⟨line, hl, hq⟩
    obtain ⟨e, he, rfl⟩ := mem_lines_triples.1 hl
    exact ⟨e, he, (mem_targets_iff_triple (h e he) (hw e he)).2 hq⟩
  · rintro ⟨e, he, hq⟩
    exact ⟨_, mem_lines_triples.2 ⟨e, he, rfl⟩, (mem_targets_iff_triple (h e he) (hw e he)).1 hq⟩

/-! ### Operations of edits -/

variable {D : Set Quad}

theorem execute_deleteWhere (h : e.IsBlankFree) :
    Update.execute D (.deleteWhere e.graph e.pattern) = some (D \ e.targets .dataset) := by
  rw [Update.execute_deleteWhere_eq]
  congr 2
  ext q
  exact (mem_targets_iff_quad? h).symm

theorem execute_deleteWheres (h : ∀ e ∈ es, e.IsBlankFree) :
    execute (es.map fun e => .deleteWhere e.graph e.pattern) D =
      some (D \ allTargets .dataset es) := by
  induction es generalizing D with
  | nil => rw [allTargets_nil, Set.sdiff_empty]; rfl
  | cons e es ih =>
    have ih := ih (D := D \ e.targets .dataset) fun e he => h e (List.mem_cons_of_mem _ he)
    rw [allTargets_cons, ← Set.sdiff_sdiff, ← ih, List.map_cons, execute, List.foldlM_cons,
      execute_deleteWhere (h e (List.mem_cons_self ..))]
    rfl

theorem execute_deleteData (h : ∀ e ∈ es, e.IsBlankFree) (hw : ∀ e ∈ es, e.isWildcard = false) :
    Update.execute D (.deleteData (EditSet.triples es)) = some (D \ allTargets .dataset es) := by
  obtain ⟨qs, hqs, hm⟩ := mapM_quad?_triples (β := fun _ => none) h hw
  rw [Update.execute, Update.lines, Update.blocks, hqs, ← hm]
  rfl

theorem execute_insertData (h : ∀ e ∈ es, e.IsBlankFree) (hw : ∀ e ∈ es, e.isWildcard = false) :
    Update.execute D (.insertData (EditSet.triples es)) = some (D ∪ allTargets .dataset es) := by
  obtain ⟨qs, hqs, hm⟩ := mapM_quad?_triples (β := fun _ => none) h hw
  rw [Update.execute, Update.lines, Update.blocks, hqs, ← hm]
  rfl

end Edit

namespace EditSet

variable {set : EditSet} {D : Set Quad}

/-! ### The operations of an edit set -/

/-- The operation on all data of some edits, if there are any. -/
def dataUpdate (u : List (Option Term × Pattern) → Update) (es : List Edit) : List Update :=
  if es.isEmpty then [] else [u (triples es)]

theorem updates_eq (h : ∀ e ∈ set.deletes, e.IsBlankFree) : set.updates =
    (set.deletes.filter (·.isWildcard)).map (fun e => .deleteWhere e.graph e.pattern) ++
      dataUpdate .deleteData (set.deletes.filter (!·.isWildcard)) ++
      dataUpdate .insertData set.inserts := by
  have hp : set.deletes.filter (·.needsPattern) = set.deletes.filter (·.isWildcard) :=
    List.filter_congr fun e he => Edit.needsPattern_eq (h e he)
  have hc : set.deletes.filter (!·.needsPattern) = set.deletes.filter (!·.isWildcard) :=
    List.filter_congr fun e he => by rw [Edit.needsPattern_eq (h e he)]
  rw [updates, hp, hc]
  rfl

theorem execute_append {us vs : List Update} {D' : Set Quad} (h : execute us D = some D') :
    execute (us ++ vs) D = execute vs D' := by
  rw [execute, List.foldlM_append, ← execute, h]
  rfl

theorem execute_dataUpdate {u : List (Option Term × Pattern) → Update} {es : List Edit}
    {D' : Set Quad} (hnil : es = [] → D' = D) (h : Update.execute D (u (triples es)) = some D') :
    execute (dataUpdate u es) D = some D' := by
  rcases es with _ | ⟨e, es⟩
  · rw [hnil rfl]; rfl
  · show [u (triples (e :: es))].foldlM Update.execute D = _
    rw [List.foldlM_cons, h]
    rfl

/-- Executing the operations takes the targets of the deletes out and then puts those of the inserts
in: the order of the deletes does not matter. -/
theorem execute_updates_eq (hd : ∀ e ∈ set.deletes, e.IsBlankFree)
    (hi : ∀ e ∈ set.inserts, e.IsBlankFree) (hw : ∀ e ∈ set.inserts, e.isWildcard = false) :
    execute set.updates D =
      some (D \ Edit.allTargets .dataset set.deletes ∪ Edit.allTargets .dataset set.inserts) := by
  have hwild : execute ((set.deletes.filter (·.isWildcard)).map
      fun e => .deleteWhere e.graph e.pattern) D =
        some (D \ Edit.allTargets .dataset (set.deletes.filter (·.isWildcard))) :=
    Edit.execute_deleteWheres fun e he => hd e (List.mem_of_mem_filter he)
  have hconcrete : ∀ D : Set Quad,
      execute (dataUpdate .deleteData (set.deletes.filter (!·.isWildcard))) D =
        some (D \ Edit.allTargets .dataset (set.deletes.filter (!·.isWildcard))) := by
    intro D
    refine execute_dataUpdate (fun h => ?_) (Edit.execute_deleteData (fun e he => ?_) fun e he => ?_)
    · rw [h, Edit.allTargets_nil, Set.sdiff_empty]
    · exact hd e (Edit.mem_filter_not_isWildcard.1 he).1
    · exact (Edit.mem_filter_not_isWildcard.1 he).2
  have hinserts : ∀ D : Set Quad, execute (dataUpdate .insertData set.inserts) D =
      some (D ∪ Edit.allTargets .dataset set.inserts) := by
    intro D
    refine execute_dataUpdate (fun h => ?_) (Edit.execute_insertData hi hw)
    rw [h, Edit.allTargets_nil, Set.union_empty]
  rw [updates_eq hd, List.append_assoc, execute_append hwild, execute_append (hconcrete _),
    hinserts, Set.sdiff_sdiff, Edit.allTargets_filter_union]

end EditSet

end FormEdits
