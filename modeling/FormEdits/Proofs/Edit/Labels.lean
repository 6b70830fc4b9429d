import FormEdits.Proofs.Edit.Written

/-! # Labels of blank nodes in an update

A delete must not name a blank node. In its patterns variables stand for the blank nodes, and a
delete that is written as data has none of them; but the graph of an edit is written as it is, so
the operations that delete have a label in them exactly if some delete is in a blank graph
(`EditSet.exists_isLabel_graphNames_iff`). -/

namespace FormEdits

theorem Text.head?_replaceAll {o c : Char} {os new r : Text} (h : o ≠ c) :
    (Text.replaceAll (o :: os) new (c :: r)).head? = some c := by
  rw [replaceAll, replaceFrom, if_neg (by simp [h])]
  rfl

namespace Written

theorem head?_literal (l : Literal) : (literal l).head? = some '"' := by
  have hquoted : ∀ quoted : Text, quoted.head? = some '"' →
      (specialNumbers l quoted).head? = some '"' := by
    intro quoted hq
    have hreplace : ∀ {o : Char} (os new : Text) {t : Text}, o ≠ '"' → t.head? = some '"' →
        (Text.replaceAll (o :: os) new t).head? = some '"' := by
      rintro o os new (_ | ⟨c, r⟩) ho ht
      · cases ht
      · cases ht; exact Text.head?_replaceAll ho
    unfold specialNumbers
    split
    · split
      · exact hreplace _ _ (by decide) (hreplace _ _ (by decide) hq)
      · split
        · exact hreplace _ _ (by decide) hq
        · exact hq
    · exact hq
  have hhead := hquoted (if l.text.contains '\n' then block l.text else line l.text) (by
    split <;> rfl)
  unfold literal
  rw [List.head?_append, hhead]
  rfl

end Written

namespace Sparql

/-- A place that is written as the label of a blank node. -/
def Slot.IsLabel (s : Slot) : Prop := ∃ t, s.WrittenAs t ∧ "_:" <+: t

theorem Slot.isLabel_iff {s : Slot} : s.IsLabel ↔ ∃ l, s = .term (.blank l) := by
  constructor
  · rintro ⟨t, ht, rest, rfl⟩
    rcases s with (iri | l | l) | x | _
    · -- an IRI is written between angle brackets
      change Written.iri iri = _ at ht
      rw [Written.iri] at ht
      split at ht <;> cases ht
    · exact ⟨l, rfl⟩
    · have hhead := Written.head?_literal l
      rw [Except.ok.inj ht] at hhead
      cases hhead
    · cases ht
    · exact ht.elim
  · rintro ⟨l, rfl⟩
    exact ⟨_, rfl, l, rfl⟩

/-- The three places of a pattern. -/
def Pattern.slots (p : Pattern) : List Slot := [p.subject, p.predicate, p.object]

theorem Pattern.forall_mem_slots {p : Pattern} {P : Slot → Prop} :
    (∀ q ∈ p.slots, P q) ↔ P p.subject ∧ P p.predicate ∧ P p.object := by
  simp [slots]

namespace Update

/-- The places of the patterns of an operation. -/
def slots (u : Update) : List Slot := u.blocks.flatMap fun b => b.2.flatMap Pattern.slots

/-- The names of the graphs that an operation has blocks for. -/
def graphNames (u : Update) : List Slot := u.blocks.filterMap fun b => b.1.map .term

end Update

end Sparql

open Sparql

namespace Edit

variable {e : Edit}

theorem not_isLabel_patternSlot (labels : List Text) (x : Text) (t : Option Term) :
    ¬ (patternSlot labels x t).IsLabel := by
  rw [Slot.isLabel_iff]
  rcases t with _ | (iri | label | l)
  all_goals rintro ⟨_, h⟩; cases h

theorem not_isLabel_pattern (e : Edit) : ∀ p ∈ e.pattern.slots, ¬ p.IsLabel :=
  Pattern.forall_mem_slots.2
    ⟨not_isLabel_patternSlot _ _ _, not_isLabel_patternSlot _ _ _, not_isLabel_patternSlot _ _ _⟩

theorem not_isLabel_triple (h : e.needsPattern = false) : ∀ p ∈ e.triple.slots, ¬ p.IsLabel := by
  simp only [needsPattern, Bool.or_eq_false_iff] at h
  obtain ⟨⟨⟨-, hs⟩, hv⟩, ho⟩ := h
  have hslot : ∀ t : Option Term, t.any Term.isBlank = false →
      ¬ ((t.map Slot.term).getD .missing).IsLabel := by
    intro t ht
    rw [Slot.isLabel_iff]
    rintro ⟨l, hl⟩
    rcases t with _ | t
    · cases hl
    · cases hl; cases ht
  exact Pattern.forall_mem_slots.2 ⟨hslot _ hs, hslot (some e.predicate) hv, hslot _ ho⟩

end Edit

namespace EditSet

variable {set : EditSet} {u : Update}

/-- The blocks of an operation that deletes are in graphs of deletes, and no place in them is a
label. -/
theorem blocks_of_delete (hu : u ∈ set.updates) (hop : u.operation = .delete) {b : Block}
    (hb : b ∈ u.blocks) :
    (∃ e ∈ set.deletes, e.graph = b.1) ∧ ∀ p ∈ b.2, ∀ q ∈ p.slots, ¬ q.IsLabel := by
  rcases List.mem_append.1 hu with hu | hu
  · rcases List.mem_append.1 hu with hu | hu
    · obtain ⟨e, he, rfl⟩ := List.mem_map.1 hu
      obtain rfl := List.mem_singleton.1 hb
      refine ⟨⟨e, List.mem_of_mem_filter he, rfl⟩, fun p hp => ?_⟩
      obtain rfl := List.mem_singleton.1 hp
      exact e.not_isLabel_pattern
    · split at hu
      · cases hu
      obtain rfl := List.mem_singleton.1 hu
      constructor
      · obtain ⟨t, ht, hk⟩ := Assoc.mem_keys_collect.1 (List.mem_map_of_mem hb)
        obtain ⟨e, he, rfl⟩ := List.mem_map.1 ht
        exact ⟨e, List.mem_of_mem_filter he, hk⟩
      · intro p hp
        obtain ⟨e, he, hl⟩ := Edit.mem_lines_triples.1 (Assoc.mem_entries hb hp)
        obtain rfl : e.triple = p := (Prod.mk.inj hl).2
        exact Edit.not_isLabel_triple (by simpa using (List.mem_filter.1 he).2)
  · split at hu
    · cases hu
    · obtain rfl := List.mem_singleton.1 hu
      cases hop

theorem mem_dataUpdates {es : List Edit} {e : Edit} (he : e ∈ es)
    (v : List (Option Term × Pattern) → Update) :
    v (triples es) ∈ (if es.isEmpty then [] else [v (triples es)]) ∧
      (e.graph, e.triple) ∈ Assoc.entries (blocks (triples es)) := by
  have hne : es.isEmpty = false := by
    rw [List.isEmpty_eq_false_iff]; exact List.ne_nil_of_mem he
  rw [if_neg (by rw [hne]; exact Bool.false_ne_true)]
  exact ⟨List.mem_singleton_self _, Edit.mem_lines_triples.2 ⟨e, he, rfl⟩⟩

theorem exists_line_of_mem_deletes {e : Edit} (he : e ∈ set.deletes) :
    ∃ u ∈ set.updates, u.operation = .delete ∧
      ∃ p, (p = e.pattern ∨ p = e.triple) ∧ (e.graph, p) ∈ u.lines := by
  rcases hp : e.needsPattern with _ | _
  · have hconcrete : e ∈ set.deletes.filter (!·.needsPattern) :=
      List.mem_filter.2 ⟨he, by rw [hp]; rfl⟩
    obtain ⟨hu, hline⟩ := mem_dataUpdates hconcrete .deleteData
    exact ⟨_, List.mem_append_left _ (List.mem_append_right _ hu), rfl, _, .inr rfl, hline⟩
  · refine ⟨.deleteWhere e.graph e.pattern, List.mem_append_left _ (List.mem_append_left _ ?_),
      rfl, _, .inl rfl, List.mem_singleton_self _⟩
    exact List.mem_map_of_mem (List.mem_filter.2 ⟨he, hp⟩)

theorem exists_line_of_mem_inserts {e : Edit} (he : e ∈ set.inserts) :
    ∃ u ∈ set.updates, u.operation = .insert ∧ (e.graph, e.triple) ∈ u.lines := by
  obtain ⟨hu, hline⟩ := mem_dataUpdates he .insertData
  exact ⟨_, List.mem_append_right _ hu, rfl, hline⟩

theorem not_isLabel_slots (hu : u ∈ set.updates) (hop : u.operation = .delete) :
    ∀ q ∈ u.slots, ¬ q.IsLabel := by
  intro q hq
  obtain ⟨b, hb, hq⟩ := List.mem_flatMap.1 hq
  obtain ⟨p, hp, hq⟩ := List.mem_flatMap.1 hq
  exact (blocks_of_delete hu hop hb).2 p hp q hq

/-- A delete in a blank graph, and nothing else, puts the label of a blank node in an operation that
deletes. -/
theorem exists_isLabel_graphNames_iff :
    (∃ u ∈ set.updates, u.operation = .delete ∧ ∃ q ∈ u.graphNames, q.IsLabel) ↔
      ∃ e ∈ set.deletes, ∃ l, e.graph = some (.blank l) := by
  constructor
  · rintro ⟨u, hu, hop, q, hq, hlabel⟩
    obtain ⟨l, rfl⟩ := Slot.isLabel_iff.1 hlabel
    obtain ⟨b, hb, hg⟩ := List.mem_filterMap.1 hq
    obtain ⟨g, hg, ht⟩ := Option.map_eq_some_iff.1 hg
    obtain ⟨e, he, hgraph⟩ := (blocks_of_delete hu hop hb).1
    refine ⟨e, he, l, ?_⟩
    rw [hgraph, hg, Slot.term.inj ht]
  · rintro ⟨e, he, l, hl⟩
    obtain ⟨u, hu, hop, p, -, hline⟩ := exists_line_of_mem_deletes he
    obtain ⟨b, hb, hg, -⟩ := Assoc.exists_of_mem_entries hline
    refine ⟨u, hu, hop, .term (.blank l), ?_, Slot.isLabel_iff.2 ⟨l, rfl⟩⟩
    exact List.mem_filterMap.2 ⟨b, hb, by rw [hg, hl]; rfl⟩

end EditSet

end FormEdits
