import FormEdits.Proofs.Edit.Execution

/-! # The text of a SPARQL update

`Update.WrittenAs` is the text of an operation, block by block, and `Update.printed` lists what
stands in its blocks: each edit once, as the operation that it is and in its own graph
(`EditSet.printed_perm`). An edit set without blank nodes whose terms can be written has a SPARQL
update (`EditSet.writes_updates`). -/

namespace FormEdits

namespace Sparql

/-- The patterns of an operation with what is done to them. -/
def Update.printed (u : Update) : List (Operation × Option Term × Pattern) :=
  u.lines.map (Prod.mk u.operation)

/-- A term is written in N3 and a variable after a question mark. -/
def Slot.WrittenAs : Slot → Text → Prop
  | .term u, t => Written.term u = .ok t
  | .variable x, t => t = '?' :: x
  | .missing, _ => False

def Pattern.WrittenAs (p : Pattern) (t : Text) : Prop :=
  ∃ s v o, p.subject.WrittenAs s ∧ p.predicate.WrittenAs v ∧ p.object.WrittenAs o ∧
    t = s ++ " " ++ v ++ " " ++ o ++ " ."

/-- The patterns stand on lines of their own, those of a named graph inside its `GRAPH` block and
those of the default graph outside of any. -/
def Block.WrittenAs (b : Block) (t : Text) : Prop :=
  ∃ lines, List.Forall₂ Pattern.WrittenAs b.2 lines ∧
    ((b.1 = none ∧ t = indented "  " lines) ∨
      ∃ g name, b.1 = some g ∧ Written.term g = .ok name ∧
        t = "  GRAPH " ++ name ++ " \x7b\n" ++ indented "    " lines ++ "  \x7d\n")

def Update.WrittenAs (u : Update) (t : Text) : Prop :=
  ∃ parts, List.Forall₂ Block.WrittenAs u.blocks parts ∧
    t = u.keyword ++ " \x7b\n" ++ parts.flatten ++ "\x7d"

end Sparql

open Sparql

namespace Edit

variable {e : Edit}

def IsWritable (e : Edit) : Prop := ∀ t ∈ e.terms, ∃ w, Written.term t = .ok w

theorem writes_patternSlot (labels : List Text) (x : Text) {o : Option Term}
    (h : ∀ t, o = some t → ∃ w, Written.term t = .ok w) :
    Succeeds (patternSlot labels x o).text := by
  rcases o with _ | t
  · exact .ok _
  cases t with
  | blank l => exact .ok _
  | iri t =>
    obtain ⟨w, hw⟩ := h _ rfl
    exact .of_eq_ok hw
  | literal l => exact .ok _

theorem writes_pattern (h : e.IsWritable) : Succeeds e.pattern.text := by
  have hs := writes_patternSlot e.blankLabels "s" fun t ht => h t (mem_terms.2 (.inl ht))
  have hp := writes_patternSlot e.blankLabels "p" fun t ht =>
    h t (mem_terms.2 (.inr (.inl (Option.some.inj ht))))
  have ho := writes_patternSlot e.blankLabels "o" fun t ht =>
    h t (mem_terms.2 (.inr (.inr (.inl ht))))
  exact hs.bind fun _ => hp.bind fun _ => ho.bind fun _ => .ok _

theorem writes_triple (hb : e.IsBlankFree) (hw : e.isWildcard = false) (h : e.IsWritable) :
    Succeeds e.triple.text := by
  rw [triple_eq_pattern hb hw]
  exact writes_pattern h

end Edit

namespace Sparql

theorem errorsIn_blockText {P : Error → Prop} {b : Block} (hp : ∀ p ∈ b.2, ErrorsIn P p.text)
    (hg : ∀ g, b.1 = some g → ErrorsIn P (Written.term g)) : ErrorsIn P (blockText b) := by
  refine (ErrorsIn.mapM hp).bind fun lines => ?_
  rcases hb : b.1 with _ | g
  · exact .ok _
  · exact (hg g hb).bind fun _ => .ok _

theorem errorsIn_dataText {P : Error → Prop} {es : List Edit}
    (ht : ∀ e ∈ es, ErrorsIn P e.triple.text)
    (hg : ∀ e ∈ es, ∀ g, e.graph = some g → ErrorsIn P (Written.term g)) :
    ErrorsIn P (dataText (EditSet.triples es)) := by
  have htriples : ∀ t ∈ EditSet.triples es, ErrorsIn P t.2.text := by
    intro t hmem
    obtain ⟨e, he, rfl⟩ := List.mem_map.1 hmem
    exact ht e he
  have hblocks : ∀ b ∈ blocks (EditSet.triples es), ErrorsIn P (blockText b) := by
    intro b hmem
    refine errorsIn_blockText (fun p hp => ?_) fun g hb => ?_
    · obtain ⟨e, he, hl⟩ := Edit.mem_lines_triples.1 (Assoc.mem_entries hmem hp)
      obtain rfl : e.triple = p := (Prod.mk.inj hl).2
      exact ht e he
    · obtain ⟨t, hmem', hk⟩ := Assoc.mem_keys_collect.1 (List.mem_map_of_mem hmem)
      obtain ⟨e, he, rfl⟩ := List.mem_map.1 hmem'
      exact hg e he g (hk.trans hb)
  exact (ErrorsIn.mapM htriples).bind fun _ => (ErrorsIn.mapM hblocks).bind fun _ => .ok _

theorem writes_graph {e : Edit} (h : e.IsWritable) (g : Term) (hg : e.graph = some g) :
    Succeeds (Written.term g) := by
  obtain ⟨w, hw⟩ := h g (Edit.mem_terms.2 (.inr (.inr (.inr hg))))
  exact .of_eq_ok hw

theorem writes_dataText {es : List Edit} (hb : ∀ e ∈ es, e.IsBlankFree)
    (hw : ∀ e ∈ es, e.isWildcard = false) (h : ∀ e ∈ es, e.IsWritable) :
    Succeeds (dataText (EditSet.triples es)) :=
  errorsIn_dataText (fun e he => Edit.writes_triple (hb e he) (hw e he) (h e he))
    fun e he => writes_graph (h e he)

theorem Slot.writtenAs_of_text : ∀ {s : Slot} {t : Text}, s.text = .ok t → s.WrittenAs t
  | .term _, _, h => h
  | .variable _, _, h => by cases h; rfl
  | .missing, _, h => by cases h

theorem Pattern.writtenAs_of_text {p : Pattern} {t : Text} (h : p.text = .ok t) :
    p.WrittenAs t := by
  unfold text at h
  rcases hs : p.subject.text with e | s
  · rw [hs] at h; cases h
  rcases hv : p.predicate.text with e | v
  · rw [hs, hv] at h; cases h
  rcases ho : p.object.text with e | o
  · rw [hs, hv, ho] at h; cases h
  rw [hs, hv, ho] at h
  cases h
  exact ⟨s, v, o, Slot.writtenAs_of_text hs, Slot.writtenAs_of_text hv,
    Slot.writtenAs_of_text ho, rfl⟩

theorem writtenAs_of_blockText {b : Block} {t : Text} (h : blockText b = .ok t) :
    Block.WrittenAs b t := by
  unfold blockText at h
  rcases hl : b.2.mapM Pattern.text with e | lines
  · rw [hl] at h; cases h
  rw [hl] at h
  have hlines : List.Forall₂ Pattern.WrittenAs b.2 lines :=
    (forall₂_of_mapM hl).imp fun p t => Pattern.writtenAs_of_text
  rcases hb : b.1 with _ | g
  · simp only [hb] at h
    cases h
    exact ⟨lines, hlines, .inl ⟨hb, rfl⟩⟩
  · simp only [hb] at h
    rcases hg : Written.term g with e | name
    · rw [hg] at h; cases h
    · rw [hg] at h; cases h
      exact ⟨lines, hlines, .inr ⟨g, name, hb, hg, rfl⟩⟩

theorem writtenAs_of_dataText {ts : List (Option Term × Pattern)} {t : Text}
    (h : dataText ts = .ok t) :
    ∃ parts, List.Forall₂ Block.WrittenAs (blocks ts) parts ∧ t = parts.flatten := by
  unfold dataText at h
  rcases hts : ts.mapM fun t => t.2.text with e | lines
  · rw [hts] at h; cases h
  rw [hts] at h
  rcases hb : (blocks ts).mapM blockText with e | parts
  · rw [hb] at h; cases h
  · rw [hb] at h; cases h
    exact ⟨parts, (forall₂_of_mapM hb).imp fun b t => writtenAs_of_blockText, rfl⟩

theorem Update.writtenAs_of_text {u : Update} {t : Text} (h : u.text = .ok t) : u.WrittenAs t := by
  cases u with
  | deleteWhere g p =>
    rcases hb : blockText (g, [p]) with e | part
    · rw [text, hb] at h; cases h
    · rw [text, hb] at h; cases h
      refine ⟨[part], .cons (writtenAs_of_blockText hb) .nil, ?_⟩
      rw [List.flatten_singleton]
      rfl
  | deleteData ts =>
    rcases hd : dataText ts with e | t'
    · rw [text, hd] at h; cases h
    · rw [text, hd] at h; cases h
      obtain ⟨parts, hp, rfl⟩ := writtenAs_of_dataText hd
      exact ⟨parts, hp, rfl⟩
  | insertData ts =>
    rcases hd : dataText ts with e | t'
    · rw [text, hd] at h; cases h
    · rw [text, hd] at h; cases h
      obtain ⟨parts, hp, rfl⟩ := writtenAs_of_dataText hd
      exact ⟨parts, hp, rfl⟩

end Sparql

namespace EditSet

variable {set : EditSet}

/-! ### The update of an edit set -/

/-- What the operations are written with are the edits, each once, as the operation that it is and in
its own graph. -/
theorem printed_perm (hd : ∀ e ∈ set.deletes, e.IsBlankFree) :
    (set.updates.flatMap Update.printed).Perm
      (set.deletes.map (fun e => (.delete, e.graph, e.pattern)) ++
        set.inserts.map fun e => (.insert, e.graph, e.triple)) := by
  have hdata : ∀ (u : List (Option Term × Pattern) → Update) (op : Operation) (es : List Edit),
      (∀ ts, (u ts).printed = (Assoc.entries (blocks ts)).map (Prod.mk op)) →
        ((dataUpdate u es).flatMap Update.printed).Perm
          (es.map fun e => (op, e.graph, e.triple)) := by
    intro u op es hu
    rcases es with _ | ⟨e, es⟩
    · exact .refl _
    · show ([u (triples (e :: es))].flatMap Update.printed).Perm _
      rw [List.flatMap_singleton, hu]
      refine ((Assoc.entries_collect_perm (triples (e :: es))).map _).trans ?_
      rw [triples, List.map_map]
      exact .refl _
  have hwild : ((set.deletes.filter (·.isWildcard)).map
      fun e => Update.deleteWhere e.graph e.pattern).flatMap Update.printed =
        (set.deletes.filter (·.isWildcard)).map fun e => (.delete, e.graph, e.pattern) := by
    rw [List.flatMap_map, List.map_eq_flatMap]
    rfl
  have hconcrete : (set.deletes.filter (!·.isWildcard)).map
      (fun e => (Operation.delete, e.graph, e.triple)) =
        (set.deletes.filter (!·.isWildcard)).map fun e => (.delete, e.graph, e.pattern) := by
    refine List.map_congr_left fun e he => ?_
    obtain ⟨he, hw⟩ := Edit.mem_filter_not_isWildcard.1 he
    rw [Edit.triple_eq_pattern (hd e he) hw]
  have hdeletes := hdata .deleteData .delete (set.deletes.filter (!·.isWildcard)) fun _ => rfl
  rw [hconcrete] at hdeletes
  rw [updates_eq hd, List.flatMap_append, List.flatMap_append, hwild]
  refine ((hdeletes.append_left _).trans ?_).append (hdata .insertData .insert _ fun _ => rfl)
  rw [← List.map_append]
  exact (List.filter_append_perm _ _).map _

/-- Every operation of an edit set whose terms can be written is written. -/
theorem writes_updates (hd : ∀ e ∈ set.deletes, e.IsBlankFree)
    (hi : ∀ e ∈ set.inserts, e.IsBlankFree) (hw : ∀ e ∈ set.inserts, e.isWildcard = false)
    (h : ∀ e ∈ set.toList, e.IsWritable) :
    Succeeds (set.updates.mapM Update.text) := by
  have hdata : ∀ (u : List (Option Term × Pattern) → Update) (es : List Edit),
      Succeeds (u (triples es)).text →
        ∀ v ∈ dataUpdate u es, Succeeds v.text := by
    intro u es hu v hv
    unfold dataUpdate at hv
    split at hv
    · cases hv
    · rw [List.mem_singleton.1 hv]; exact hu
  have hdel : ∀ e ∈ set.deletes, e.IsWritable := fun e he => h e (List.mem_append_left _ he)
  have hins : ∀ e ∈ set.inserts, e.IsWritable := fun e he => h e (List.mem_append_right _ he)
  refine .mapM fun u hu => ?_
  rw [updates_eq hd] at hu
  rcases List.mem_append.1 hu with hu | hu
  · rcases List.mem_append.1 hu with hu | hu
    · obtain ⟨e, he, rfl⟩ := List.mem_map.1 hu
      have he := List.mem_of_mem_filter he
      refine (errorsIn_blockText (fun p hp => ?_) (writes_graph (hdel e he))).map
      rw [List.mem_singleton.1 hp]
      exact Edit.writes_pattern (hdel e he)
    · refine hdata .deleteData _ (ErrorsIn.map (writes_dataText (fun e he => ?_) (fun e he => ?_)
        fun e he => ?_)) u hu
      · exact hd e (Edit.mem_filter_not_isWildcard.1 he).1
      · exact (Edit.mem_filter_not_isWildcard.1 he).2
      · exact hdel e (Edit.mem_filter_not_isWildcard.1 he).1
  · exact hdata .insertData _ (ErrorsIn.map (writes_dataText hi hw hins)) u hu

theorem writtenAs_of_sparql {text : Text} (h : set.sparql = .ok text) :
    ∃ texts, text = List.intercalate " ;\n" texts ∧ List.Forall₂ Update.WrittenAs set.updates texts := by
  obtain ⟨texts, ht, rfl⟩ := exists_ok_of_map h
  exact ⟨texts, rfl, (forall₂_of_mapM ht).imp fun u t => Update.writtenAs_of_text⟩

end EditSet

end FormEdits
