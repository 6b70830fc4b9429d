import FormEdits.Proofs.Edit.Tokens

/-! # Reading a SPARQL update back

`Sparql.read?` reads the part of SPARQL 1.1 that updates are written in: operations with semicolons
between them, and in their braces triples with points behind them, alone or in `GRAPH` blocks. A
`DELETE WHERE` has one pattern, and what is inserted or deleted as data has no variable. What an edit
set without blank nodes is written as is read as the operations of the set, with the triples in the
order in which they are written, if its terms are readable; executing what is read leaves the quads
that applying the set leaves (`EditSet.execute_read`). -/

namespace FormEdits

namespace Sparql

def Slot.isVariable : Slot → Bool
  | .variable _ => true
  | _ => false

/-- Whether a triple may have the place in its middle. -/
def Slot.isVerb : Slot → Bool
  | .term (.iri _) => true
  | .variable _ => true
  | _ => false

def Pattern.hasVariable (p : Pattern) : Bool :=
  p.subject.isVariable || p.predicate.isVariable || p.object.isVariable

/-! ### Reading -/

/-- The triples with their graphs up to the last brace; the graph is that of the block that is being
read. -/
def lines? : Option Term → List Token → Option (List (Option Term × Pattern))
  | none, [.closing] => some []
  | some _, .closing :: ts => lines? none ts
  | none, .word w :: .slot (.term (.iri g)) :: .opening :: ts =>
    if w = "graph" then lines? (some (.iri g)) ts else none
  | g, .slot s :: .slot p :: .slot o :: .point :: ts =>
    if p.isVerb then (lines? g ts).map ((g, ⟨s, p, o⟩) :: ·) else none
  | _, _ => none

/-- The operation of two words and what stands in its braces. -/
def operation? (w w' : Text) (ls : List (Option Term × Pattern)) : Option Update :=
  if w = "delete" && w' = "where" then
    match ls with
    | [(g, p)] => some (.deleteWhere g p)
    | _ => none
  else if ls.any (·.2.hasVariable) then none
  else if w = "delete" && w' = "data" then some (.deleteData ls)
  else if w = "insert" && w' = "data" then some (.insertData ls)
  else none

def update? : List Token → Option Update
  | .word w :: .word w' :: .opening :: ts => (lines? none ts).bind (operation? w w')
  | _ => none

def read? (t : Text) : Option (List Update) :=
  (tokens? t).bind fun ts =>
    if ts = [] then some [] else (ts.splitOn .semicolon).mapM update?

/-! ### Tokens of what is written -/

def Pattern.tokens (p : Pattern) : List Token :=
  [.slot p.subject, .slot p.predicate, .slot p.object, .point]

def Block.tokens (b : Block) : List Token :=
  match b.1 with
  | none => b.2.flatMap Pattern.tokens
  | some g => [.word "graph", .slot (.term g), .opening] ++ b.2.flatMap Pattern.tokens ++ [.closing]

def Update.words : Update → List Token
  | deleteWhere _ _ => [.word "delete", .word "where"]
  | deleteData _ => [.word "delete", .word "data"]
  | insertData _ => [.word "insert", .word "data"]

def Update.tokens (u : Update) : List Token :=
  u.words ++ [.opening] ++ u.blocks.flatMap Block.tokens ++ [.closing]

/-- A pattern whose places are readable, with one in the middle that may be there. -/
structure Pattern.IsReadable (p : Pattern) : Prop where
  subject : p.subject.IsReadable
  predicate : p.predicate.IsReadable
  object : p.object.IsReadable
  verb : p.predicate.isVerb

/-- A block of readable patterns that is in no graph or in one with an IRI. -/
structure Block.IsReadable (b : Block) : Prop where
  patterns : ∀ p ∈ b.2, p.IsReadable
  graph : ∀ g, b.1 = some g → ∃ iri, g = .iri iri ∧ Term.IsReadable (.iri iri)

/-- Readable blocks, with no variable in those of data. -/
structure Update.IsReadable (u : Update) : Prop where
  blocks : ∀ b ∈ u.blocks, b.IsReadable
  data : (∀ g p, u ≠ .deleteWhere g p) → u.lines.any (·.2.hasVariable) = false

variable {p : Pattern} {b : Block} {u : Update} {t : Text}

theorem Pattern.spells (hp : p.IsReadable) (h : p.WrittenAs t) : Spells t p.tokens := by
  obtain ⟨s, v, o, hs, hv, ho, rfl⟩ := h
  have hspells := (spells_slot hp.subject hs).append ((spells_slot hp.predicate hv).append
    ((spells_slot hp.object ho).append .point))
  simpa [Pattern.tokens] using hspells

theorem spells_indented (blanks : Text) {ps : List Pattern} {lines : List Text}
    (hblanks : blanks.all isSpace) (hp : ∀ p ∈ ps, p.IsReadable)
    (h : List.Forall₂ Pattern.WrittenAs ps lines) :
    Spells (indented blanks lines) (ps.flatMap Pattern.tokens) := by
  induction h with
  | nil => exact .nil
  | @cons p l ps lines hl _ ih =>
    rw [List.forall_mem_cons] at hp
    have hline := ((Spells.spaces hblanks).append ((Pattern.spells hp.1 hl).append
      (Spells.space (c := '\n') rfl))).append (ih hp.2)
    simpa [indented] using hline

theorem Block.spells (hb : b.IsReadable) (h : b.WrittenAs t) : Spells t (Block.tokens b) := by
  obtain ⟨lines, hlines, ⟨hnone, rfl⟩ | ⟨g, name, hg, hname, rfl⟩⟩ := h
  · rw [Block.tokens, hnone]
    exact spells_indented "  " rfl hb.patterns hlines
  · obtain ⟨iri, rfl, hread⟩ := hb.graph g hg
    have hopen : Spells "  GRAPH " [.word "graph"] :=
      (Spells.spaces (w := [' ', ' ']) rfl).append (Spells.word (w := "GRAPH") (by decide) rfl)
    have hgraph : Spells (name ++ [' ']) [.slot (.term (.iri iri))] :=
      spells_slot (s := .term (.iri iri)) hread hname
    have hclose : Spells "  \x7d\n" [.closing] :=
      (Spells.spaces (w := [' ', ' ']) rfl).append (Spells.closing.append (.space rfl))
    have hspells := (hopen.append (hgraph.append (Spells.opening.append
      (Spells.space (c := '\n') rfl)))).append
        ((spells_indented "    " rfl hb.patterns hlines).append hclose)
    rw [Block.tokens, hg]
    simpa using hspells

theorem Update.spells_keyword (u : Update) :
    Spells (u.keyword ++ " \x7b\n") (u.words ++ [.opening]) := by
  have hwords : ∀ w w' : Text, w ≠ [] → w' ≠ [] → w.all isAsciiLetter → w'.all isAsciiLetter →
      Spells ((w ++ [' ']) ++ ((w' ++ [' ']) ++ (['\x7b'] ++ ['\n'])))
        ([.word (Text.asciiLower w)] ++ ([.word (Text.asciiLower w')] ++ ([.opening] ++ []))) :=
    fun w w' hw hw' ha ha' => (Spells.word hw ha).append ((Spells.word hw' ha').append
      (Spells.opening.append (.space rfl)))
  cases u with
  | deleteWhere g p => exact hwords "DELETE" "WHERE" (by decide) (by decide) rfl rfl
  | deleteData ts => exact hwords "DELETE" "DATA" (by decide) (by decide) rfl rfl
  | insertData ts => exact hwords "INSERT" "DATA" (by decide) (by decide) rfl rfl

theorem spells_blocks {bs : List Block} {parts : List Text} (hb : ∀ b ∈ bs, b.IsReadable)
    (h : List.Forall₂ Block.WrittenAs bs parts) :
    Spells parts.flatten (bs.flatMap Block.tokens) := by
  induction h with
  | nil => exact .nil
  | @cons b part bs parts hpart _ ih =>
    rw [List.forall_mem_cons] at hb
    rw [List.flatten_cons, List.flatMap_cons]
    exact (Block.spells hb.1 hpart).append (ih hb.2)

theorem Update.spells (hu : u.IsReadable) (h : u.WrittenAs t) : Spells t u.tokens := by
  obtain ⟨parts, hparts, rfl⟩ := h
  exact ((Update.spells_keyword u).append (spells_blocks hu.blocks hparts)).append .closing

theorem spells_updates {us : List Update} {texts : List Text} (hu : ∀ u ∈ us, u.IsReadable)
    (h : List.Forall₂ Update.WrittenAs us texts) :
    Spells (List.intercalate " ;\n" texts) ([.semicolon].intercalate (us.map Update.tokens)) := by
  have hbetween : Spells " ;\n" [.semicolon] :=
    (Spells.space (c := ' ') rfl).append (Spells.semicolon.append (.space rfl))
  induction h with
  | nil => exact .nil
  | @cons u t us texts ht h ih =>
    rw [List.forall_mem_cons] at hu
    have hhead := Update.spells hu.1 ht
    have htail := ih hu.2
    cases h with
    | nil => simpa using hhead
    | cons _ _ =>
      rw [List.map_cons] at htail
      rw [List.map_cons, List.map_cons, List.intercalate_cons_cons, List.intercalate_cons_cons]
      exact (hhead.append hbetween).append htail

/-! ### Reading what is written -/

theorem lines?_patterns (g : Option Term) {ps : List Pattern} (hp : ∀ p ∈ ps, p.IsReadable)
    (ts : List Token) : lines? g (ps.flatMap Pattern.tokens ++ ts) =
      (lines? g ts).map (ps.map (Prod.mk g) ++ ·) := by
  induction ps with
  | nil =>
    show lines? g ts = _
    cases lines? g ts <;> rfl
  | cons p ps ih =>
    rw [List.forall_mem_cons] at hp
    show lines? g (.slot p.subject :: .slot p.predicate :: .slot p.object :: .point ::
      (ps.flatMap Pattern.tokens ++ ts)) = _
    rw [lines?, if_pos hp.1.verb, ih hp.2, Option.map_map]
    rfl

theorem lines?_blocks {bs : List Block} (hb : ∀ b ∈ bs, b.IsReadable) :
    lines? none (bs.flatMap Block.tokens ++ [.closing]) = some (Assoc.entries bs) := by
  induction bs with
  | nil => rfl
  | cons b bs ih =>
    rw [List.forall_mem_cons] at hb
    obtain ⟨g, ps⟩ := b
    rw [List.flatMap_cons, List.append_assoc, Block.tokens]
    rcases g with _ | g
    · show lines? none (ps.flatMap Pattern.tokens ++ _) = _
      rw [lines?_patterns none hb.1.patterns, ih hb.2]
      rfl
    · obtain ⟨iri, rfl, -⟩ := hb.1.graph g rfl
      -- behind the brace of the block, the next one is read outside of any graph
      show lines? none (.word "graph" :: .slot (.term (.iri iri)) :: .opening ::
        (ps.flatMap Pattern.tokens ++ [.closing] ++ _)) = _
      rw [lines?, if_pos rfl, List.append_assoc, lines?_patterns _ hb.1.patterns]
      show (lines? none (bs.flatMap Block.tokens ++ [.closing])).map _ = _
      rw [ih hb.2]
      rfl

/-- The operation with its triples in the order in which they are written. -/
def Update.grouped : Update → Update
  | deleteWhere g p => deleteWhere g p
  | deleteData ts => deleteData (Assoc.entries (Sparql.blocks ts))
  | insertData ts => insertData (Assoc.entries (Sparql.blocks ts))

theorem update?_tokens (hu : u.IsReadable) : update? u.tokens = some u.grouped := by
  have hlines := lines?_blocks hu.blocks
  have hread : ∀ w w', u.words = [.word w, .word w'] →
      update? u.tokens = operation? w w' (Assoc.entries u.blocks) := by
    intro w w' hw
    rw [Update.tokens, hw]
    show (lines? none (u.blocks.flatMap Block.tokens ++ [.closing])).bind _ = _
    rw [hlines]
    rfl
  cases u with
  | deleteWhere g p => exact hread _ _ rfl
  | deleteData ts =>
    have hvariables : (Assoc.entries (blocks ts)).any (·.2.hasVariable) = false := hu.data nofun
    rw [hread _ _ rfl]
    show (if (Assoc.entries (blocks ts)).any (·.2.hasVariable) then none else _) = _
    rw [hvariables]
    rfl
  | insertData ts =>
    have hvariables : (Assoc.entries (blocks ts)).any (·.2.hasVariable) = false := hu.data nofun
    rw [hread _ _ rfl]
    show (if (Assoc.entries (blocks ts)).any (·.2.hasVariable) then none else _) = _
    rw [hvariables]
    rfl

theorem semicolon_notMem_tokens (u : Update) : Token.semicolon ∉ u.tokens := by
  have hpattern : ∀ ps : List Pattern, Token.semicolon ∉ ps.flatMap Pattern.tokens := by
    simp [Pattern.tokens]
  have hblock : ∀ b : Block, Token.semicolon ∉ Block.tokens b := by
    rintro ⟨g | g, ps⟩
    · exact hpattern ps
    · simp only [Block.tokens, List.mem_append, hpattern ps]
      simp
  have hwords : Token.semicolon ∉ u.words := by cases u <;> simp [Update.words]
  simp [Update.tokens, hblock, hwords]

/-- What readable operations are written as is read as these operations. -/
theorem read?_of_writtenAs {us : List Update} {texts : List Text} (hu : ∀ u ∈ us, u.IsReadable)
    (h : List.Forall₂ Update.WrittenAs us texts) :
    read? (List.intercalate " ;\n" texts) = some (us.map Update.grouped) := by
  rw [read?, (spells_updates hu h).tokens?_eq, Option.bind_some]
  rcases us with _ | ⟨u, us⟩
  · rfl
  have hsplit : ([Token.semicolon].intercalate ((u :: us).map Update.tokens)).splitOn .semicolon =
      (u :: us).map Update.tokens := by
    refine List.splitOn_intercalate _ (fun ts hts => ?_) (by simp)
    obtain ⟨u', -, rfl⟩ := List.mem_map.1 hts
    exact semicolon_notMem_tokens u'
  -- an update without operations is told apart by having no tokens
  have hne : [Token.semicolon].intercalate ((u :: us).map Update.tokens) ≠ [] := by
    intro hnil
    rw [hnil, List.splitOn_nil, List.map_cons] at hsplit
    have hempty : [] = u.tokens := (List.cons.inj hsplit).1
    rw [Update.tokens] at hempty
    simp at hempty
  rw [if_neg hne, hsplit, List.mapM_map]
  exact mapM_eq_some_map fun u' hu' => update?_tokens (hu u' hu')

/-! ### Executing what is read -/

theorem Update.lines_grouped (u : Update) : u.grouped.lines = u.lines := by
  cases u with
  | deleteWhere g p => rfl
  | deleteData ts => exact congrArg Assoc.entries (Assoc.collect_entries_collect ts)
  | insertData ts => exact congrArg Assoc.entries (Assoc.collect_entries_collect ts)

theorem Update.execute_grouped (u : Update) (D : Set Quad) :
    Update.execute D u.grouped = Update.execute D u := by
  have hlines := u.lines_grouped
  cases u with
  | deleteWhere g p => rfl
  | deleteData ts => rw [grouped, execute, execute, ← grouped, hlines]
  | insertData ts => rw [grouped, execute, execute, ← grouped, hlines]

theorem execute_grouped (us : List Update) (D : Set Quad) :
    execute (us.map Update.grouped) D = execute us D := by
  rw [execute, execute, List.foldlM_map]
  simp only [Update.execute_grouped]

theorem Update.printed_grouped (u : Update) : u.grouped.printed = u.printed := by
  rw [printed, printed, lines_grouped]
  cases u <;> rfl

end Sparql

open Sparql

/-! ### Edits -/

namespace Edit

variable {e : Edit} {es : List Edit}

/-- An edit of readable terms, with IRIs where only they may stand. -/
structure IsReadable (e : Edit) : Prop where
  terms : ∀ t ∈ e.terms, t.IsReadable
  predicate : ∃ iri, e.predicate = .iri iri
  graph : ∀ g, e.graph = some g → ∃ iri, g = .iri iri

namespace IsReadable

theorem isBlankFree (h : e.IsReadable) : e.IsBlankFree := by
  intro t ht
  cases t with
  | blank l => exact (h.terms _ ht).elim
  | iri t => rfl
  | literal l => rfl

theorem isWritable (h : e.IsReadable) : e.IsWritable := by
  intro t ht
  cases t with
  | blank l => exact ⟨_, rfl⟩
  | literal l => exact ⟨_, rfl⟩
  | iri t =>
    have hread : t.all isIriChar := h.terms _ ht
    have hclean : t.any Written.isForbidden = false := by
      simp only [List.all_eq_true, isIriChar, Bool.and_eq_true, Bool.not_eq_true'] at hread
      simpa using fun c hc => (hread c hc).2
    exact ⟨_, by rw [Written.term, Written.iri, hclean]; rfl⟩

theorem slot {o : Option Term} {labels : List Text} {x : Text}
    (ho : ∀ t, o = some t → t.IsReadable) (hx : x ≠ [] ∧ x.all isVariableChar) :
    (patternSlot labels x o).IsReadable := by
  rcases o with _ | t
  · exact hx
  · have ht := ho t rfl
    cases t with
    | blank l => exact ht.elim
    | iri t => exact ht
    | literal l => exact ht

theorem pattern (h : e.IsReadable) : e.pattern.IsReadable where
  subject := slot (fun t ht => h.terms t (mem_terms.2 (.inl ht))) (by decide)
  predicate := slot (fun t ht => h.terms t (mem_terms.2 (.inr (.inl (Option.some.inj ht)))))
    (by decide)
  object := slot (fun t ht => h.terms t (mem_terms.2 (.inr (.inr (.inl ht))))) (by decide)
  verb := by
    obtain ⟨iri, hiri⟩ := h.predicate
    rw [Edit.pattern, hiri]
    rfl

theorem block (h : e.IsReadable) {ps : List Pattern} (hp : ∀ p ∈ ps, p.IsReadable) :
    Block.IsReadable (e.graph, ps) where
  patterns := hp
  graph := by
    intro g hg
    obtain ⟨iri, rfl⟩ := h.graph g hg
    exact ⟨iri, rfl, h.terms _ (mem_terms.2 (.inr (.inr (.inr hg))))⟩

end IsReadable

theorem hasVariable_triple (h : e.isWildcard = false) : e.triple.hasVariable = false := by
  obtain ⟨s, o, hs, ho⟩ := eq_some_of_isWildcard h
  rw [triple, hs, ho]
  rfl

theorem isReadable_blocks (h : ∀ e ∈ es, e.IsReadable) (hw : ∀ e ∈ es, e.isWildcard = false) :
    ∀ b ∈ blocks (EditSet.triples es), b.IsReadable := by
  intro b hb
  obtain ⟨line, hline, hkey⟩ := Assoc.mem_keys_collect.1 (List.mem_map_of_mem hb)
  obtain ⟨e, he, rfl⟩ := List.mem_map.1 hline
  have hpatterns : ∀ p ∈ b.2, p.IsReadable := by
    intro p hp
    obtain ⟨e', he', hl⟩ := mem_lines_triples.1 (Assoc.mem_entries hb hp)
    obtain rfl : e'.triple = p := (Prod.mk.inj hl).2
    rw [triple_eq_pattern (h e' he').isBlankFree (hw e' he')]
    exact (h e' he').pattern
  have hblock := (h e he).block hpatterns
  rwa [show e.graph = b.1 from hkey] at hblock

theorem hasVariable_lines (hw : ∀ e ∈ es, e.isWildcard = false) :
    (Assoc.entries (blocks (EditSet.triples es))).any (·.2.hasVariable) = false := by
  rw [List.any_eq_false]
  intro l hl
  obtain ⟨e, he, rfl⟩ := mem_lines_triples.1 hl
  rw [hasVariable_triple (hw e he)]
  exact Bool.false_ne_true

end Edit

namespace EditSet

variable {set : EditSet}

theorem isReadable_updates (h : ∀ e ∈ set.toList, e.IsReadable)
    (hw : ∀ e ∈ set.inserts, e.isWildcard = false) : ∀ u ∈ set.updates, u.IsReadable := by
  have hd : ∀ e ∈ set.deletes, e.IsReadable := fun e he => h e (List.mem_append_left _ he)
  have hi : ∀ e ∈ set.inserts, e.IsReadable := fun e he => h e (List.mem_append_right _ he)
  have hconcrete : ∀ e ∈ set.deletes.filter (!·.isWildcard), e.IsReadable ∧ e.isWildcard = false := by
    intro e he
    obtain ⟨he, hwild⟩ := Edit.mem_filter_not_isWildcard.1 he
    exact ⟨hd e he, hwild⟩
  have hdata : ∀ (u : List (Option Term × Pattern) → Update) (es : List Edit),
      (u (triples es)).IsReadable → ∀ v ∈ dataUpdate u es, v.IsReadable := by
    intro u es hu v hv
    unfold dataUpdate at hv
    split at hv
    · cases hv
    · rwa [List.mem_singleton.1 hv]
  intro u hu
  rw [updates_eq fun e he => (hd e he).isBlankFree] at hu
  rcases List.mem_append.1 hu with hu | hu
  · rcases List.mem_append.1 hu with hu | hu
    · obtain ⟨e, he, rfl⟩ := List.mem_map.1 hu
      have he := hd e (List.mem_of_mem_filter he)
      refine ⟨fun b hb => ?_, fun hno => (hno _ _ rfl).elim⟩
      rw [List.mem_singleton.1 hb]
      exact he.block fun p hp => by rw [List.mem_singleton.1 hp]; exact he.pattern
    · exact hdata .deleteData _ ⟨Edit.isReadable_blocks (fun e he => (hconcrete e he).1)
        fun e he => (hconcrete e he).2, fun _ => Edit.hasVariable_lines
          fun e he => (hconcrete e he).2⟩ u hu
  · exact hdata .insertData _ ⟨Edit.isReadable_blocks hi hw, fun _ => Edit.hasVariable_lines hw⟩ u hu

/-- The update of an edit set whose terms are readable is read as the operations of the set: each edit
once, as the operation that it is and in its own graph. Executing what is read leaves the quads that
applying the set to the dataset leaves. -/
theorem execute_read (set : EditSet) (store : Store) (hk : store.kind = .dataset)
    (h : ∀ e ∈ set.toList, e.IsReadable) (hw : ∀ e ∈ set.inserts, e.isWildcard = false) :
    ∃ store' text us, set.apply store = .ok store' ∧ set.sparql = .ok text ∧
      read? text = some us ∧ execute us store.view = some store'.view ∧
      us = set.updates.map Update.grouped ∧
      (us.flatMap Update.printed).Perm
        (set.deletes.map (fun e => (.delete, e.graph, e.pattern)) ++
          set.inserts.map fun e => (.insert, e.graph, e.triple)) := by
  have hd : ∀ e ∈ set.deletes, e.IsBlankFree :=
    fun e he => (h e (List.mem_append_left _ he)).isBlankFree
  have hi : ∀ e ∈ set.inserts, e.IsBlankFree :=
    fun e he => (h e (List.mem_append_right _ he)).isBlankFree
  obtain ⟨store', happly, -, hview⟩ := view_apply hw store
  obtain ⟨texts, htexts⟩ := (writes_updates hd hi hw fun e he => (h e he).isWritable).exists_ok
  have hwritten : List.Forall₂ Update.WrittenAs set.updates texts :=
    (forall₂_of_mapM htexts).imp fun u t => Update.writtenAs_of_text
  refine ⟨store', List.intercalate " ;\n" texts, set.updates.map Update.grouped, happly,
    by rw [sparql, htexts]; rfl, read?_of_writtenAs (isReadable_updates h hw) hwritten, ?_, rfl, ?_⟩
  · rw [execute_grouped, execute_updates_eq hd hi hw, hview, hk]
  · rw [List.flatMap_map]
    simp only [Update.printed_grouped]
    exact printed_perm hd

/-- A store in which a title has a language, and edits that name the default graph in two ways. -/
def titles : Store := .ofQuads .dataset
  [⟨.iri "urn:s", .iri "urn:p", .literal (.plain "old"), none⟩,
    ⟨.iri "urn:s", .iri "urn:p", .literal (.inLanguage "Titel" "de"), some (.iri "urn:g")⟩,
    ⟨.iri "urn:s", .iri "urn:p", .iri "urn:o", some (.iri "urn:g")⟩,
    ⟨.iri "urn:t", .iri "urn:p", .iri "urn:o", none⟩]

def retitle : EditSet :=
  ⟨[⟨.delete, some (.iri "urn:s"), .iri "urn:p",
        some (.literal (.inLanguage "Titel" "DE")), some (.iri "urn:g")⟩,
      ⟨.delete, some (.iri "urn:s"), .iri "urn:p", none, none⟩,
      ⟨.delete, some (.iri "urn:t"), .iri "urn:p", some (.iri "urn:o"),
        some StoreKind.defaultGraphName⟩],
    [⟨.insert, some (.iri "urn:s"), .iri "urn:p", some (.literal (.plain "\"\"\"new\"\n\\\"\"")),
      none⟩]⟩

theorem execute_read_retitle : ∃ store' text us, retitle.apply titles = .ok store' ∧
    retitle.sparql = .ok text ∧ read? text = some us ∧
    execute us titles.view = some store'.view ∧
    store'.quads = [⟨.iri "urn:s", .iri "urn:p", .iri "urn:o", some (.iri "urn:g")⟩,
      ⟨.iri "urn:s", .iri "urn:p", .literal (.plain "\"\"\"new\"\n\\\"\""), none⟩] := by
  have hterms : ∀ e ∈ retitle.toList, ∀ t ∈ e.terms, t ∈ [.iri "urn:s", .iri "urn:p", .iri "urn:g",
      .iri "urn:t", .iri "urn:o", StoreKind.defaultGraphName, .literal (.inLanguage "Titel" "DE"),
      .literal (.plain "\"\"\"new\"\n\\\"\"")] := by decide
  have hreadable : ∀ t ∈ [.iri "urn:s", .iri "urn:p", .iri "urn:g", .iri "urn:t", .iri "urn:o",
      StoreKind.defaultGraphName, .literal (.inLanguage "Titel" "DE"),
      .literal (.plain "\"\"\"new\"\n\\\"\"")], Term.IsReadable t := by
    simp only [List.forall_mem_cons]
    refine ⟨rfl, rfl, rfl, rfl, rfl, rfl, ⟨rfl, by decide, fun _ => rfl, ?_, nofun⟩,
      ⟨rfl, by decide, fun _ => rfl, nofun, nofun⟩, nofun⟩
    rintro tag ⟨⟩
    decide
  have hplaces : ∀ e ∈ retitle.toList, e.predicate = .iri "urn:p" ∧
      (e.graph = none ∨ e.graph = some (.iri "urn:g") ∨ e.graph = some StoreKind.defaultGraphName) := by
    decide
  have hedits : ∀ e ∈ retitle.toList, e.IsReadable := by
    intro e he
    obtain ⟨hpredicate, hgraph⟩ := hplaces e he
    refine ⟨fun t ht => hreadable t (hterms e he t ht), ⟨_, hpredicate⟩, fun g hg => ?_⟩
    rcases hgraph with hnone | hgraph | hgraph
    · rw [hnone] at hg; cases hg
    · rw [hgraph] at hg; cases hg; exact ⟨_, rfl⟩
    · rw [hgraph] at hg; cases hg; exact ⟨_, rfl⟩
  obtain ⟨store', text, us, happly, htext, hread, hview, -⟩ :=
    execute_read retitle titles rfl hedits (by decide)
  have hquads : (retitle.apply titles).toOption.map Store.quads =
      some [⟨.iri "urn:s", .iri "urn:p", .iri "urn:o", some (.iri "urn:g")⟩,
        ⟨.iri "urn:s", .iri "urn:p", .literal (.plain "\"\"\"new\"\n\\\"\""), none⟩] := by
    decide +kernel
  rw [happly] at hquads
  exact ⟨store', text, us, happly, htext, hread, hview, Option.some.inj hquads⟩

/-- One insert of a text on two lines that ends in a backslash and a double quote. The double quote is
written as it is, and so a literal without it is read, and behind that a quote that nothing closes. -/
theorem execute_read_unescaped : ∃ (set : EditSet) (rest : Text),
    (∀ e ∈ set.toList, ∀ t ∈ e.terms, t.isBlank = false ∧ (Written.term t).toBool) ∧
    (∀ e ∈ set.inserts, e.isWildcard = false) ∧
    (set.apply (.ofQuads .dataset [])).toOption.map Store.quads =
      some [⟨.iri "urn:s", .iri "p:a", .literal (.plain "a\n\\\""), none⟩] ∧
    set.sparql = .ok ("INSERT DATA \x7b\n  <urn:s> <p:a> \"\"\"a\n\\\\\"\"\"" ++ rest) ∧
    token? ("\"\"\"a\n\\\\\"\"\"" ++ rest) =
      some (.slot (.term (.literal (.plain "a\n\\"))), rest) ∧
    token? rest = none ∧
    read? ("INSERT DATA \x7b\n  <urn:s> <p:a> \"\"\"a\n\\\\\"\"\"" ++ rest) = none := by
  refine ⟨⟨[], [⟨.insert, some (.iri "urn:s"), .iri "p:a", some (.literal (.plain "a\n\\\"")), none⟩]⟩,
    "\" .\n\x7d", by decide, by decide, by decide +kernel, eq_ok_of_toOption (by decide +kernel),
    by decide +kernel, by decide +kernel, by decide +kernel⟩

end EditSet

end FormEdits
