import FormEdits.Proofs.Statement.References

/-! # Reverse statements

A reverse statement with a resource for its value is the forward statement of the same terms, with
subject and object exchanged in every edit (`Template.edits_reversed`). The keys of the two name the
terms in different orders, which only the error tells apart when neither term can be resolved: it is
that of the term that comes first (`Template.edits_of_keys`). -/

namespace FormEdits

/-- The edit with its subject and its object exchanged. -/
def Edit.mirror (e : Edit) : Edit := { e with subject := e.object, object := e.subject }

namespace Statement

variable {s : Session} {st : Statement} {m : Modifiers} {d : Designator} {values : List Text}

/-- The statement in the other direction. -/
def mirror (st : Statement) : Statement := { st with reverse := !st.reverse }

theorem edit_mirror (st : Statement) (op : Operation) (v : Option Term) :
    st.mirror.edit op v = (st.edit op v).mirror := by
  obtain ⟨anchor, predicate, graph, reverse⟩ := st
  cases reverse <;> rfl

theorem valueEdits_mirror (op : Operation) : valueEdits s st.mirror op d values =
    (valueEdits s st op d values).map (List.map Edit.mirror) := by
  rw [valueEdits, valueEdits]
  generalize List.mapM (fun v => s.coerce v d) _ = terms
  cases terms with
  | error e => rfl
  | ok terms =>
    show Except.ok _ = Except.ok (List.map _ _)
    simp only [edit_mirror, List.map_filterMap, Option.map_map, Function.comp_def]

theorem edits_mirror (reverse : Bool) :
    edits s st.mirror { m with reverse := reverse } d values =
      (edits s st m d values).map (List.map Edit.mirror) := by
  rw [edits, edits]
  dsimp only
  rw [valueEdits_mirror, edit_mirror]
  split
  · rcases valueEdits s st _ d values with e | es <;> rfl
  split
  · rfl
  · rfl

end Statement

namespace Template

variable {s : Session} {t : Template} {p : Text} {o g : Option Text} {d : Designator} {mark : Bool}
  {ms ms' : List Text}

/-- The reverse template with the predicate and the other term of a forward one. -/
def reversed (t : Template) : Template :=
  { t with
    modifiers := { t.modifiers with reverse := true }, term1 := t.predicate, term2 := t.anchor? }

/-- The two terms are resolved in another order, which shows only if neither is resolved. -/
theorem ofTemplate_reversed (hf : t.modifiers.reverse = false)
    (h : ∀ o ∈ t.anchor?, s.IsMalformed o → ¬ s.IsMalformed t.predicate) :
    Statement.ofTemplate s t.reversed = (Statement.ofTemplate s t).map Statement.mirror := by
  obtain ⟨⟨insert, delete, overwrite, _⟩, token1, token2, designator, token, expands⟩ := t
  subst hf
  cases token2 with
  | none =>
    show (s.resolve token1 >>= _) = (s.resolve token1 >>= _).map _
    rcases s.resolve token1 with e | term1
    · rfl
    show (token.mapM s.resolve >>= _) = (token.mapM s.resolve >>= _).map _
    rcases token.mapM s.resolve with e | graph <;> rfl
  | some token2 =>
    have hone : s.IsMalformed token1 → ¬ s.IsMalformed token2 := h token1 rfl
    simp only [Statement.ofTemplate, reversed, predicate, anchor?, Bool.false_eq_true, if_false,
      Option.getD_some, Option.map_some, Option.mapM_some]
    rcases h1 : s.resolve token1 with e | term1
    · have hmalformed : s.IsMalformed token1 := by
        by_contra hno
        exact Session.succeeds_resolve_iff.2 hno e h1
      obtain ⟨term2, h2⟩ := (Session.succeeds_resolve_iff.2 (hone hmalformed)).exists_ok
      rw [h2]
      rfl
    · rcases h2 : s.resolve token2 with e' | term2
      · rfl
      show (token.mapM s.resolve >>= _) = (token.mapM s.resolve >>= _).map _
      rcases token.mapM s.resolve with e | graph <;> rfl

theorem edits_of_resolve {fault : Uri.Fault} (h : s.fault? t.term1 = some fault)
    (hr : t.effectiveDesignator.isResource) (m : Expansions) (raw : List Text) (supply : Supply) :
    t.edits s m raw supply = (.error (.value (.malformedAuthority fault)), supply) := by
  have hst : Statement.ofTemplate s t = .error (.value (.malformedAuthority fault)) := by
    rw [Statement.ofTemplate, Session.resolve_of_fault? h]
    rfl
  rw [edits, hst, hr, Bool.not_true, Bool.and_false]
  rfl

theorem edits_reversed (hf : t.modifiers.reverse = false) (hd : t.designator = some d)
    (hr : d.isResource) (h : ∀ o ∈ t.anchor?, s.IsMalformed o → ¬ s.IsMalformed t.predicate)
    (m : Expansions) (raw : List Text) (supply : Supply) : t.reversed.edits s m raw supply =
      ((t.edits s m raw supply).1.map (List.map Edit.mirror), (t.edits s m raw supply).2) := by
  have hforward : t.effectiveDesignator = d := by rw [effectiveDesignator, hd]; rfl
  have hreverse : t.reversed.effectiveDesignator = d := by
    rw [effectiveDesignator, show t.reversed.designator = some d from hd]
    rfl
  rw [edits, edits, hforward, hreverse, hr, hf, ofTemplate_reversed hf h]
  rcases Statement.ofTemplate s t with e | st
  · rfl
  · exact Prod.ext (Statement.edits_mirror true) rfl

/-! ### Keys -/

/-- The words for the modifiers of a forward key, with those of the reverse key. -/
def reversals : List (List Text × List Text) :=
  [([], ["!"]), (["+"], ["!+"]), (["+"], ["+!"]), (["-"], ["!-"]), (["-"], ["-!"])]

theorem exists_modifiers_of_reversals (h : (ms, ms') ∈ reversals) : ∃ m : Modifiers,
    m.reverse = false ∧ writesModifiers m ms ∧ writesModifiers { m with reverse := true } ms' := by
  simp only [reversals, List.mem_cons, Prod.mk.injEq, List.not_mem_nil, or_false] at h
  rcases h with ⟨rfl, rfl⟩ | ⟨rfl, rfl⟩ | ⟨rfl, rfl⟩ | ⟨rfl, rfl⟩ | ⟨rfl, rfl⟩
  · exact ⟨.empty, rfl, .inl ⟨rfl, rfl⟩, .inr ⟨_, rfl, by decide⟩⟩
  · exact ⟨⟨true, false, false, false⟩, rfl, .inr ⟨_, rfl, by decide⟩, .inr ⟨_, rfl, by decide⟩⟩
  · exact ⟨⟨true, false, false, false⟩, rfl, .inr ⟨_, rfl, by decide⟩, .inr ⟨_, rfl, by decide⟩⟩
  · exact ⟨⟨false, true, false, false⟩, rfl, .inr ⟨_, rfl, by decide⟩, .inr ⟨_, rfl, by decide⟩⟩
  · exact ⟨⟨false, true, false, false⟩, rfl, .inr ⟨_, rfl, by decide⟩, .inr ⟨_, rfl, by decide⟩⟩

theorem isRenderable_of_isResource {m : Modifiers} {o : Option Text} (hm : writesModifiers m ms)
    (hp : IsTermWord p) (ho : ∀ w ∈ o, IsTermWord w) (hg : ∀ w ∈ g, IsTermWord w)
    (hd : d.isResource) : IsRenderable ⟨m, p, o, some d, g, mark⟩ where
  modifiers := ⟨ms, hm⟩
  term1 := hp
  term2 := ho
  graph := hg
  language := by rintro tag ⟨⟩; cases hd
  datatype := by rintro token ⟨⟩; cases hd
  beside := fun _ => .inr rfl

theorem parse?_of_words {key : Text} (h : t.IsRenderable) (hm : writesModifiers t.modifiers ms)
    (hw : key.words = t.wordsWith ms) : parse? key = some t :=
  (ofWords?_eq_some_iff fun _ => Text.isWord_of_mem_words).2 ⟨h, ms, hm, hw.symm⟩

/-- A forward key of a predicate and perhaps another term, for values that are resources, and the
reverse key that has the predicate first: their edits are the same in number, order and operation,
with subject and object exchanged, and so a delete of all objects becomes one of all subjects. Both
fail together and draw the same values. The error is the same too, unless neither of the two terms can
be resolved, when each key fails for the term that it names first. -/
theorem edits_of_keys {forward reverse : Text} (hp : IsTermWord p) (ho : ∀ w ∈ o, IsTermWord w)
    (hg : ∀ w ∈ g, IsTermWord w) (hd : d = .resource ∨ d = .blank)
    (hms : (ms, ms') ∈ reversals)
    (hf : forward.words = ms ++ o.toList ++ [p, d.text] ++ g.toList ++ markWords mark)
    (hr : reverse.words = ms' ++ [p] ++ o.toList ++ [d.text] ++ g.toList ++ markWords mark) :
    ∃ t t', parse? forward = some t ∧ parse? reverse = some t' ∧
      ∀ (s : Session) (m : Expansions) (raw : List Text) (supply : Supply),
        ((∀ w ∈ o, s.IsMalformed w → ¬ s.IsMalformed p) → t'.edits s m raw supply =
          ((t.edits s m raw supply).1.map (List.map Edit.mirror), (t.edits s m raw supply).2)) ∧
        ∀ w ∈ o, ∀ fault fault', s.fault? w = some fault → s.fault? p = some fault' →
          t.edits s m raw supply = (.error (.value (.malformedAuthority fault)), supply) ∧
          t'.edits s m raw supply = (.error (.value (.malformedAuthority fault')), supply) := by
  obtain ⟨m, hforward, hm, hm'⟩ := exists_modifiers_of_reversals hms
  let t : Template := ⟨m, o.getD p, o.map fun _ => p, some d, g, mark⟩
  have hresource : d.isResource := by rcases hd with rfl | rfl <;> rfl
  -- both terms are words, whichever of them comes first
  have hterms : IsTermWord (o.getD p) ∧ ∀ w ∈ o.map fun _ => p, IsTermWord w := by
    cases o with
    | none => exact ⟨hp, nofun⟩
    | some w => exact ⟨ho w rfl, by rintro _ ⟨⟩; exact hp⟩
  have ht : t.IsRenderable := isRenderable_of_isResource hm hterms.1 hterms.2 hg hresource
  have hreversed : t.reversed = ⟨{ m with reverse := true }, p, o, some d, g, mark⟩ := by
    cases o <;> simp [t, reversed, predicate, anchor?, hforward]
  have ht' : t.reversed.IsRenderable :=
    hreversed ▸ isRenderable_of_isResource hm' hp ho hg hresource
  have hanchor : t.anchor? = o := by cases o <;> simp [t, anchor?, hforward]
  have hpredicate : t.predicate = p := by cases o <;> simp [t, predicate, hforward]
  refine ⟨t, t.reversed, parse?_of_words ht hm ?_, parse?_of_words ht' hm' ?_,
    fun s m raw supply => ⟨fun h => ?_, ?_⟩⟩
  · rw [hf]
    cases o <;> simp [t, wordsWith, operands, markWords]
  · rw [hr, hreversed]
    simp [wordsWith, operands, markWords]
  · exact edits_reversed hforward rfl hresource (by rwa [hanchor, hpredicate]) m raw supply
  · rintro w rfl fault fault' hw hp
    refine ⟨edits_of_resolve (t := t) hw hresource m raw supply, ?_⟩
    rw [hreversed]
    exact edits_of_resolve (t := ⟨_, p, some w, some d, g, mark⟩) hp hresource m raw supply

/-- A delete with an empty value by a key of either direction, with blanks of its own. -/
theorem edits_of_keys_delete : ∃ (s : Session) (t t' : Template),
    parse? "- urn:o p:a :  urn:g $" = some t ∧ parse? " -! p:a urn:o : urn:g $ " = some t' ∧
    (t.edits s [] ["$x", " "] (.fresh id id)).1 =
      .ok [⟨.delete, some (.iri "urn:o"), .iri "p:a", none, some (.iri "urn:g")⟩] ∧
    (t'.edits s [] ["$x", " "] (.fresh id id)).1 =
      .ok [⟨.delete, none, .iri "p:a", some (.iri "urn:o"), some (.iri "urn:g")⟩] := by
  let s : Session := ⟨.iri "urn:s", none, Prefixes.default, none⟩
  let p : Text := "p:a"
  let o : Text := "urn:o"
  let g : Text := "urn:g"
  let sign : Text := "-"
  let reverseSign : Text := "-!"
  have hp : IsTermWord p := isTermWord_iff.2 ⟨by decide, by decide⟩
  have ho : ∀ w ∈ some o, IsTermWord w := by rintro _ ⟨⟩; exact isTermWord_iff.2 ⟨by decide, by decide⟩
  have hg : ∀ w ∈ some g, IsTermWord w := by rintro _ ⟨⟩; exact isTermWord_iff.2 ⟨by decide, by decide⟩
  have hforward : Text.words "- urn:o p:a :  urn:g $" = [sign] ++ (some o).toList ++
      [p, Designator.resource.text] ++ (some g).toList ++ markWords true := rfl
  have hreverse : Text.words " -! p:a urn:o : urn:g $ " = [reverseSign] ++ [p] ++
      (some o).toList ++ [Designator.resource.text] ++ (some g).toList ++ markWords true :=
    rfl
  obtain ⟨t, t', hf, hr, hedits⟩ := edits_of_keys hp ho hg (.inl rfl)
    (show ([sign], [reverseSign]) ∈ reversals by decide) hforward hreverse
  have hone : ∀ w ∈ some o, s.IsMalformed w → ¬ s.IsMalformed p := fun _ _ _ => by decide +kernel
  have ht : some t = some ⟨⟨false, true, false, false⟩, o, some p, some .resource, some g, true⟩ :=
    hf.symm.trans (by decide +kernel)
  have hdelete : (t.edits s [] ["$x", " "] (.fresh id id)).1 =
      .ok [⟨.delete, some (.iri "urn:o"), .iri "p:a", none, some (.iri "urn:g")⟩] := by
    rw [Option.some.inj ht]
    exact eq_ok_of_toOption (by decide +kernel)
  refine ⟨s, t, t', hf, hr, hdelete, ?_⟩
  rw [(hedits s [] ["$x", " "] (.fresh id id)).1 hone, hdelete]
  rfl

/-- With two terms that cannot be resolved, the errors of a forward and a reverse key differ. -/
theorem edits_of_keys_unlike : ∃ (s : Session) (t t' : Template),
    parse? "http://[ http://℀/p :" = some t ∧ parse? "! http://℀/p http://[ :" = some t' ∧
    (t.edits s [] ["urn:v"] (.fresh id id)).1 =
      .error (.value (.malformedAuthority .unbalancedBrackets)) ∧
    (t'.edits s [] ["urn:v"] (.fresh id id)).1 =
      .error (.value (.malformedAuthority (.hiddenDelimiter "℀"))) := by
  let s : Session := ⟨.iri "http://a.example/", none, Prefixes.default, none⟩
  let p : Text := "http://℀/p"
  let o : Text := "http://["
  let t : Template := ⟨.empty, o, some p, some .resource, none, false⟩
  let t' : Template := ⟨⟨false, false, false, true⟩, p, some o, some .resource, none, false⟩
  have ho : s.fault? o = some .unbalancedBrackets := by decide +kernel
  have hp : s.fault? p = some (.hiddenDelimiter "℀") := by decide +kernel
  exact ⟨s, t, t', by decide +kernel, by decide +kernel,
    congrArg Prod.fst (edits_of_resolve (t := t) ho rfl [] _ _),
    congrArg Prod.fst (edits_of_resolve (t := t') hp rfl [] _ _)⟩

end Template

end FormEdits
