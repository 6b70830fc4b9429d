import FormEdits.Proofs.Macros.Cycles
import FormEdits.Proofs.Macros.Expand

/-! # The texts of macros as the solution of equations

Every macro that reaches no generated macro satisfies an equation: its texts are those of its
entries, in which the references are replaced by the texts of the macros that they name. Resolving
a table solves these equations, they have one solution, and so the order in which the macros were
declared does not matter (`resolve_solves`). -/

namespace FormEdits

/-- The text of a value that is not generated. -/
def MacroValue.text? : MacroValue → Option Text
  | text t => some t
  | generated _ => none

/-- The texts among the values of a macro. -/
def Expansions.texts (m : Expansions) (n : Text) : List Text :=
  ((m.find? n).getD []).filterMap MacroValue.text?

namespace MacroTable

variable {table table' : MacroTable} {n : Text} {σ τ : Text → List Text}

/-- The texts of the bound macros by `σ`. -/
def bound (table : MacroTable) (σ : Text → List Text) (n : Text) : Option (List Text) :=
  if table.contains n then some (σ n) else none

/-- The texts that an entry stands for when the bound macros have the texts `σ`. -/
def textsOf (table : MacroTable) (σ : Text → List Text) (e : MacroEntry) : List Text :=
  match e.value with
  | .text t => if e.isPending then Macros.substitutions (table.bound σ) (Macros.pieces t) else [t]
  | .generated _ => []

theorem textsOf_of_pending {e : MacroEntry} {t : Text} (ht : e.value = .text t)
    (hp : e.isPending) :
    table.textsOf σ e = Macros.substitutions (table.bound σ) (Macros.pieces t) := by
  simp [textsOf, ht, hp]

theorem textsOf_of_not_pending {e : MacroEntry} {t : Text} (ht : e.value = .text t)
    (hp : ¬ e.isPending) : table.textsOf σ e = [t] := by
  simp [textsOf, ht, hp]

/-- The table has the macro, and no generated macro can be reached from it. -/
structure IsFixed (table : MacroTable) (n : Text) : Prop where
  contains : table.contains n
  fixed : ∀ g : Generator, ¬ Relation.ReflTransGen table.RefersTo n g.name

/-- The texts `σ` of the macros satisfy the equations of the table. -/
def Solves (table : MacroTable) (σ : Text → List Text) : Prop :=
  ∀ n, table.IsFixed n → σ n = ((table.entries? n).getD []).flatMap (table.textsOf σ)

theorem IsFixed.of_refersTo {m : Text} (h : table.IsFixed n) (hr : table.RefersTo n m) :
    table.IsFixed m :=
  ⟨hr.1, fun g hg => h.fixed g (.head hr hg)⟩

theorem IsFixed.ofName? (h : table.IsFixed n) : Generator.ofName? n = none := by
  rcases hg : Generator.ofName? n with _ | g
  · rfl
  · exact absurd (Generator.name_of_ofName? hg ▸ .refl) (h.fixed g)

theorem WellFormed.declared_entries (ht : table.WellFormed) (hn : Generator.ofName? n = none) :
    ∀ e ∈ (table.entries? n).getD [], ∃ p t, e = entry p t := by
  intro e he
  rcases hes : table.entries? n with _ | es
  · simp [hes] at he
  · exact ht.declared n es hn hes e (by simpa [hes] using he)

/-! ### The equations have one solution -/

theorem textsOf_congr {e : MacroEntry} (he : e ∈ (table.entries? n).getD [])
    (h : ∀ x, table.RefersTo n x → σ x = τ x) : table.textsOf σ e = table.textsOf τ e := by
  unfold textsOf
  split
  · rename_i t ht
    split
    · rename_i hp
      refine Macros.substitutions_congr fun p hpm x hx => ?_
      unfold bound
      split
      · rename_i hc
        rw [h x ⟨hc, e, he, hp, t, ht, Macros.mem_names.2 ⟨p, hpm, hx⟩⟩]
      · rfl
    · rfl
  · rfl

theorem Solves.unique (hwf : WellFounded fun a b => table.RefersTo b a) (hσ : table.Solves σ)
    (hτ : table.Solves τ) (hn : table.IsFixed n) : σ n = τ n := by
  induction n using hwf.induction with
  | _ n ih =>
    rw [hσ n hn, hτ n hn]
    refine List.flatMap_congr fun e he => textsOf_congr he fun x hx => ?_
    exact ih x hx (hn.of_refersTo hx)

/-! ### Tables with the same entries -/

theorem contains_congr (h : ∀ n, table'.entries? n = table.entries? n) :
    table'.contains n = table.contains n := by
  rw [contains, contains, ← entries?, ← entries?, h]

theorem refersTo_congr (h : ∀ n, table'.entries? n = table.entries? n) :
    table'.RefersTo = table.RefersTo := by
  funext n m
  rw [RefersTo, RefersTo, contains_congr h, h]

theorem isFixed_congr (h : ∀ n, table'.entries? n = table.entries? n) :
    table'.IsFixed n ↔ table.IsFixed n := by
  constructor
  · rintro ⟨hc, hf⟩
    exact ⟨by rwa [contains_congr h] at hc, by rwa [refersTo_congr h] at hf⟩
  · rintro ⟨hc, hf⟩
    exact ⟨by rwa [contains_congr h], by rwa [refersTo_congr h]⟩

theorem solves_congr (h : ∀ n, table'.entries? n = table.entries? n) (hσ : table'.Solves σ) :
    table.Solves σ := by
  intro n hn
  have hb : table'.bound σ = table.bound σ := by
    funext x
    rw [bound, bound, contains_congr h]
  rw [hσ n ((isFixed_congr h).2 hn), h]
  refine List.flatMap_congr fun e _ => ?_
  rw [textsOf, textsOf, hb]

end MacroTable

namespace Macros

open MacroTable

variable {table : MacroTable} {m : Expansions} {n : Text}

/-! ### Resolving solves the equations -/

/-- The values of a settled macro are those of its entries by macros `m'` that include all of its
dependencies and have their final values. -/
theorem Settled.find? (h : Settled table m) (hnd : m.keys.Nodup) (hn : n ∈ m.keys) :
    ∃ m' s, (∀ d ∈ table.dependencies n, d ∈ m'.keys) ∧
      (∀ d ∈ m'.keys, d ∈ m.keys ∧ m'.find? d = m.find? d) ∧
      m.find? n = some (Walk.valuesOf m' ((table.entries? n).getD []) s).1 := by
  induction h with
  | nil => cases hn
  | @cons m n' s _ hd ih =>
    obtain ⟨hn', hnd⟩ := List.nodup_cons.1 hnd
    have hkeep : ∀ d ∈ m.keys, m.find? d =
        Assoc.find? ((n', (Walk.valuesOf m ((table.entries? n').getD []) s).1) :: m) d := by
      intro d hd
      have hne : d ≠ n' := fun h => hn' (h ▸ hd)
      rw [Assoc.find?_cons_of_ne hne]
    rcases List.mem_cons.1 hn with rfl | hn
    · refine ⟨m, s, hd, fun d hd => ⟨List.mem_cons_of_mem _ hd, hkeep d hd⟩, ?_⟩
      rw [Assoc.find?_cons_self]
    · obtain ⟨m', s', hdeps, hsame, hval⟩ := ih hnd hn
      refine ⟨m', s', hdeps, fun d hd => ?_, by rw [← hkeep n hn, hval]⟩
      obtain ⟨hm, hf⟩ := hsame d hd
      exact ⟨List.mem_cons_of_mem _ hm, by rw [hf, hkeep d hm]⟩

theorem Walk.valuesOf_cons_of_pending {e : MacroEntry} {t : Text} {es : List MacroEntry}
    {s : Supply} (ht : e.value = .text t) (hp : e.isPending) :
    valuesOf m (e :: es) s =
      ((expand m t s).1.map .text ++ (valuesOf m es (expand m t s).2).1,
        (valuesOf m es (expand m t s).2).2) := by
  simp [valuesOf, ht, hp]

theorem Walk.valuesOf_cons_of_not_pending {e : MacroEntry} {es : List MacroEntry} {s : Supply}
    (hp : ¬ e.isPending) :
    valuesOf m (e :: es) s = (e.value :: (valuesOf m es s).1, (valuesOf m es s).2) := by
  simp only [Bool.not_eq_true] at hp
  simp [valuesOf, hp]

theorem valuesOf_eq_textsOf {m' : Expansions} {σ : Text → List Text} {es : List MacroEntry}
    (hes : ∀ e ∈ es, ∃ p t, e = entry p t)
    (h : ∀ e ∈ es, e.isPending → ∀ t, e.value = .text t → ∀ x ∈ names t,
      m'.find? x = (table.bound σ x).map (List.map .text)) (s : Supply) :
    (Walk.valuesOf m' es s).1 = (es.flatMap (table.textsOf σ)).map .text := by
  induction es generalizing s with
  | nil => rfl
  | cons e es ih =>
    obtain ⟨p, t, rfl⟩ := hes e (List.mem_cons_self ..)
    have ih := ih (fun e he => hes e (List.mem_cons_of_mem _ he))
      (fun e he => h e (List.mem_cons_of_mem _ he))
    have he := h _ (List.mem_cons_self ..)
    rw [List.flatMap_cons, List.map_append]
    by_cases hp : (entry p t).isPending
    · have hx := expand_eq_substitutions (he hp t rfl) s
      rw [Walk.valuesOf_cons_of_pending rfl hp, hx, ih, textsOf_of_pending rfl hp]
    · rw [Walk.valuesOf_cons_of_not_pending hp, ih, textsOf_of_not_pending rfl hp]
      rfl

/-- Declared entries have texts as values: what a pending one refers to is put in, generated values
included. -/
theorem valuesOf_declared {es : List MacroEntry} (hes : ∀ e ∈ es, ∃ p t, e = entry p t)
    (m : Expansions) (s : Supply) : ∀ v ∈ (Walk.valuesOf m es s).1, ∃ t, v = .text t := by
  induction es generalizing s with
  | nil => intro v hv; cases hv
  | cons e es ih =>
    obtain ⟨p, t, rfl⟩ := hes e (List.mem_cons_self ..)
    have ih := ih fun e he => hes e (List.mem_cons_of_mem _ he)
    intro v hv
    by_cases hp : (entry p t).isPending
    · rw [Walk.valuesOf_cons_of_pending rfl hp] at hv
      rcases List.mem_append.1 hv with hv | hv
      · obtain ⟨t, -, rfl⟩ := List.mem_map.1 hv
        exact ⟨t, rfl⟩
      · exact ih _ v hv
    · rw [Walk.valuesOf_cons_of_not_pending hp] at hv
      rcases List.mem_cons.1 hv with rfl | hv
      · exact ⟨t, rfl⟩
      · exact ih _ v hv

/-- After resolving, the values of every macro but the generated ones are texts. -/
theorem Settled.values_eq_texts (ht : table.WellFormed) (h : Settled table m)
    (hnd : m.keys.Nodup) (hn : Generator.ofName? n = none) :
    (m.find? n).getD [] = (m.texts n).map .text := by
  rcases hf : m.find? n with _ | vs
  · simp [Expansions.texts, hf]
  · obtain ⟨m', s, -, -, hval⟩ := h.find? hnd (Assoc.mem_keys_of_find? hf)
    have hvs : ∀ v ∈ vs, ∃ t, v = .text t := by
      rw [hf] at hval
      cases hval
      exact valuesOf_declared (ht.declared_entries hn) m' s
    rw [Expansions.texts, hf, Option.getD_some]
    clear hf hval
    induction vs with
    | nil => rfl
    | cons v vs ih =>
      obtain ⟨t, rfl⟩ := hvs v (List.mem_cons_self ..)
      have ih := ih fun v hv => hvs v (List.mem_cons_of_mem _ hv)
      rw [List.filterMap_cons_some (by rfl), List.map_cons, ← ih]

theorem find?_eq_none {ds : List (Text × List Text × Bool)} {s : Supply}
    (h : (resolve (.ofDeclarations ds) s).1 = .ok m) (hn : Generator.ofName? n = none)
    (hd : ∀ d ∈ ds, d.1 = n → d.2.1 = []) : m.find? n = none := by
  obtain ⟨-, hk⟩ := settled_of_resolve (wellFormed_ofDeclarations ds) h
  have hnone : (ofDeclarations ds).entries? n = none := entries?_eq_none hn hd
  exact Assoc.find?_eq_none_iff.2 fun hm => Assoc.find?_eq_none_iff.1 hnone (hk.mem_iff.1 hm)

theorem texts_eq_nil {ds : List (Text × List Text × Bool)} {s : Supply}
    (h : (resolve (.ofDeclarations ds) s).1 = .ok m) (hn : Generator.ofName? n = none)
    (hd : ∀ d ∈ ds, d.1 = n → d.2.1 = []) : m.texts n = [] := by
  rw [Expansions.texts, find?_eq_none h hn hd]
  rfl

theorem Settled.find?_eq_texts (ht : table.WellFormed) (h : Settled table m)
    (hk : m.keys.Perm table.keys) (hn : table.IsFixed n) :
    m.find? n = some ((m.texts n).map .text) ∧
      m.texts n = ((table.entries? n).getD []).flatMap (table.textsOf m.texts) := by
  induction n using (h.wellFounded ht hk).induction with
  | _ n ih =>
    have hnm : n ∈ m.keys := hk.mem_iff.2 (contains_iff.1 hn.contains)
    obtain ⟨m', s, hdeps, hsame, hval⟩ := h.find? (hk.symm.nodup ht.nodup) hnm
    have hvalues : (Walk.valuesOf m' ((table.entries? n).getD []) s).1 =
        (((table.entries? n).getD []).flatMap (table.textsOf m.texts)).map .text := by
      refine valuesOf_eq_textsOf (ht.declared_entries hn.ofName?) (fun e he hp t htx x hx => ?_) s
      rw [bound]
      split
      · rename_i hc
        have hr : table.RefersTo n x := ⟨hc, e, he, hp, t, htx, hx⟩
        have hxm := hdeps x ((mem_dependencies_iff ht).2 hr)
        rw [(hsame x hxm).2, (ih x hr (hn.of_refersTo hr)).1]
        rfl
      · rename_i hc
        refine Assoc.find?_eq_none_iff.2 fun hxm => hc ?_
        exact contains_iff.2 (hk.mem_iff.1 (hsame x hxm).1)
    have htexts : m.texts n = ((table.entries? n).getD []).flatMap (table.textsOf m.texts) := by
      rw [Expansions.texts, hval, hvalues]
      simp [List.filterMap_map, Function.comp_def, MacroValue.text?]
    exact ⟨by rw [hval, hvalues, htexts], htexts⟩

/-- Resolving gives the texts that solve the equations of the table. There are no others, and any
table with the same entries for each macro resolves to the same values, in whatever order the macros
were declared. -/
theorem resolve_solves (ds : List (Text × List Text × Bool)) (s : Supply) (m : Expansions)
    (h : (resolve (.ofDeclarations ds) s).1 = .ok m) :
    (∀ n, (ofDeclarations ds).IsFixed n → m.find? n = some ((m.texts n).map .text)) ∧
    (ofDeclarations ds).Solves m.texts ∧
    (∀ τ, (ofDeclarations ds).Solves τ → ∀ n, (ofDeclarations ds).IsFixed n → τ n = m.texts n) ∧
    ∀ ds' s', (∀ n, (ofDeclarations ds').entries? n = (ofDeclarations ds).entries? n) →
      ∃ m', (resolve (.ofDeclarations ds') s').1 = .ok m' ∧
        ∀ n, (ofDeclarations ds).IsFixed n → m'.find? n = m.find? n := by
  have ht := wellFormed_ofDeclarations ds
  obtain ⟨hs, hk⟩ := settled_of_resolve ht h
  have hwf := hs.wellFounded ht hk
  have hsolves : (ofDeclarations ds).Solves m.texts := fun n hn => (hs.find?_eq_texts ht hk hn).2
  refine ⟨fun n hn => (hs.find?_eq_texts ht hk hn).1, hsolves,
    fun τ hτ n hn => hτ.unique hwf hsolves hn, fun ds' s' hsame => ?_⟩
  have ht' := wellFormed_ofDeclarations ds'
  -- whether there is a circle does not depend on the order either
  have hac := not_transGen_of_wellFounded hwf
  rw [← refersTo_congr hsame] at hac
  obtain ⟨m', hm'⟩ := resolve_of_acyclic ht' hac s'
  obtain ⟨hs', hk'⟩ := settled_of_resolve ht' hm'
  have hsolves' : (ofDeclarations ds').Solves m'.texts :=
    fun n hn => (hs'.find?_eq_texts ht' hk' hn).2
  refine ⟨m', hm', fun n hn => ?_⟩
  rw [(hs'.find?_eq_texts ht' hk' ((isFixed_congr hsame).2 hn)).1, (hs.find?_eq_texts ht hk hn).1,
    (solves_congr hsame hsolves').unique hwf hsolves hn]

/-- A macro that refers to another one by itself and through a third. -/
def sharedReference : List (Text × List Text × Bool) :=
  [("a", ["$b/$b", "$\x7bc\x7d", "$d", "plain"], true), ("c", ["1", "2"], false),
    ("b", ["<$c>"], true)]

theorem resolve_solves_sharedReference :
    ∃ m, (resolve (.ofDeclarations sharedReference) (.fresh id id)).1 = .ok m ∧
      m.texts "a" = ["<1>/<1>", "<1>/<2>", "<2>/<1>", "<2>/<2>", "1", "2", "$d", "plain"] ∧
      (ofDeclarations sharedReference).Solves m.texts := by
  have hm : ((resolve (.ofDeclarations sharedReference) (.fresh id id)).1.toOption.map
      fun m => m.texts "a") =
        some (["<1>/<1>", "<1>/<2>", "<2>/<1>", "<2>/<2>", "1", "2", "$d", "plain"] : List Text) := by
    decide +kernel
  rcases h : (resolve (.ofDeclarations sharedReference) (.fresh id id)).1 with e | m
  · rw [h] at hm; cases hm
  · rw [h] at hm
    exact ⟨m, rfl, Option.some.inj hm, (resolve_solves _ _ m h).2.1⟩

end Macros

end FormEdits
