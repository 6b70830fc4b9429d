import FormEdits.Proofs.Macros.Solution

/-! # Resolving a part of the declarations

The declarations of some names can be left out if the pending values of the others do not refer to
those names: the others are resolved to the same texts (`resolve_filter`), and a text that refers to
them alone expands to the same texts (`expand_eq_of_sameTexts`). -/

namespace FormEdits

namespace MacroTable

open Relation

/-- A name that `p` keeps and that no generated macro has. -/
def IsOrdinary (p : Text → Bool) (n : Text) : Prop := Generator.ofName? n = none ∧ p n = true

/-- The text refers to macros with ordinary names alone. -/
def RefersToOrdinary (p : Text → Bool) (t : Text) : Prop := ∀ x ∈ Macros.names t, IsOrdinary p x

/-- The pending values of ordinary names refer to ordinary names alone. -/
def Closed (p : Text → Bool) (ds : List (Text × List Text × Bool)) : Prop :=
  ∀ d ∈ ds, IsOrdinary p d.1 → d.2.2 = true → ∀ t ∈ d.2.1, RefersToOrdinary p t

instance (p : Text → Bool) (n : Text) : Decidable (IsOrdinary p n) :=
  inferInstanceAs (Decidable (_ ∧ _))

instance (p : Text → Bool) (t : Text) : Decidable (RefersToOrdinary p t) :=
  inferInstanceAs (Decidable (∀ x ∈ Macros.names t, IsOrdinary p x))

instance (p : Text → Bool) (ds : List (Text × List Text × Bool)) : Decidable (Closed p ds) :=
  inferInstanceAs (Decidable (∀ d ∈ ds, IsOrdinary p d.1 → d.2.2 = true →
    ∀ t ∈ d.2.1, RefersToOrdinary p t))

variable {p : Text → Bool} {ds : List (Text × List Text × Bool)} {n x : Text}

theorem Closed.refersToOrdinary (h : Closed p ds) (hn : IsOrdinary p n) {e : MacroEntry}
    (he : e ∈ ((ofDeclarations ds).entries? n).getD []) (hp : e.isPending) {t : Text}
    (ht : e.value = .text t) : RefersToOrdinary p t := by
  rw [entries?_ofDeclarations hn.1] at he
  obtain ⟨d, hd, he⟩ := List.mem_flatMap.1 he
  obtain ⟨hd, hdn⟩ := List.mem_filter.1 hd
  obtain ⟨t', ht', rfl⟩ := List.mem_map.1 he
  cases ht
  have hpending : d.2.2 = true := by
    rcases hdp : d.2.2 with _ | _
    · simp [entry, MacroEntry.isPending, hdp] at hp
    · rfl
  rw [← of_decide_eq_true hdn] at hn
  exact h d hd hn hpending t ht'

theorem Closed.refersTo (h : Closed p ds) (hn : IsOrdinary p n)
    (hr : (ofDeclarations ds).RefersTo n x) : IsOrdinary p x := by
  obtain ⟨-, e, he, hp, t, ht, hx⟩ := hr
  exact h.refersToOrdinary hn he hp ht x hx

theorem Closed.reflTransGen (h : Closed p ds) (hn : IsOrdinary p n)
    (hr : ReflTransGen (ofDeclarations ds).RefersTo n x) : IsOrdinary p x := by
  induction hr with
  | refl => exact hn
  | tail _ hr ih => exact h.refersTo ih hr

theorem Closed.isFixed (h : Closed p ds) (hn : IsOrdinary p n)
    (hc : (ofDeclarations ds).contains n) : (ofDeclarations ds).IsFixed n := by
  refine ⟨hc, fun g hr => ?_⟩
  have hg := (h.reflTransGen hn hr).1
  rw [Generator.ofName?_name] at hg
  cases hg

theorem Closed.filter (h : Closed p ds) : Closed p (ds.filter fun d => p d.1) :=
  fun d hd => h d (List.mem_filter.1 hd).1

theorem contains_filter (hn : p n) :
    (ofDeclarations (ds.filter fun d => p d.1)).contains n = (ofDeclarations ds).contains n := by
  rw [contains, contains, ← entries?, ← entries?, entries?_ofDeclarations_filter hn]

theorem entries?_filter_of_not (hg : Generator.ofName? n = none) (hn : ¬ p n) :
    (ofDeclarations (ds.filter fun d => p d.1)).entries? n = none := by
  refine entries?_eq_none hg fun d hd hdn => ?_
  exact absurd (hdn ▸ (List.mem_filter.1 hd).2) hn

theorem refersTo_of_filter (hr : (ofDeclarations (ds.filter fun d => p d.1)).RefersTo n x) :
    (ofDeclarations ds).RefersTo n x := by
  -- what is in the part is a name that was kept, or a generated macro, which every table has
  have hentries : ∀ y, (ofDeclarations (ds.filter fun d => p d.1)).contains y →
      (ofDeclarations (ds.filter fun d => p d.1)).entries? y = (ofDeclarations ds).entries? y := by
    intro y hy
    by_cases hp : p y
    · exact entries?_ofDeclarations_filter hp ds
    rcases hg : Generator.ofName? y with _ | g
    · rw [contains, ← entries?, entries?_filter_of_not hg hp] at hy
      cases hy
    · rw [← Generator.name_of_ofName? hg, (wellFormed_ofDeclarations _).generated,
        (wellFormed_ofDeclarations _).generated]
  have hn := hentries n (contains_of_refersTo_left hr)
  obtain ⟨hx, he⟩ := hr
  refine ⟨?_, hn ▸ he⟩
  rwa [contains, ← entries?, hentries x hx, entries?, ← contains] at hx

theorem Closed.textsOf_filter (h : Closed p ds) (hn : IsOrdinary p n) (σ : Text → List Text)
    {e : MacroEntry} (he : e ∈ ((ofDeclarations ds).entries? n).getD []) :
    (ofDeclarations (ds.filter fun d => p d.1)).textsOf σ e = (ofDeclarations ds).textsOf σ e := by
  unfold textsOf
  split
  · rename_i t ht
    split
    · rename_i hp
      refine Macros.substitutions_congr fun piece hpiece x hx => ?_
      have hord := h.refersToOrdinary hn he hp ht x (Macros.mem_names.2 ⟨piece, hpiece, hx⟩)
      rw [bound, bound, contains_filter hord.2]
    · rfl
  · rfl

end MacroTable

namespace Macros

open MacroTable

variable {p : Text → Bool} {ds : List (Text × List Text × Bool)} {m m' : Expansions}

/-- Either both have the same texts of a macro or neither has the macro. -/
def SameTexts (m m' : Expansions) (n : Text) : Prop :=
  ∃ ts : Option (List Text), m.find? n = ts.map (List.map .text) ∧
    m'.find? n = ts.map (List.map .text)

/-- If ordinary names refer to ordinary names alone, the other declarations can be left out without
a change to the texts of these names. -/
theorem resolve_filter (h : Closed p ds) {s : Supply}
    (hm : (resolve (.ofDeclarations ds) s).1 = .ok m) (s' : Supply) :
    ∃ m', (resolve (.ofDeclarations (ds.filter fun d => p d.1)) s').1 = .ok m' ∧
      ∀ n, IsOrdinary p n → SameTexts m m' n := by
  have ht := wellFormed_ofDeclarations ds
  have ht' := wellFormed_ofDeclarations (ds.filter fun d => p d.1)
  have hacyclic := acyclic_of_resolve ht hm
  obtain ⟨m', hm'⟩ := resolve_of_acyclic ht' (fun n hc => hacyclic n
    (Relation.TransGen.mono (fun _ _ => refersTo_of_filter) _ _ hc)) s'
  obtain ⟨hs, hk⟩ := settled_of_resolve ht hm
  obtain ⟨hs', hk'⟩ := settled_of_resolve ht' hm'
  -- along the references of the whole table, of which those of the part are the same
  have hsolved : ∀ n, IsOrdinary p n → (ofDeclarations ds).contains n → m'.texts n = m.texts n := by
    intro n hn hc
    induction n using (hs.wellFounded ht hk).induction with
    | _ n ih =>
      have hc' : (ofDeclarations (ds.filter fun d => p d.1)).contains n := by
        rwa [contains_filter hn.2]
      rw [(hs'.find?_eq_texts ht' hk' (h.filter.isFixed hn hc')).2,
        (hs.find?_eq_texts ht hk (h.isFixed hn hc)).2, entries?_ofDeclarations_filter hn.2]
      refine List.flatMap_congr fun e he => ?_
      rw [h.textsOf_filter hn _ he]
      exact textsOf_congr he fun x hx => ih x hx (h.refersTo hn hx) hx.1
  refine ⟨m', hm', fun n hn => ?_⟩
  by_cases hc : (ofDeclarations ds).contains n
  · have hc' : (ofDeclarations (ds.filter fun d => p d.1)).contains n := by
      rwa [contains_filter hn.2]
    refine ⟨some (m.texts n), (hs.find?_eq_texts ht hk (h.isFixed hn hc)).1, ?_⟩
    rw [(hs'.find?_eq_texts ht' hk' (h.filter.isFixed hn hc')).1, hsolved n hn hc]
    rfl
  · have hc' : ¬ (ofDeclarations (ds.filter fun d => p d.1)).contains n := by
      rwa [contains_filter hn.2]
    refine ⟨none, Assoc.find?_eq_none_iff.2 fun hmem => hc ?_,
      Assoc.find?_eq_none_iff.2 fun hmem => hc' ?_⟩
    · exact contains_iff.2 (hk.mem_iff.1 hmem)
    · exact contains_iff.2 (hk'.mem_iff.1 hmem)

theorem expand_eq_of_sameTexts {t : Text} (h : ∀ x ∈ names t, SameTexts m m' x) :
    ∃ ts, (∀ s, expand m t s = (ts, s)) ∧ ∀ s, expand m' t s = (ts, s) := by
  have hm : ∀ x ∈ names t, m.find? x = ((m.find? x).map fun vs =>
      vs.filterMap MacroValue.text?).map (List.map .text) ∧ m'.find? x = m.find? x := by
    intro x hx
    obtain ⟨ts, hts, hts'⟩ := h x hx
    rw [hts, hts']
    refine ⟨?_, rfl⟩
    rcases ts with _ | ts
    · rfl
    · simp [List.filterMap_map, Function.comp_def, MacroValue.text?]
  refine ⟨_, fun s => expand_eq_substitutions (fun x hx => (hm x hx).1) s, fun s => ?_⟩
  exact expand_eq_substitutions (fun x hx => (hm x hx).2.trans (hm x hx).1) s

theorem expandAll_eq_of_sameTexts {ts : List Text}
    (h : ∀ t ∈ ts, ∀ x ∈ names t, SameTexts m m' x) :
    ∃ us, (∀ s, expandAll m ts s = (us, s)) ∧ ∀ s, expandAll m' ts s = (us, s) := by
  induction ts with
  | nil => exact ⟨[], fun _ => rfl, fun _ => rfl⟩
  | cons t ts ih =>
    obtain ⟨here, hm, hm'⟩ := expand_eq_of_sameTexts (h t (List.mem_cons_self ..))
    obtain ⟨rest, hr, hr'⟩ := ih fun t ht => h t (List.mem_cons_of_mem _ ht)
    refine ⟨here ++ rest, fun s => ?_, fun s => ?_⟩
    · simp only [expandAll, hm, hr]
    · simp only [expandAll, hm', hr']

end Macros

end FormEdits
