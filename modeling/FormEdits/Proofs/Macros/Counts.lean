import FormEdits.Proofs.Macros.Calls
import FormEdits.Session.Special
import Mathlib.Algebra.Order.BigOperators.GroupWithZero.List
import Mathlib.Algebra.Order.Ring.Nat

/-! # How many expansions there are

A text has as many expansions as there are ways to choose a value for each of its bound references.
After resolving no macro is without values (`Settled.isFull`), so this product is never zero: a key
or a value of a form that names macros is never lost by expanding it (`Macros.resolve_counts`). -/

namespace FormEdits

namespace Expansions

/-- The number of values of a macro. -/
def count (m : Expansions) (n : Text) : Nat := ((m.find? n).getD []).length

/-- The number of ways to choose a value for each bound reference of a text, every occurrence of a
name being a reference of its own. -/
def combinations (m : Expansions) (t : Text) : Nat :=
  ((Macros.boundNames m (Macros.pieces t)).map m.count).prod

/-- No macro is without values. -/
def IsFull (m : Expansions) : Prop := ∀ n vs, m.find? n = some vs → vs ≠ []

theorem IsFull.combinations_pos {m : Expansions} (h : m.IsFull) (t : Text) :
    0 < m.combinations t := by
  refine List.prod_pos fun k hk => ?_
  obtain ⟨n, hn, rfl⟩ := List.mem_map.1 hk
  obtain ⟨vs, hvs⟩ := Option.isSome_iff_exists.1 (List.mem_filter.1 hn).2
  rw [count, hvs]
  exact List.length_pos_of_ne_nil (h n vs hvs)

theorem IsFull.length_le_sum {m : Expansions} (h : m.IsFull) (ts : List Text) :
    ts.length ≤ (ts.map m.combinations).sum := by
  induction ts with
  | nil => exact Nat.le_refl 0
  | cons t ts ih =>
    rw [List.map_cons, List.sum_cons, List.length_cons, Nat.add_comm]
    exact Nat.add_le_add (h.combinations_pos t) ih

theorem isFull_nil : IsFull [] := nofun

theorem IsFull.cons {m : Expansions} {n : Text} {vs : List MacroValue} (h : m.IsFull)
    (hvs : vs ≠ []) : IsFull ((n, vs) :: m) := by
  intro n' vs' hfind
  by_cases hn : n' = n
  · subst hn
    rw [Assoc.find?_cons_self] at hfind
    cases hfind
    exact hvs
  · rw [Assoc.find?_cons_of_ne hn] at hfind
    exact h n' vs' hfind

end Expansions

namespace Macros

variable {table : MacroTable} {m : Expansions} {n : Text}

theorem length_expand (m : Expansions) (t : Text) (s : Supply) :
    (expand m t s).1.length = m.combinations t := by
  rw [expand_eq, List.length_map, length_choices, boundValues, List.map_map]
  rfl

theorem length_expandAll (m : Expansions) (ts : List Text) (s : Supply) :
    (expandAll m ts s).1.length = (ts.map m.combinations).sum := by
  induction ts generalizing s with
  | nil => rfl
  | cons t ts ih =>
    simp only [expandAll, List.length_append, length_expand, ih, List.map_cons, List.sum_cons]

/-! ### Resolved tables are full -/

theorem valuesOf_ne_nil (h : m.IsFull) {es : List MacroEntry} (hes : es ≠ []) (s : Supply) :
    (Walk.valuesOf m es s).1 ≠ [] := by
  obtain ⟨e, es, rfl⟩ := List.exists_cons_of_ne_nil hes
  rw [Walk.valuesOf]
  split
  · rename_i t _ _
    have hlength : 0 < (expand m t s).1.length := by
      rw [length_expand]
      exact h.combinations_pos t
    simp [List.ne_nil_of_length_pos hlength]
  · exact List.cons_ne_nil _ _

theorem Settled.isFull (ht : table.WellFormed) (h : Settled table m)
    (hk : ∀ n ∈ m.keys, n ∈ table.keys) : m.IsFull := by
  induction h with
  | nil => exact Expansions.isFull_nil
  | @cons m n s _ _ ih =>
    have hm := ih fun n' hn' => hk n' (List.mem_cons_of_mem _ hn')
    obtain ⟨es, hes⟩ := Option.isSome_iff_exists.1
      (MacroTable.contains_iff.2 (hk n (List.mem_cons_self ..)))
    refine hm.cons (valuesOf_ne_nil hm ?_ s)
    rw [MacroTable.entries?, hes]
    exact ht.nonempty n es hes

theorem contains_eq_isSome (hk : m.keys.Perm table.keys) (n : Text) :
    table.contains n = (m.find? n).isSome := by
  rw [Bool.eq_iff_iff, MacroTable.contains_iff, Assoc.find?_isSome_iff, hk.mem_iff]

/-- Whatever is declared, the generated macros keep their one value, in the table and in what it
resolves to. After resolving, the macros of the table are the bound ones, and each has a value. So
every text has as many expansions as there are choices of values for its bound references, which is
at least one; of some texts none is lost; and the macros that change the session have a last value
wherever they are declared. -/
theorem resolve_counts (ds : List (Text × List Text × Bool)) (s₀ : Supply) :
    (∀ g : Generator,
      (MacroTable.ofDeclarations ds).entries? g.name = some [⟨.generated g, []⟩]) ∧
    ∀ m, (resolve (.ofDeclarations ds) s₀).1 = .ok m →
      (∀ g : Generator, m.find? g.name = some [.generated g]) ∧
      (∀ n, (MacroTable.ofDeclarations ds).contains n = (m.find? n).isSome) ∧
      (∀ n, (MacroTable.ofDeclarations ds).contains n → ∃ v vs, m.find? n = some (v :: vs)) ∧
      (∀ t s, (expand m t s).1.length = m.combinations t ∧ (expand m t s).1 ≠ []) ∧
      (∀ ts s, (expandAll m ts s).1.length = (ts.map m.combinations).sum ∧
        ts.length ≤ (expandAll m ts s).1.length) ∧
      ∀ (special : Special) (s : Supply),
        (MacroTable.ofDeclarations ds).contains special.name →
          ∃ t, (renderAll ((m.find? special.name).getD []) s).1.getLast? = some t := by
  have ht := MacroTable.wellFormed_ofDeclarations ds
  refine ⟨ht.generated, fun m h => ?_⟩
  obtain ⟨hs, hk⟩ := settled_of_resolve ht h
  have hfull : m.IsFull := hs.isFull ht fun n hn => hk.mem_iff.1 hn
  have hbound : ∀ n, (MacroTable.ofDeclarations ds).contains n →
      ∃ v vs, m.find? n = some (v :: vs) := by
    intro n hn
    rw [contains_eq_isSome hk] at hn
    obtain ⟨vs, hvs⟩ := Option.isSome_iff_exists.1 hn
    obtain ⟨v, vs, rfl⟩ := List.exists_cons_of_ne_nil (hfull n vs hvs)
    exact ⟨v, vs, hvs⟩
  refine ⟨hs.find?_generated ht hk, contains_eq_isSome hk, hbound, fun t s => ?_, fun ts s => ?_,
    fun special s hn => ?_⟩
  · refine ⟨length_expand m t s, List.ne_nil_of_length_pos ?_⟩
    rw [length_expand]
    exact hfull.combinations_pos t
  · refine ⟨length_expandAll m ts s, ?_⟩
    rw [length_expandAll]
    exact hfull.length_le_sum ts
  · obtain ⟨v, vs, hvs⟩ := hbound special.name hn
    rw [hvs, Option.getD_some, renderAll]
    exact ⟨_, List.getLast?_eq_some_getLast (List.cons_ne_nil _ _)⟩

/-- A declaration without values binds nothing, and every occurrence of a name multiplies. -/
example : ((resolve (.ofDeclarations
    [("a", ["x", "y"], false), ("b", [], false), ("c", ["$a$a"], true)])
    (.fresh id id)).1.toOption.map fun m => (m.count "c", m.combinations "$c, $b, $c $a")) =
      some (4, 32) := by
  decide +kernel

end Macros

end FormEdits
