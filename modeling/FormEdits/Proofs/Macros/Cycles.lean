import FormEdits.Proofs.Macros.Walk
import Mathlib.Data.List.Chain
import Mathlib.Data.List.Nodup
import Mathlib.Order.WellFounded

/-! # Cycles of macros

Resolving fails exactly if macros depend on each other in a circle, and the error shows a circle
(`resolve_ok_iff_acyclic`). A sound walk that meets a macro on its own stack has walked the circle
(`Walk.Sound.isCircle`); settled macros are well-founded (`Settled.wellFounded`). -/

namespace FormEdits

/-- A way from a macro through others, at least one, and back to it: each refers to the next, and
none to itself. -/
def MacroTable.IsCircle (table : MacroTable) (ns : List Text) : Prop :=
  ∃ c cs, ns = c :: cs ++ [c] ∧ cs ≠ [] ∧ (c :: cs).Nodup ∧ ns.IsChain table.RefersTo ∧
    ∀ x ∈ c :: cs, ¬ table.RefersTo x x

namespace Macros

open Relation

variable {table : MacroTable} {m : Expansions} {w : Walk}

/-! ### Settled macros depend on each other in no circle -/

theorem Settled.acc (ht : table.WellFormed) (h : Settled table m) :
    ∀ n ∈ m.keys, Acc (fun a b => table.RefersTo b a) n := by
  induction h with
  | nil => intro n hn; cases hn
  | cons n s _ hd ih =>
    intro n' hn'
    rcases List.mem_cons.1 hn' with rfl | hn'
    · exact ⟨_, fun d hr => ih d (hd d ((MacroTable.mem_dependencies_iff ht).2 hr))⟩
    · exact ih n' hn'

theorem Settled.wellFounded (ht : table.WellFormed) (h : Settled table m)
    (hk : m.keys.Perm table.keys) : WellFounded (fun a b => table.RefersTo b a) := by
  refine ⟨fun n => ?_⟩
  by_cases hn : n ∈ m.keys
  · exact h.acc ht n hn
  · refine ⟨_, fun d hr => ?_⟩
    have hc := MacroTable.contains_iff.1 (MacroTable.contains_of_refersTo_left hr)
    exact absurd (hk.mem_iff.2 hc) hn

theorem not_transGen_of_wellFounded {α : Type} {r : α → α → Prop}
    (h : WellFounded fun a b => r b a) (a : α) : ¬ TransGen r a a := by
  intro hc
  have hc' : TransGen (fun a b => r b a) a a := transGen_swap.2 hc
  exact h.transGen.irrefl.irrefl a hc'

/-! ### A failed walk has gone round a circle -/

theorem transGen_of_isChain {α : Type} {r : α → α → Prop} {b : α} :
    ∀ {a : α} {l : List α}, (a :: l ++ [b]).IsChain r → TransGen r a b
  | _, [], h => .single (List.isChain_pair.1 h)
  | _, _ :: _, h => by
    obtain ⟨hr, h⟩ := List.isChain_cons_cons.1 h
    exact .head hr (transGen_of_isChain h)

/-- A chain from `n` to `d` and a step from `d` to `n`, read backwards, close a circle. -/
theorem isChain_circle {α : Type} {r : α → α → Prop} {n d : α} {inner rest : List α} (hd : r d n)
    (h : (n :: inner ++ d :: rest).IsChain r) :
    (d :: (n :: inner).reverse ++ [d]).IsChain fun a b => r b a := by
  have hback : (d :: n :: (inner ++ [d])).IsChain r :=
    List.isChain_cons_cons.2 ⟨hd, (List.isChain_split.1 h).1⟩
  have hrev : (d :: (n :: inner).reverse ++ [d]).reverse = d :: n :: (inner ++ [d]) := by simp
  rw [← List.reverse_reverse (d :: (n :: inner).reverse ++ [d]), List.isChain_reverse, hrev]
  exact hback

theorem nodup_cons_reverse {α : Type} {d : α} {inner rest : List α}
    (h : (inner ++ d :: rest).Nodup) : (d :: inner.reverse).Nodup := by
  have hp : (inner ++ d :: rest).Perm (d :: (inner ++ rest)) := List.perm_middle
  obtain ⟨hd, hnd⟩ := List.nodup_cons.1 (hp.nodup h)
  refine List.nodup_cons.2 ⟨fun hm => hd ?_, ?_⟩
  · exact List.mem_append_left _ (List.mem_reverse.1 hm)
  · exact List.nodup_reverse.2 (List.nodup_append.1 hnd).1

theorem StackSound.isChain : ∀ {fs : List Frame} {d : Text}, StackSound table m [d] fs →
    (d :: fs.map Frame.name).IsChain fun a b => a ∈ table.dependencies b
  | [], _, _ => .singleton _
  | f :: _, d, ⟨⟨seen, hd, _⟩, hfs⟩ =>
    List.isChain_cons_cons.2 ⟨by rw [hd]; simp, hfs.isChain⟩

namespace Walk

theorem cycleThrough_eq {d : Text} {fs : List Frame} (h : d ∈ fs.map Frame.name) :
    ∃ inner outer, fs.map Frame.name = inner ++ d :: outer ∧
      cycleThrough d fs = d :: inner.reverse ++ [d] := by
  obtain ⟨inner, outer, hn, hd⟩ := List.eq_append_cons_of_mem h
  refine ⟨inner, outer, hn, ?_⟩
  have hw : (inner ++ d :: outer).takeWhile (· != d) = inner := by
    rw [List.takeWhile_append_of_pos, List.takeWhile_cons_of_neg (by simp), List.append_nil]
    intro x hx
    exact bne_iff_ne.2 fun hxd => hd (hxd ▸ hx)
  rw [cycleThrough, hn, hw]
  rfl

theorem Sound.nodup_visiting (ht : table.WellFormed) (h : w.Sound table) :
    (w.visiting.map Frame.name).Nodup := by
  have hn := h.names.symm.nodup ht.nodup
  exact (List.nodup_append.1 (List.nodup_append.1 hn).1).2.1

/-- A dependency of the innermost macro that is being visited closes a circle. -/
theorem Sound.isCircle {us : List Text} {n d : Text} {ds : List Text} {outer : List Frame}
    {s : Supply} (ht : table.WellFormed) (h : Sound table ⟨us, ⟨n, d :: ds⟩ :: outer, m, s⟩)
    (hd : d ∈ (⟨n, d :: ds⟩ :: outer).map Frame.name) :
    table.IsCircle (cycleThrough d (⟨n, d :: ds⟩ :: outer)) := by
  obtain ⟨inner, rest, hnames, hcycle⟩ := cycleThrough_eq hd
  obtain ⟨hf, hfs⟩ := h.stack
  have hself : ∀ x ∈ (⟨n, d :: ds⟩ :: outer).map Frame.name, x ∉ table.dependencies x := by
    intro x hx
    obtain ⟨f, hf, rfl⟩ := List.mem_map.1 hx
    exact h.entered f hf
  have hdn : d ∈ table.dependencies n := hf.mem_dependencies
  have hnd := h.nodup_visiting ht
  have hchain := hfs.isChain
  rw [hcycle]
  rcases inner with _ | ⟨x, inner⟩
  · -- the innermost macro is not `d`, since it does not refer to itself
    obtain rfl : n = d := (List.cons.inj hnames).1
    exact absurd hdn (hself n (List.mem_cons_self ..))
  obtain rfl : n = x := (List.cons.inj hnames).1
  refine ⟨d, (n :: inner).reverse, rfl, by simp, ?_, ?_, fun y hy hr => ?_⟩
  · rw [hnames] at hnd
    exact nodup_cons_reverse hnd
  · have hc : (n :: inner ++ d :: rest).IsChain fun a b => a ∈ table.dependencies b := by
      rw [← hnames]; exact hchain
    exact (isChain_circle hdn hc).imp fun a b hab => (MacroTable.mem_dependencies_iff ht).1 hab
  · refine hself y ?_ ((MacroTable.mem_dependencies_iff ht).2 hr)
    rw [hnames]
    rcases List.mem_cons.1 hy with rfl | hy
    · exact List.mem_append_right _ (List.mem_cons_self ..)
    · exact List.mem_append_left _ (List.mem_reverse.1 hy)

theorem Sound.fails (ht : table.WellFormed) (h : w.Sound table) {e : Error} (he : Fails table w e) :
    (∃ n, e = .selfReference n ∧ table.RefersTo n n) ∨ ∃ ns, e = .cycle ns ∧ table.IsCircle ns := by
  cases he with
  | root hn => exact .inl ⟨_, rfl, (MacroTable.mem_dependencies_iff ht).1 hn⟩
  | descend _ hd => exact .inl ⟨_, rfl, (MacroTable.mem_dependencies_iff ht).1 hd⟩
  | cycle _ hd => exact .inr ⟨_, rfl, h.isCircle ht hd⟩

end Walk

theorem resolve_error (ht : table.WellFormed) {s : Supply} {e : Error}
    (h : (resolve table s).1 = .error e) :
    (∃ n, e = .selfReference n ∧ table.RefersTo n n) ∨ ∃ ns, e = .cycle ns ∧ table.IsCircle ns := by
  rcases resolve_cases ht s with ⟨m, hm, -⟩ | ⟨w, e', hw, he, hm⟩
  · rw [hm] at h; cases h
  · rw [hm] at h; cases h
    exact hw.fails ht he

theorem resolve_of_acyclic (ht : table.WellFormed) (h : ∀ n, ¬ TransGen table.RefersTo n n)
    (s : Supply) : ∃ m, (resolve table s).1 = .ok m := by
  rcases hr : (resolve table s).1 with e | m
  · rcases resolve_error ht hr with ⟨n, -, hn⟩ | ⟨ns, -, c, cs, rfl, -, -, hc, -⟩
    · exact absurd (.single hn) (h n)
    · exact absurd (transGen_of_isChain hc) (h c)
  · exact ⟨m, rfl⟩

theorem acyclic_of_resolve (ht : table.WellFormed) {s : Supply} (h : (resolve table s).1 = .ok m) :
    ∀ n, ¬ TransGen table.RefersTo n n := by
  obtain ⟨hs, hk⟩ := settled_of_resolve ht h
  exact not_transGen_of_wellFounded (hs.wellFounded ht hk)

/-- Resolving succeeds exactly if no macro refers to itself, not even through others. Its only errors
are a macro that refers to itself and a circle. -/
theorem resolve_ok_iff_acyclic (ds : List (Text × List Text × Bool)) (s : Supply) :
    ((∃ m, (resolve (.ofDeclarations ds) s).1 = .ok m) ↔
      ∀ n, ¬ TransGen (MacroTable.ofDeclarations ds).RefersTo n n) ∧
    ∀ e, (resolve (.ofDeclarations ds) s).1 = .error e →
      (∃ n, e = .selfReference n ∧ (MacroTable.ofDeclarations ds).RefersTo n n) ∨
      ∃ ns, e = .cycle ns ∧ (MacroTable.ofDeclarations ds).IsCircle ns := by
  have ht := MacroTable.wellFormed_ofDeclarations ds
  exact ⟨⟨fun ⟨m, hm⟩ => acyclic_of_resolve ht hm, fun h => resolve_of_acyclic ht h s⟩,
    fun e he => resolve_error ht he⟩

end Macros

end FormEdits
