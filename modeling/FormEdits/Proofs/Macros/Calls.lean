import FormEdits.Proofs.Macros.Solution
import Mathlib.Algebra.BigOperators.Group.List.Basic
import Mathlib.Data.List.Forall2

/-! # Which results share a generated value

The results of a text are numbered by `choices`, one index for each of its bound references. A
generator is called once for each of the texts that are begun before its reference, so a `Call` is
known by the choices made until then. `calls` lists the calls of a text in the order in which they
are made, and the result of a choice is put together from the texts that the choice takes and the
values of its calls (`expand_calls`). -/

namespace FormEdits

namespace Macros

/-! ### Choices -/

/-- The lists of indices below the given bounds, the first index slowest. -/
def choices : List Nat → List (List Nat)
  | [] => [[]]
  | k :: ks => (List.range k).flatMap fun i => (choices ks).map (i :: ·)

section

variable {ks js π : List Nat} {k : Nat}

theorem mem_choices : π ∈ choices ks ↔ List.Forall₂ (· < ·) π ks := by
  induction ks generalizing π with
  | nil => simp [choices]
  | cons k ks ih =>
    simp only [choices, List.mem_flatMap, List.mem_range, List.mem_map, ih]
    constructor
    · rintro ⟨i, hi, ρ, hρ, rfl⟩
      exact .cons hi hρ
    · rintro (_ | ⟨hi, hρ⟩)
      exact ⟨_, hi, _, hρ, rfl⟩

theorem length_of_mem_choices (h : π ∈ choices ks) : π.length = ks.length :=
  (mem_choices.1 h).length_eq

theorem length_choices (ks : List Nat) : (choices ks).length = ks.prod := by
  induction ks with
  | nil => rfl
  | cons k ks ih => simp [choices, ih]

theorem nodup_choices (ks : List Nat) : (choices ks).Nodup := by
  induction ks with
  | nil => exact List.nodup_singleton _
  | cons k ks ih =>
    refine List.nodup_flatMap.2 ⟨fun i _ => ih.map List.cons_injective, ?_⟩
    refine (List.nodup_range (n := k)).imp fun {i j} hne => List.disjoint_left.2 fun π hi hj => ?_
    obtain ⟨ρ, -, rfl⟩ := List.mem_map.1 hi
    obtain ⟨ρ', -, heq⟩ := List.mem_map.1 hj
    exact hne (List.cons.inj heq).1.symm

theorem choices_concat (ks : List Nat) (k : Nat) : choices (ks ++ [k]) =
    (choices ks).flatMap fun π => (List.range k).map fun i => π ++ [i] := by
  induction ks with
  | nil => simp [choices, List.map_eq_flatMap]
  | cons j ks ih =>
    simp only [List.cons_append, choices, ih, List.map_flatMap, List.flatMap_assoc,
      List.flatMap_map, List.map_map]
    rfl

end

end Macros

/-! ### Calls -/

/-- A call of a generator: the choices for the references before it, in the texts that it is made
for, and which of the values of its own reference it is. -/
structure Call where
  before : List Nat
  index : Nat
  generator : Generator
deriving DecidableEq, Repr

namespace MacroValue

/-- The call that a value needs for a text that was begun by the choices `before`, if it does. -/
def calls (before : List Nat) (index : Nat) : MacroValue → List Call
  | text _ => []
  | generated g => [⟨before, index, g⟩]

/-- The text of a value, if `value` gives those of the calls. -/
def textBy (value : Call → Text) (before : List Nat) (index : Nat) : MacroValue → Text
  | text t => t
  | generated g => value ⟨before, index, g⟩

end MacroValue

namespace Macros

/-- The calls for a text begun by the choices `before`, at a reference with these values. -/
def callsAt (before : List Nat) (vs : List MacroValue) : List Call :=
  vs.zipIdx.flatMap fun v => v.1.calls before v.2

/-- The calls at references with these values, behind references with `ks` values each. -/
def callsFrom : (ks : List Nat) → List (List MacroValue) → List Call
  | _, [] => []
  | ks, vs :: vss =>
    (choices ks).flatMap (fun before => callsAt before vs) ++ callsFrom (ks ++ [vs.length]) vss

/-- The calls at references with these values, in the order in which they are made. -/
def calls (vss : List (List MacroValue)) : List Call := callsFrom [] vss

/-- The texts that the result of a choice carries at its bound references. -/
def carriedFrom (value : Call → Text) :
    (before : List Nat) → List (List MacroValue) → (choice : List Nat) → List Text
  | before, vs :: vss, i :: π =>
    ((vs[i]?).map (·.textBy value before i)).getD [] :: carriedFrom value (before ++ [i]) vss π
  | _, _, _ => []

/-- The bound names among the references of a text, in order. -/
def boundNames (m : Expansions) (ps : List Piece) : List Text :=
  (ps.filterMap Piece.name?).filter fun x => (m.find? x).isSome

/-- The values of the bound references of a text, in order. -/
def boundValues (m : Expansions) (ps : List Piece) : List (List MacroValue) :=
  (boundNames m ps).map fun x => (m.find? x).getD []

/-- The text of some parts, with the given texts for the bound references. -/
def assemble (m : Expansions) : List Piece → (carried : List Text) → Text
  | [], _ => []
  | .literal t :: ps, ts => t ++ assemble m ps ts
  | .reference x braced :: ps, ts =>
    if (m.find? x).isSome then ts.headD [] ++ assemble m ps ts.tail
    else (Piece.reference x braced).text ++ assemble m ps ts

/-- The values that the calls of some generators draw. -/
def drawAll (cs : List Call) (s : Supply) : List Text × Supply :=
  renderAll (cs.map fun c => .generated c.generator) s

/-! ### Drawing -/

theorem renderAll_append (vs ws : List MacroValue) (s : Supply) : renderAll (vs ++ ws) s =
    ((renderAll vs s).1 ++ (renderAll ws (renderAll vs s).2).1,
      (renderAll ws (renderAll vs s).2).2) := by
  induction vs generalizing s with
  | nil => rfl
  | cons v vs ih =>
    simp only [List.cons_append, renderAll, ih]

theorem length_renderAll (vs : List MacroValue) (s : Supply) :
    (renderAll vs s).1.length = vs.length := by
  induction vs generalizing s with
  | nil => rfl
  | cons v vs ih => simp only [renderAll, List.length_cons, ih]

theorem drawAll_append (cs ds : List Call) (s : Supply) : drawAll (cs ++ ds) s =
    ((drawAll cs s).1 ++ (drawAll ds (drawAll cs s).2).1, (drawAll ds (drawAll cs s).2).2) := by
  rw [drawAll, List.map_append, renderAll_append]
  rfl

theorem length_drawAll (cs : List Call) (s : Supply) : (drawAll cs s).1.length = cs.length := by
  rw [drawAll, length_renderAll, List.length_map]

/-- `value` gives each call the text that it draws. -/
def Draws (value : Call → Text) (cs : List Call) (s : Supply) : Prop :=
  cs.map value = (drawAll cs s).1

theorem draws_append {value : Call → Text} {cs ds : List Call} {s : Supply} :
    Draws value (cs ++ ds) s ↔ Draws value cs s ∧ Draws value ds (drawAll cs s).2 := by
  have hlen : (cs.map value).length = (drawAll cs s).1.length := by
    rw [List.length_map, length_drawAll]
  rw [Draws, drawAll_append, List.map_append]
  exact ⟨fun h => List.append_inj h hlen, fun ⟨hc, hd⟩ => by rw [hc, hd]⟩

/-! ### Expanding by calls -/

section

variable {value : Call → Text} {before : List Nat} {vs : List MacroValue} {s : Supply}

theorem render_eq {v : MacroValue} {i : Nat} (h : Draws value (v.calls before i) s) :
    v.render s = (v.textBy value before i, (drawAll (v.calls before i) s).2) := by
  cases v with
  | text t => rfl
  | generated g => exact Prod.ext (List.cons.inj h).1.symm rfl

theorem renderAll_eq (n : Nat)
    (h : Draws value ((vs.zipIdx n).flatMap fun v => v.1.calls before v.2) s) :
    renderAll vs s = ((vs.zipIdx n).map fun v => v.1.textBy value before v.2,
      (drawAll ((vs.zipIdx n).flatMap fun v => v.1.calls before v.2) s).2) := by
  induction vs generalizing n s with
  | nil => rfl
  | cons v vs ih =>
    rw [List.zipIdx_cons, List.flatMap_cons] at h ⊢
    obtain ⟨hv, hvs⟩ := draws_append.1 h
    rw [renderAll, render_eq hv]
    dsimp only
    rw [ih (n + 1) hvs, drawAll_append]
    rfl

/-- A text that was begun goes on with each of the values. -/
def extend (value : Call → Text) (vs : List MacroValue) (b : List Nat × Text) :
    List (List Nat × Text) :=
  vs.zipIdx.map fun v => (b.1 ++ [v.2], b.2 ++ v.1.textBy value b.1 v.2)

theorem appendEach_eq {begun : List (List Nat × Text)}
    (h : Draws value (begun.flatMap fun b => callsAt b.1 vs) s) :
    appendEach vs (begun.map Prod.snd) s =
      ((begun.flatMap (extend value vs)).map Prod.snd,
        (drawAll (begun.flatMap fun b => callsAt b.1 vs) s).2) := by
  induction begun generalizing s with
  | nil => rfl
  | cons b begun ih =>
    rw [List.flatMap_cons] at h
    obtain ⟨hb, hbegun⟩ := draws_append.1 h
    have hvs : renderAll vs s = (vs.zipIdx.map fun v => v.1.textBy value b.1 v.2,
        (drawAll (callsAt b.1 vs) s).2) := renderAll_eq 0 hb
    rw [List.map_cons, appendEach, hvs]
    dsimp only
    rw [ih hbegun, List.flatMap_cons, List.flatMap_cons, drawAll_append, List.map_append, extend,
      List.map_map, List.map_map]
    rfl

theorem map_fst_extend (b : List Nat × Text) : (extend value vs b).map Prod.fst =
    (List.range vs.length).map fun i => b.1 ++ [i] := by
  rw [extend, List.map_map, List.range_eq_range', ← List.zipIdx_map_snd, List.map_map]
  rfl

end

/-! ### Results -/

section

variable {m : Expansions} {value : Call → Text} {ps : List Piece} {ks : List Nat} {s : Supply}

/-- The results of a text that was begun, one for each choice for the references in its other
parts. -/
def results (m : Expansions) (value : Call → Text) (ps : List Piece) (b : List Nat × Text) :
    List Text :=
  (choices ((boundValues m ps).map List.length)).map fun π =>
    b.2 ++ assemble m ps (carriedFrom value b.1 (boundValues m ps) π)

theorem results_nil (b : List Nat × Text) : results m value [] b = [b.2] := by
  show [b.2 ++ []] = [b.2]
  rw [List.append_nil]

theorem results_cons_self {p : Piece} {u : Text}
    (hvalues : boundValues m (p :: ps) = boundValues m ps)
    (hassemble : ∀ ts, assemble m (p :: ps) ts = u ++ assemble m ps ts) (b : List Nat × Text) :
    results m value (p :: ps) b = results m value ps (b.1, b.2 ++ u) := by
  simp only [results, hvalues, hassemble, List.append_assoc]

theorem boundValues_cons_bound {x : Text} {braced : Bool} {vs : List MacroValue}
    (hx : m.find? x = some vs) :
    boundValues m (.reference x braced :: ps) = vs :: boundValues m ps := by
  simp [boundValues, boundNames, Piece.name?, hx]

theorem results_cons_bound {x : Text} {braced : Bool} {vs : List MacroValue}
    (hx : m.find? x = some vs) (b : List Nat × Text) :
    results m value (.reference x braced :: ps) b =
      (extend value vs b).flatMap (results m value ps) := by
  have hrange : List.range vs.length = vs.zipIdx.map Prod.snd := by
    rw [List.zipIdx_map_snd, List.range_eq_range']
  rw [results, boundValues_cons_bound hx, List.map_cons, choices, hrange, List.flatMap_map,
    List.map_flatMap, extend, List.flatMap_map]
  refine List.flatMap_congr fun v hv => ?_
  rw [List.map_map, results]
  refine List.map_congr_left fun π _ => ?_
  have hget : vs[v.2]? = some v.1 := List.mem_zipIdx_iff_getElem?.1 hv
  simp only [Function.comp_apply, carriedFrom, assemble, hx, hget, Option.isSome_some, if_true,
    Option.map_some, Option.getD_some, List.headD_cons, List.tail_cons, List.append_assoc]

/-- Going on from texts that were begun by all choices for some references. -/
theorem expandFrom_eq {begun : List (List Nat × Text)} (hks : begun.map Prod.fst = choices ks)
    (h : Draws value (callsFrom ks (boundValues m ps)) s) :
    expandFrom m ps (begun.map Prod.snd) s =
      (begun.flatMap (results m value ps), (drawAll (callsFrom ks (boundValues m ps)) s).2) := by
  induction ps generalizing ks begun s with
  | nil =>
    refine Prod.ext ?_ rfl
    rw [expandFrom, List.map_eq_flatMap]
    exact List.flatMap_congr fun b _ => (results_nil b).symm
  | cons p ps ih =>
    -- a part that stands for itself makes no call
    have hself : ∀ u, valuesOf m p = [.text u] → boundValues m (p :: ps) = boundValues m ps →
        (∀ ts, assemble m (p :: ps) ts = u ++ assemble m ps ts) →
        expandFrom m (p :: ps) (begun.map Prod.snd) s =
          (begun.flatMap (results m value (p :: ps)),
            (drawAll (callsFrom ks (boundValues m (p :: ps))) s).2) := by
      intro u hu hvalues hassemble
      rw [hvalues] at h ⊢
      have hfst : (begun.map fun b => (b.1, b.2 ++ u)).map Prod.fst = choices ks := by
        rw [List.map_map, ← hks]
        rfl
      have happend : appendEach (valuesOf m p) (begun.map Prod.snd) s =
          ((begun.map fun b => (b.1, b.2 ++ u)).map Prod.snd, s) := by
        rw [hu, show [MacroValue.text u] = [u].map .text from rfl, appendEach_text,
          List.flatMap_map, List.map_map, List.map_eq_flatMap]
        rfl
      rw [expandFrom, happend]
      dsimp only
      rw [ih hfst h, List.flatMap_map]
      refine Prod.ext (List.flatMap_congr fun b _ => ?_) rfl
      exact (results_cons_self hvalues hassemble b).symm
    rcases p with t | ⟨x, braced⟩
    · exact hself t rfl rfl fun ts => rfl
    rcases hx : m.find? x with _ | vs
    · refine hself (Piece.reference x braced).text ?_ ?_ fun ts => ?_
      · simp [valuesOf, hx]
      · simp [boundValues, boundNames, Piece.name?, hx]
      · simp [assemble, hx]
    · rw [boundValues_cons_bound hx, callsFrom, ← hks, List.flatMap_map] at h
      rw [boundValues_cons_bound hx, callsFrom, ← hks, List.flatMap_map]
      obtain ⟨hhere, hrest⟩ := draws_append.1 h
      have hfst : (begun.flatMap (extend value vs)).map Prod.fst = choices (ks ++ [vs.length]) := by
        rw [choices_concat, ← hks, List.map_flatMap, List.flatMap_map]
        simp only [map_fst_extend]
      have hvalues : valuesOf m (.reference x braced) = vs := by simp [valuesOf, hx]
      rw [expandFrom, hvalues, appendEach_eq hhere]
      dsimp only
      rw [ih hfst hrest, drawAll_append, List.flatMap_assoc]
      exact Prod.ext (List.flatMap_congr fun b _ => (results_cons_bound hx b).symm) rfl

end

/-! ### The calls of a text -/

section

variable {c : Call} {before ks π π' : List Nat} {vs : List MacroValue}
  {vss : List (List MacroValue)} {g g' : Generator} {j j' : Nat}

theorem take_mem_choices (h : π ∈ choices ks) (j : Nat) : π.take j ∈ choices (ks.take j) :=
  mem_choices.2 (List.forall₂_take j (mem_choices.1 h))

theorem mem_callsAt : c ∈ callsAt before vs ↔
    c.before = before ∧ vs[c.index]? = some (.generated c.generator) := by
  obtain ⟨before', i, g⟩ := c
  simp only [callsAt, List.mem_flatMap, Prod.exists, List.mem_zipIdx_iff_getElem?]
  constructor
  · rintro ⟨v, n, hv, hc⟩
    cases v with
    | text t => cases hc
    | generated g' =>
      cases List.mem_singleton.1 hc
      exact ⟨rfl, hv⟩
  · rintro ⟨rfl, hv⟩
    exact ⟨_, _, hv, List.mem_singleton_self _⟩

theorem mem_callsFrom : c ∈ callsFrom ks vss ↔
    ∃ j vs, vss[j]? = some vs ∧ c.before ∈ choices (ks ++ (vss.take j).map List.length) ∧
      vs[c.index]? = some (.generated c.generator) := by
  induction vss generalizing ks with
  | nil => simp [callsFrom]
  | cons vs vss ih =>
    simp only [callsFrom, List.mem_append, List.mem_flatMap, mem_callsAt, ih]
    constructor
    · rintro (⟨π, hπ, rfl, hv⟩ | ⟨j, vs', hj, hbefore, hv⟩)
      · exact ⟨0, vs, rfl, by simpa using hπ, hv⟩
      · exact ⟨j + 1, vs', hj, by simpa using hbefore, hv⟩
    · rintro ⟨_ | j, vs', hj, hbefore, hv⟩
      · cases hj
        exact .inl ⟨c.before, by simpa using hbefore, rfl, hv⟩
      · exact .inr ⟨j, vs', hj, by simpa using hbefore, hv⟩

/-- Behind some references, calls are made for texts that were begun by choices for these. -/
theorem length_before_of_mem_callsFrom (h : c ∈ callsFrom ks vss) :
    ks.length ≤ c.before.length := by
  obtain ⟨j, vs, -, hbefore, -⟩ := mem_callsFrom.1 h
  rw [length_of_mem_choices hbefore, List.length_append]
  exact Nat.le_add_right _ _

theorem length_before_of_mem_callsAt
    (h : c ∈ (choices ks).flatMap fun before => callsAt before vs) : c.before.length = ks.length := by
  obtain ⟨π, hπ, hc⟩ := List.mem_flatMap.1 h
  rw [(mem_callsAt.1 hc).1, length_of_mem_choices hπ]

theorem nodup_callsAt (before : List Nat) (vs : List MacroValue) : (callsAt before vs).Nodup := by
  have hindex : (vs.zipIdx.map Prod.snd).Nodup := by
    rw [List.zipIdx_map_snd]
    exact List.nodup_range'
  refine List.nodup_flatMap.2 ⟨fun v _ => ?_, ?_⟩
  · rcases v with ⟨t | g, i⟩
    · exact List.nodup_nil
    · exact List.nodup_singleton _
  · refine (List.pairwise_map.1 hindex).imp fun {v v'} hne => ?_
    refine List.disjoint_left.2 fun c hc hc' => ?_
    rcases v with ⟨t | g, i⟩
    · cases hc
    rcases v' with ⟨t | g', i'⟩
    · cases hc'
    cases List.mem_singleton.1 hc
    exact hne (congrArg Call.index (List.mem_singleton.1 hc'))

theorem nodup_callsFrom (ks : List Nat) (vss : List (List MacroValue)) :
    (callsFrom ks vss).Nodup := by
  induction vss generalizing ks with
  | nil => exact List.nodup_nil
  | cons vs vss ih =>
    have hhere : ((choices ks).flatMap fun before => callsAt before vs).Nodup := by
      refine List.nodup_flatMap.2 ⟨fun before _ => nodup_callsAt before vs, ?_⟩
      refine (nodup_choices ks).imp fun {π π'} hne => List.disjoint_left.2 fun c hc hc' => ?_
      exact hne ((mem_callsAt.1 hc).1.symm.trans (mem_callsAt.1 hc').1)
    -- the calls at later references are made for longer choices
    refine hhere.append (ih _) (List.disjoint_left.2 fun c hc hc' => ?_)
    have hlength := length_before_of_mem_callsFrom hc'
    rw [length_before_of_mem_callsAt hc, List.length_append] at hlength
    exact absurd hlength (Nat.not_succ_le_self _)

theorem length_filter_callsFrom (ks : List Nat) (hj : vss[j]? = some [.generated g]) :
    ((callsFrom ks vss).filter fun c => c.before.length = ks.length + j).length =
      (ks ++ (vss.take j).map List.length).prod := by
  induction vss generalizing ks j with
  | nil => cases hj
  | cons vs vss ih =>
    rw [callsFrom, List.filter_append, List.length_append]
    cases j with
    | zero =>
      cases hj
      have hhere : ((choices ks).flatMap fun before => callsAt before [.generated g]).filter
          (fun c => c.before.length = ks.length + 0) =
            (choices ks).flatMap fun before => callsAt before [.generated g] :=
        List.filter_eq_self.2 fun c hc => by simp [length_before_of_mem_callsAt hc]
      have hlater : (callsFrom (ks ++ [1]) vss).filter (fun c => c.before.length = ks.length + 0) =
          [] := by
        refine List.filter_eq_nil_iff.2 fun c hc => ?_
        have hlength := length_before_of_mem_callsFrom hc
        simp only [List.length_append, List.length_singleton] at hlength
        simp only [decide_eq_true_eq]
        omega
      rw [hhere]
      simp only [List.length_singleton]
      rw [hlater]
      simp [callsAt, MacroValue.calls, length_choices]
    | succ j =>
      have hhere : ((choices ks).flatMap fun before => callsAt before vs).filter
          (fun c => c.before.length = ks.length + (j + 1)) = [] :=
        List.filter_eq_nil_iff.2 fun c hc => by simp [length_before_of_mem_callsAt hc]
      have hlater := ih (ks ++ [vs.length]) hj
      rw [List.length_append, List.length_singleton, Nat.add_right_comm] at hlater
      rw [hhere, List.length_nil, Nat.zero_add, ← Nat.add_assoc, hlater]
      simp

/-- The values that calls draw, each found by the number of the call. -/
theorem draws_of_nodup {cs : List Call} (h : cs.Nodup) (s : Supply) :
    Draws (fun c => (drawAll cs s).1[cs.idxOf c]?.getD []) cs s := by
  refine List.ext_getElem (by rw [List.length_map, length_drawAll]) fun i hi hi' => ?_
  rw [List.getElem_map, h.idxOf_getElem, List.getElem?_eq_getElem hi', Option.getD_some]

theorem carriedFrom_getElem? {value : Call → Text} {i : Nat}
    (hπ : π ∈ choices (vss.map List.length)) (hj : vss[j]? = some vs) (hi : π[j]? = some i) (before : List Nat) :
    (carriedFrom value before vss π)[j]? =
      (vs[i]?).map fun v => v.textBy value (before ++ π.take j) i := by
  induction vss generalizing π j before with
  | nil => cases hj
  | cons vs' vss ih =>
    obtain ⟨i', π, hi', hρ, rfl⟩ := List.forall₂_cons_right_iff.1 (mem_choices.1 hπ)
    cases j with
    | zero =>
      cases hj
      cases hi
      rw [carriedFrom, List.getElem?_cons_zero, List.getElem?_eq_getElem hi', List.take_zero,
        List.append_nil]
      rfl
    | succ j =>
      rw [carriedFrom, List.getElem?_cons_succ, ih (mem_choices.2 hρ) hj hi, List.take_succ_cons,
        List.append_assoc, List.singleton_append]

theorem mem_calls_of_generated (hπ : π ∈ choices (vss.map List.length))
    (hj : vss[j]? = some [.generated g]) : ⟨π.take j, 0, g⟩ ∈ calls vss := by
  refine mem_callsFrom.2 ⟨j, _, hj, ?_, rfl⟩
  rw [List.nil_append, List.map_take]
  exact take_mem_choices hπ j

theorem getElem?_of_generated (hπ : π ∈ choices (vss.map List.length))
    (hj : vss[j]? = some [.generated g]) : π[j]? = some 0 := by
  obtain ⟨hlength, hlt⟩ := List.forall₂_iff_get.1 (mem_choices.1 hπ)
  obtain ⟨hjv, hget⟩ := List.getElem?_eq_some_iff.1 hj
  rw [List.length_map] at hlength
  have hjπ : j < π.length := hlength ▸ hjv
  have hzero := hlt j hjπ (by rwa [List.length_map])
  simp only [List.get_eq_getElem, List.getElem_map, hget, List.length_singleton,
    Nat.lt_one_iff] at hzero
  rw [List.getElem?_eq_getElem hjπ, hzero]

/-- The number of the call that the result of a choice carries at a generated reference. -/
def callNumber (vss : List (List MacroValue)) (π : List Nat) (j : Nat) (g : Generator) : Nat :=
  (calls vss).idxOf ⟨π.take j, 0, g⟩

/-- The texts that the result of a choice carries at its bound references, if `drawn` are the values
of the calls. -/
def carried (vss : List (List MacroValue)) (drawn : List Text) (π : List Nat) : List Text :=
  carriedFrom (fun c => drawn[(calls vss).idxOf c]?.getD []) [] vss π

theorem callNumber_lt (hπ : π ∈ choices (vss.map List.length))
    (hj : vss[j]? = some [.generated g]) : callNumber vss π j g < (calls vss).length :=
  List.idxOf_lt_length_iff.2 (mem_calls_of_generated hπ hj)

theorem carried_of_generated (hπ : π ∈ choices (vss.map List.length))
    (hj : vss[j]? = some [.generated g]) (s : Supply) :
    (carried vss (drawAll (calls vss) s).1 π)[j]? =
      (drawAll (calls vss) s).1[callNumber vss π j g]? := by
  have hlt : callNumber vss π j g < (drawAll (calls vss) s).1.length := by
    rw [length_drawAll]
    exact callNumber_lt hπ hj
  rw [carried, carriedFrom_getElem? hπ hj (getElem?_of_generated hπ hj), List.nil_append,
    List.getElem?_eq_getElem hlt]
  show some ((drawAll (calls vss) s).1[callNumber vss π j g]?.getD []) = _
  rw [List.getElem?_eq_getElem hlt, Option.getD_some]

/-- Results share a call if it is at the same reference, and they have made the same choices before
it. -/
theorem callNumber_eq_iff (hπ : π ∈ choices (vss.map List.length))
    (hπ' : π' ∈ choices (vss.map List.length)) (hj : vss[j]? = some [.generated g])
    (hj' : vss[j']? = some [.generated g']) :
    callNumber vss π j g = callNumber vss π' j' g' ↔ j = j' ∧ π.take j = π'.take j := by
  have hlength : ∀ {π j g}, π ∈ choices (vss.map List.length) → vss[j]? = some [.generated g] →
      (π.take j).length = j := by
    intro π j g hπ hj
    have hlt := (List.getElem?_eq_some_iff.1 (getElem?_of_generated hπ hj)).1
    rw [List.length_take, Nat.min_eq_left hlt.le]
  rw [callNumber, callNumber, List.idxOf_inj (mem_calls_of_generated hπ hj), Call.mk.injEq]
  constructor
  · rintro ⟨hbefore, -, -⟩
    have hjj : j = j' := by
      rw [← hlength hπ hj, hbefore, hlength hπ' hj']
    exact ⟨hjj, hjj ▸ hbefore⟩
  · rintro ⟨rfl, hbefore⟩
    rw [hj] at hj'
    cases hj'
    exact ⟨hbefore, rfl, rfl⟩

end

theorem expand_eq (m : Expansions) (t : Text) (s : Supply) :
    expand m t s = ((choices ((boundValues m (pieces t)).map List.length)).map fun π =>
      assemble m (pieces t) (carried (boundValues m (pieces t))
        (drawAll (calls (boundValues m (pieces t))) s).1 π),
      (drawAll (calls (boundValues m (pieces t))) s).2) := by
  have hbegun : [(([], []) : List Nat × Text)].map Prod.fst = choices [] := rfl
  have h := expandFrom_eq hbegun
    (draws_of_nodup (nodup_callsFrom [] (boundValues m (pieces t))) s)
  rw [List.flatMap_singleton] at h
  exact h

/-! ### Resolved tables -/

section

variable {table : MacroTable} {m : Expansions} {ps : List Piece} {j : Nat} {n : Text}

theorem Settled.find?_generated (ht : table.WellFormed) (h : Settled table m)
    (hk : m.keys.Perm table.keys) (g : Generator) : m.find? g.name = some [.generated g] := by
  have hmem : g.name ∈ m.keys := by
    rw [hk.mem_iff, ← MacroTable.contains_iff, MacroTable.contains, ← MacroTable.entries?,
      ht.generated]
    rfl
  obtain ⟨m', s, -, -, hval⟩ := h.find? (hk.symm.nodup ht.nodup) hmem
  rw [hval, ht.generated]
  rfl

theorem boundValues_getElem? (h : (boundNames m ps)[j]? = some n) :
    (boundValues m ps)[j]? = some ((m.find? n).getD []) := by
  rw [boundValues, List.getElem?_map, h, Option.map_some]

/-- Generators are among the values of the generated macros alone. -/
theorem name_of_generated_mem {g : Generator}
    (hgen : ∀ g : Generator, m.find? g.name = some [.generated g])
    (htexts : ∀ n, Generator.ofName? n = none → (m.find? n).getD [] = (m.texts n).map .text)
    (h : .generated g ∈ (m.find? n).getD []) : n = g.name := by
  rcases hn : Generator.ofName? n with _ | g'
  · rw [htexts n hn] at h
    obtain ⟨t, -, ht⟩ := List.mem_map.1 h
    cases ht
  · rw [← Generator.name_of_ofName? hn, hgen, Option.getD_some, List.mem_singleton] at h
    cases h
    exact (Generator.name_of_ofName? hn).symm

theorem name_of_mem_calls {c : Call}
    (hgen : ∀ g : Generator, m.find? g.name = some [.generated g])
    (htexts : ∀ n, Generator.ofName? n = none → (m.find? n).getD [] = (m.texts n).map .text)
    (hc : c ∈ calls (boundValues m ps)) :
    (boundNames m ps)[c.before.length]? = some c.generator.name := by
  obtain ⟨j, vs, hj, hbefore, hv⟩ := mem_callsFrom.1 hc
  have hjlt := (List.getElem?_eq_some_iff.1 hj).1
  have hlength : c.before.length = j := by
    rw [length_of_mem_choices hbefore, List.nil_append, List.length_map, List.length_take,
      Nat.min_eq_left hjlt.le]
  rw [boundValues, List.getElem?_map] at hj
  obtain ⟨n, hn, rfl⟩ := Option.map_eq_some_iff.1 hj
  rw [hlength, hn, name_of_generated_mem hgen htexts (List.mem_of_getElem? hv)]

end

/-- A text that is expanded by a resolved table makes `calls vss` in this order, each at a reference
to a generated macro. The result of a choice carries the value of one call at each such reference;
two results share it exactly if they have made the same choices before that reference, and calls at
different references are never shared, so there is one call for each choice before the reference.
All other macros have texts for values after resolving: a result carries the text that is chosen,
and nothing is drawn where no generated macro is named. -/
theorem expand_calls (ds : List (Text × List Text × Bool)) (s₀ : Supply) (m : Expansions)
    (h : (resolve (.ofDeclarations ds) s₀).1 = .ok m) (t : Text) (s : Supply) :
    let rs := boundNames m (pieces t)
    let vss := rs.map fun x => (m.find? x).getD []
    let ks := vss.map List.length
    let drawn := (drawAll (calls vss) s).1
    expand m t s = ((choices ks).map fun π => assemble m (pieces t) (carried vss drawn π),
      (drawAll (calls vss) s).2) ∧
    (∀ c ∈ calls vss, rs[c.before.length]? = some c.generator.name) ∧
    (∀ (j : Nat) (g : Generator), rs[j]? = some g.name →
      ((calls vss).filter fun c => c.before.length = j).length = (ks.take j).prod ∧
      ∀ π ∈ choices ks, callNumber vss π j g < (calls vss).length ∧
        (carried vss drawn π)[j]? = drawn[callNumber vss π j g]? ∧
        ∀ (j' : Nat) (g' : Generator), rs[j']? = some g'.name → ∀ π' ∈ choices ks,
          (callNumber vss π j g = callNumber vss π' j' g' ↔ j = j' ∧ π.take j = π'.take j)) ∧
    (∀ g : Generator, m.find? g.name = some [.generated g]) ∧
    (∀ n, Generator.ofName? n = none → (m.find? n).getD [] = (m.texts n).map .text ∧
      ∀ (j i : Nat), rs[j]? = some n → ∀ π ∈ choices ks, π[j]? = some i →
        (carried vss drawn π)[j]? = (m.texts n)[i]?) ∧
    ((∀ x ∈ names t, Generator.ofName? x = none) → ∃ ts, ∀ s', expand m t s' = (ts, s')) := by
  intro rs vss ks drawn
  have ht := MacroTable.wellFormed_ofDeclarations ds
  obtain ⟨hs, hk⟩ := settled_of_resolve ht h
  have hgen : ∀ g : Generator, m.find? g.name = some [.generated g] := hs.find?_generated ht hk
  have htexts : ∀ n, Generator.ofName? n = none → (m.find? n).getD [] = (m.texts n).map .text :=
    fun n hn => hs.values_eq_texts ht (hk.symm.nodup ht.nodup) hn
  have hvalues : ∀ (j : Nat) (g : Generator), rs[j]? = some g.name →
      vss[j]? = some [MacroValue.generated g] := by
    intro j g hj
    rw [show vss[j]? = _ from boundValues_getElem? hj, hgen]
    rfl
  refine ⟨expand_eq m t s, fun c hc => name_of_mem_calls hgen htexts hc,
    fun j g hj => ⟨?_, fun π hπ => ?_⟩, hgen, fun n hn => ⟨htexts n hn, fun j i hj π hπ hi => ?_⟩,
    fun hnames => ?_⟩
  · have hcount := length_filter_callsFrom [] (hvalues j g hj)
    rw [List.length_nil, Nat.zero_add, List.nil_append] at hcount
    rw [← List.map_take]
    exact hcount
  · refine ⟨callNumber_lt hπ (hvalues j g hj), carried_of_generated hπ (hvalues j g hj) s, ?_⟩
    intro j' g' hj' π' hπ'
    exact callNumber_eq_iff hπ hπ' (hvalues j g hj) (hvalues j' g' hj')
  · rw [carried, carriedFrom_getElem? hπ (boundValues_getElem? hj) hi, htexts n hn,
      List.getElem?_map, Option.map_map]
    cases (m.texts n)[i]? <;> rfl
  · have hσ : ∀ x ∈ names t, m.find? x =
        ((m.find? x).map fun _ => m.texts x).map fun ts => ts.map .text := by
      intro x hx
      have hx := htexts x (hnames x hx)
      rcases hfind : m.find? x with _ | vs
      · rfl
      · rw [hfind] at hx
        exact congrArg some hx
    exact ⟨_, fun s' => expand_eq_substitutions hσ s'⟩

/-- A macro with two values, and one that captures a generated value. -/
def captured : List (Text × List Text × Bool) :=
  [("id", ["$NEW_UUID"], true), ("a", ["x", "y"], false)]

/-- Generated values behind one reference with two values, and behind two. -/
def mixed : Text := "$a/$NEW_UUID/$a/$\x7bNEW_UUID\x7d/$id"

theorem expand_calls_captured : ∃ m, (resolve (.ofDeclarations captured) (.fresh id id)).1 = .ok m ∧
    boundNames m (pieces mixed) = ["a", "NEW_UUID", "a", "NEW_UUID", "id"] ∧
    ((calls (boundValues m (pieces mixed))).filter fun c => c.before.length = 3).length = 4 ∧
    callNumber (boundValues m (pieces mixed)) [0, 0, 0, 0, 0] 1 .uuid =
      callNumber (boundValues m (pieces mixed)) [0, 0, 1, 0, 0] 1 .uuid ∧
    callNumber (boundValues m (pieces mixed)) [0, 0, 0, 0, 0] 3 .uuid ≠
      callNumber (boundValues m (pieces mixed)) [0, 0, 1, 0, 0] 3 .uuid ∧
    ∃ ts, ∀ s, expand m "$id, $id" s = (ts, s) := by
  have hm : ((resolve (.ofDeclarations captured) (.fresh id id)).1.toOption.map fun m =>
      (boundNames m (pieces mixed), (boundValues m (pieces mixed)).map List.length)) =
        some ((["a", "NEW_UUID", "a", "NEW_UUID", "id"] : List Text), [2, 1, 2, 1, 1]) := by
    decide +kernel
  rcases h : (resolve (.ofDeclarations captured) (.fresh id id)).1 with e | m
  · rw [h] at hm
    cases hm
  rw [h] at hm
  obtain ⟨hnames, hcounts⟩ := Prod.mk.inj (Option.some.inj hm)
  obtain ⟨-, -, hcalls, -⟩ := expand_calls captured _ m h mixed (.fresh id id)
  obtain ⟨-, -, -, -, -, hfixed⟩ := expand_calls captured _ m h "$id, $id" (.fresh id id)
  have hfirst : (boundNames m (pieces mixed))[1]? = some (Generator.name .uuid) := by
    rw [hnames]
    rfl
  have hsecond : (boundNames m (pieces mixed))[3]? = some (Generator.name .uuid) := by
    rw [hnames]
    rfl
  have hchoices : ∀ π ∈ choices [2, 1, 2, 1, 1],
      π ∈ choices ((boundValues m (pieces mixed)).map List.length) := by
    intro π hπ
    rwa [hcounts]
  have hleft := hchoices [0, 0, 0, 0, 0] (by decide)
  have hright := hchoices [0, 0, 1, 0, 0] (by decide)
  obtain ⟨-, hshared⟩ := hcalls 1 .uuid hfirst
  obtain ⟨hcount, hseparate⟩ := hcalls 3 .uuid hsecond
  refine ⟨m, rfl, hnames, ?_, ?_, ?_, hfixed (by decide +kernel)⟩
  · exact hcount.trans (congrArg (fun ks => (List.take 3 ks).prod) hcounts)
  · obtain ⟨-, -, hiff⟩ := hshared _ hleft
    exact (hiff 1 .uuid hfirst _ hright).2 ⟨rfl, rfl⟩
  · obtain ⟨-, -, hiff⟩ := hseparate _ hleft
    intro heq
    exact absurd ((hiff 3 .uuid hsecond _ hright).1 heq).2 (by decide)

end Macros

end FormEdits
