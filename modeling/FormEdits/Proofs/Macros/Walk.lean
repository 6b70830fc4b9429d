import FormEdits.Macros.Resolve
import FormEdits.Proofs.Macros.Table
import FormEdits.Proofs.Result
import Mathlib.Logic.Relation
import Mathlib.Tactic.Set

/-! # The walk through a macro table

`Moves` says what a step of the walk can do and `Fails` why there is none. A run makes moves until
every macro is finished or the walk fails (`run_reaches`).

`Sound` is the invariant: each macro of the table is unmet, being visited or finished, once; the
dependencies of a macro being visited that are looked at already are finished, but for the one that
is being visited inside it; and the finished macros are `Settled`, each finished when all of its
dependencies were. -/

namespace FormEdits

namespace Macros

open Relation

/-- A step of a walk that is not done. -/
inductive Walk.Moves (table : MacroTable) : Walk → Walk → Prop
  | root {n us m s} : n ∉ table.dependencies n →
    Moves table ⟨n :: us, [], m, s⟩ ⟨us, [⟨n, table.dependencies n⟩], m, s⟩
  | descend {us n d ds outer m s} : d ∈ us → d ∉ table.dependencies d →
    Moves table ⟨us, ⟨n, d :: ds⟩ :: outer, m, s⟩
      ⟨us.erase d, ⟨d, table.dependencies d⟩ :: ⟨n, ds⟩ :: outer, m, s⟩
  | skip {us n d ds outer m s} : d ∉ us → d ∉ (⟨n, d :: ds⟩ :: outer).map Frame.name →
    Moves table ⟨us, ⟨n, d :: ds⟩ :: outer, m, s⟩ ⟨us, ⟨n, ds⟩ :: outer, m, s⟩
  | leave {us n outer m s} :
    Moves table ⟨us, ⟨n, []⟩ :: outer, m, s⟩ (leave table n outer ⟨us, ⟨n, []⟩ :: outer, m, s⟩)

/-- Why a walk cannot go on: the macro to be entered refers to itself, or the next dependency is
being visited already. -/
inductive Walk.Fails (table : MacroTable) : Walk → Error → Prop
  | root {n us m s} : n ∈ table.dependencies n →
    Fails table ⟨n :: us, [], m, s⟩ (.selfReference n)
  | descend {us n d ds outer m s} : d ∈ us → d ∈ table.dependencies d →
    Fails table ⟨us, ⟨n, d :: ds⟩ :: outer, m, s⟩ (.selfReference d)
  | cycle {us n d ds outer m s} : d ∉ us → d ∈ (⟨n, d :: ds⟩ :: outer).map Frame.name →
    Fails table ⟨us, ⟨n, d :: ds⟩ :: outer, m, s⟩ (.cycle (cycleThrough d (⟨n, d :: ds⟩ :: outer)))

/-- The macros of `m` were finished one after another, from the last to the first, each with the
values that its entries have by those finished before it. -/
inductive Settled (table : MacroTable) : Expansions → Prop
  | nil : Settled table []
  | cons {m : Expansions} (n : Text) (s : Supply) : Settled table m →
    (∀ d ∈ table.dependencies n, d ∈ m.keys) →
    Settled table ((n, (Walk.valuesOf m ((table.entries? n).getD []) s).1) :: m)

/-- Each dependency of the macro of a frame is finished, is the macro `inner` that is being visited
inside it, or is still to be looked at. -/
def Frame.Sound (table : MacroTable) (m : Expansions) (inner : List Text) (f : Frame) : Prop :=
  ∃ seen, table.dependencies f.name = seen ++ inner ++ f.remaining ∧ ∀ d ∈ seen, d ∈ m.keys

/-- The frames, innermost first, are sound, `inner` being visited inside the first of them. -/
def StackSound (table : MacroTable) (m : Expansions) : List Text → List Frame → Prop
  | _, [] => True
  | inner, f :: outer => f.Sound table m inner ∧ StackSound table m [f.name] outer

structure Walk.Sound (table : MacroTable) (w : Walk) : Prop where
  names : (w.unmet ++ w.visiting.map Frame.name ++ w.finished.keys).Perm table.keys
  stack : StackSound table w.finished [] w.visiting
  settled : Settled table w.finished
  entered : ∀ f ∈ w.visiting, f.name ∉ table.dependencies f.name

namespace Walk

variable {table : MacroTable} {w w' : Walk}

/-! ### Steps and runs -/

theorem moves_of_enter {n : Text} (h : w.enter table n = .ok w') :
    n ∉ table.dependencies n ∧
      w' = ⟨w.unmet.erase n, ⟨n, table.dependencies n⟩ :: w.visiting, w.finished, w.supply⟩ := by
  simp only [enter] at h
  split at h
  · cases h
  · rename_i hn
    cases h
    exact ⟨hn, rfl⟩

theorem fails_of_enter {n : Text} {e : Error} (h : w.enter table n = .error e) :
    n ∈ table.dependencies n ∧ e = .selfReference n := by
  simp only [enter] at h
  split at h
  · rename_i hn
    cases h
    exact ⟨hn, rfl⟩
  · cases h

theorem moves_of_step (hd : w.isDone = false) (h : w.step table = .ok w') : Moves table w w' := by
  obtain ⟨us, vs, m, s⟩ := w
  match vs with
  | [] =>
    match us with
    | [] => simp [isDone] at hd
    | n :: us =>
      obtain ⟨hn, rfl⟩ := moves_of_enter (w := ⟨n :: us, [], m, s⟩) h
      simpa using Moves.root hn
  | ⟨n, []⟩ :: outer =>
    cases h
    exact .leave
  | ⟨n, d :: ds⟩ :: outer =>
    simp only [step] at h
    split at h
    · rename_i hm
      obtain ⟨hd, rfl⟩ := moves_of_enter h
      exact .descend hm hd
    · rename_i hm
      split at h
      · cases h
      · rename_i hv
        cases h
        exact .skip hm hv

theorem fails_of_step {e : Error} (h : w.step table = .error e) : Fails table w e := by
  obtain ⟨us, vs, m, s⟩ := w
  match vs with
  | [] =>
    match us with
    | [] => cases h
    | n :: us =>
      obtain ⟨hn, rfl⟩ := fails_of_enter (w := ⟨n :: us, [], m, s⟩) h
      exact .root hn
  | ⟨n, []⟩ :: outer => cases h
  | ⟨n, d :: ds⟩ :: outer =>
    simp only [step] at h
    split at h
    · rename_i hm
      obtain ⟨hd, rfl⟩ := fails_of_enter h
      exact .descend hm hd
    · rename_i hm
      split at h
      · rename_i hv
        cases h
        exact .cycle hm hv
      · cases h

theorem run_of_isDone (hd : w.isDone = true) : run table w = (.ok w.finished, w.supply) := by
  rw [run]
  split
  · rfl
  · simp_all

theorem run_of_step_error (hd : w.isDone = false) {e : Error} (hs : w.step table = .error e) :
    run table w = (.error e, w.supply) := by
  rw [run]
  split
  · simp_all
  · split
    · simp_all
    · simp_all

theorem run_of_step_ok (hd : w.isDone = false) (hs : w.step table = .ok w') :
    run table w = run table w' := by
  rw [run]
  split
  · simp_all
  · split
    · simp_all
    · simp_all

/-- A run makes moves until all is finished or the walk fails. -/
theorem run_reaches (table : MacroTable) (w : Walk) :
    ∃ w', ReflTransGen (Moves table) w w' ∧
      ((w'.isDone = true ∧ run table w = (.ok w'.finished, w'.supply)) ∨
        ∃ e, Fails table w' e ∧ run table w = (.error e, w'.supply)) := by
  induction w using run.induct table with
  | case1 w hd => exact ⟨w, .refl, .inl ⟨hd, run_of_isDone hd⟩⟩
  | case2 w hd e hs => exact ⟨w, .refl, .inr ⟨e, fails_of_step hs, run_of_step_error hd hs⟩⟩
  | case3 w hd w₁ hs ih =>
    obtain ⟨w', hr, h⟩ := ih
    rw [run_of_step_ok hd hs]
    exact ⟨w', .head (moves_of_step hd hs) hr, h⟩

/-! ### Walks with other values -/

/-- What the next step depends on; the values of the finished macros and the supply do not count. -/
def front (w : Walk) : List Text × List Frame := (w.unmet, w.visiting)

theorem isDone_of_front (h : w'.front = w.front) : w'.isDone = w.isDone := by
  obtain ⟨hu, hv⟩ := Prod.mk.inj h
  rw [isDone, isDone, hu, hv]

theorem front_step (h : w'.front = w.front) :
    (w'.step table).map front = (w.step table).map front := by
  obtain ⟨us, vs, m, s⟩ := w
  obtain ⟨us', vs', m', s'⟩ := w'
  obtain ⟨rfl, rfl⟩ := Prod.mk.inj h
  match vs' with
  | [] =>
    match us' with
    | [] => rfl
    | n :: us =>
      simp only [step, enter]
      split <;> rfl
  | ⟨n, []⟩ :: outer => rfl
  | ⟨n, d :: ds⟩ :: outer =>
    simp only [step, enter]
    split
    · split <;> rfl
    · split <;> rfl

theorem run_eq_error_of_front (h : w'.front = w.front) {e : Error}
    (he : (run table w).1 = .error e) : (run table w').1 = .error e := by
  induction w using run.induct table generalizing w' with
  | case1 w hd => rw [run_of_isDone hd] at he; cases he
  | case2 w hd e' hs =>
    rw [run_of_step_error hd hs] at he
    cases he
    have hs' : w'.step table = .error e := by
      rw [← map_eq_error_iff, front_step h, hs]
      rfl
    rw [run_of_step_error ((isDone_of_front h).trans hd) hs']
  | case3 w hd w₁ hs ih =>
    have hfront : (w'.step table).map front = .ok w₁.front := by
      rw [front_step h, hs]
      rfl
    obtain ⟨w₁', hs', hfront⟩ := exists_ok_of_map hfront
    rw [run_of_step_ok hd hs] at he
    rw [run_of_step_ok ((isDone_of_front h).trans hd) hs']
    exact ih hfront he

end Walk

/-- Which error a table has does not depend on the values that are drawn. -/
theorem resolve_eq_error {table : MacroTable} {s : Supply} {e : Error}
    (h : (resolve table s).1 = .error e) (s' : Supply) : (resolve table s').1 = .error e := by
  have hfront : (Walk.start table s').front = (Walk.start table s).front := rfl
  exact Walk.run_eq_error_of_front hfront h

/-! ### The invariant -/

theorem Frame.Sound.mono {table : MacroTable} {m m' : Expansions} {inner : List Text} {f : Frame}
    (h : f.Sound table m inner) (hm : ∀ d ∈ m.keys, d ∈ m'.keys) : f.Sound table m' inner := by
  obtain ⟨seen, hd, hs⟩ := h
  exact ⟨seen, hd, fun d hd => hm d (hs d hd)⟩

theorem Frame.Sound.resume {table : MacroTable} {m : Expansions} {d : Text} {f : Frame}
    (h : f.Sound table m [d]) (hm : d ∈ m.keys) : f.Sound table m [] := by
  obtain ⟨seen, hd, hs⟩ := h
  refine ⟨seen ++ [d], by simp [hd], fun d' hd' => ?_⟩
  rcases List.mem_append.1 hd' with hd' | hd'
  · exact hs d' hd'
  · rw [List.mem_singleton.1 hd']; exact hm

theorem Frame.Sound.next {table : MacroTable} {m : Expansions} {n d : Text} {ds : List Text}
    (h : Frame.Sound table m [] ⟨n, d :: ds⟩) : Frame.Sound table m [d] ⟨n, ds⟩ := by
  obtain ⟨seen, hd, hs⟩ := h
  exact ⟨seen, by simpa using hd, hs⟩

theorem StackSound.mono {table : MacroTable} {m m' : Expansions} (hm : ∀ d ∈ m.keys, d ∈ m'.keys) :
    ∀ {inner : List Text} {fs : List Frame},
      StackSound table m inner fs → StackSound table m' inner fs
  | _, [], _ => trivial
  | _, _ :: _, ⟨hf, hfs⟩ => ⟨hf.mono hm, hfs.mono hm⟩

theorem StackSound.resume {table : MacroTable} {m : Expansions} {d : Text} (hm : d ∈ m.keys) :
    ∀ {fs : List Frame}, StackSound table m [d] fs → StackSound table m [] fs
  | [], _ => trivial
  | _ :: _, ⟨hf, hfs⟩ => ⟨hf.resume hm, hfs⟩

theorem Frame.Sound.finished {table : MacroTable} {m : Expansions} {n : Text}
    (h : Frame.Sound table m [] ⟨n, []⟩) : ∀ d ∈ table.dependencies n, d ∈ m.keys := by
  obtain ⟨seen, hd, hs⟩ := h
  have hd' : table.dependencies n = seen := by simpa using hd
  rwa [hd']

theorem Frame.Sound.mem_dependencies {table : MacroTable} {m : Expansions} {inner : List Text}
    {n d : Text} {ds : List Text} (h : Frame.Sound table m inner ⟨n, d :: ds⟩) :
    d ∈ table.dependencies n := by
  obtain ⟨seen, hd, -⟩ := h
  have hd' : table.dependencies n = seen ++ inner ++ d :: ds := hd
  simp [hd']

namespace Walk

variable {table : MacroTable} {w w' : Walk}

theorem sound_start (table : MacroTable) (s : Supply) : (start table s).Sound table where
  names := by simp [start, Assoc.keys]
  stack := trivial
  settled := .nil
  entered := by simp [start]

theorem Sound.mem_keys (h : w.Sound table) {n : Text} :
    n ∈ table.keys ↔ n ∈ w.unmet ∨ n ∈ w.visiting.map Frame.name ∨ n ∈ w.finished.keys := by
  rw [← h.names.mem_iff, List.mem_append, List.mem_append, or_assoc]

theorem Sound.moves (ht : table.WellFormed) (h : w.Sound table) (hm : Moves table w w') :
    w'.Sound table := by
  cases hm with
  | @root n us m s hn =>
    refine ⟨?_, ⟨⟨[], by simp, by simp⟩, trivial⟩, h.settled, by simpa using hn⟩
    refine List.Perm.trans ?_ h.names
    simp
  | @descend us n d ds outer m s hd hself =>
    obtain ⟨hf, hfs⟩ := h.stack
    refine ⟨?_, ⟨⟨[], by simp, by simp⟩, hf.next, hfs⟩, h.settled, ?_⟩
    · refine List.Perm.trans ?_ h.names
      have hu : (d :: us.erase d).Perm us := (List.perm_cons_erase hd).symm
      simp only [List.map_cons, List.append_assoc, List.cons_append]
      exact List.perm_middle.trans (hu.append_right _)
    · intro f hf
      rcases List.mem_cons.1 hf with rfl | hf
      · exact hself
      rcases List.mem_cons.1 hf with rfl | hf
      · exact h.entered ⟨n, d :: ds⟩ (List.mem_cons_self ..)
      · exact h.entered f (List.mem_cons_of_mem _ hf)
  | @skip us n d ds outer m s hu hv =>
    obtain ⟨hf, hfs⟩ := h.stack
    -- a bound macro that is neither unmet nor being visited is finished
    have hk : d ∈ table.keys :=
      MacroTable.contains_iff.1 ((MacroTable.mem_dependencies_iff ht).1 hf.mem_dependencies).1
    have hm : d ∈ m.keys := by
      rcases h.mem_keys.1 hk with hk | hk | hk
      · exact absurd hk hu
      · exact absurd hk hv
      · exact hk
    refine ⟨by simpa using h.names, ⟨hf.next.resume hm, hfs⟩, h.settled, ?_⟩
    intro f hf
    rcases List.mem_cons.1 hf with rfl | hf
    · exact h.entered ⟨n, d :: ds⟩ (List.mem_cons_self ..)
    · exact h.entered f (List.mem_cons_of_mem _ hf)
  | @leave us n outer m s =>
    obtain ⟨hf, hfs⟩ := h.stack
    refine ⟨?_, ?_, .cons n s h.settled hf.finished, fun f hf => h.entered f (List.mem_cons_of_mem _ hf)⟩
    · refine List.Perm.trans ?_ h.names
      simp only [Walk.leave, Assoc.keys, List.map_cons, List.append_assoc, List.cons_append]
      exact List.Perm.append_left us List.perm_middle
    · set values := (valuesOf m ((table.entries? n).getD []) s).1
      have hm : ∀ d ∈ m.keys, d ∈ Assoc.keys ((n, values) :: m) := fun d hd => List.mem_cons_of_mem _ hd
      exact (hfs.mono hm).resume (List.mem_cons_self ..)

theorem Sound.reaches (ht : table.WellFormed) (h : w.Sound table)
    (hr : ReflTransGen (Moves table) w w') : w'.Sound table := by
  induction hr with
  | refl => exact h
  | tail _ hm ih => exact ih.moves ht hm

theorem Sound.keys_perm (h : w.Sound table) (hd : w.isDone = true) :
    w.finished.keys.Perm table.keys := by
  have hn := h.names
  simp only [isDone, Bool.and_eq_true, List.isEmpty_iff] at hd
  simpa [hd.1, hd.2] using hn

end Walk

/-- The outcome of resolving: all macros are settled, or the walk failed in a sound state. -/
theorem resolve_cases {table : MacroTable} (ht : table.WellFormed) (s : Supply) :
    (∃ m, (resolve table s).1 = .ok m ∧ Settled table m ∧ m.keys.Perm table.keys) ∨
      ∃ w e, w.Sound table ∧ Walk.Fails table w e ∧ (resolve table s).1 = .error e := by
  obtain ⟨w, hr, h⟩ := Walk.run_reaches table (Walk.start table s)
  have hw : w.Sound table := (Walk.sound_start table s).reaches ht hr
  rcases h with ⟨hd, h⟩ | ⟨e, he, h⟩
  · exact .inl ⟨w.finished, by rw [resolve, h], hw.settled, hw.keys_perm hd⟩
  · exact .inr ⟨w, e, hw, he, by rw [resolve, h]⟩

theorem settled_of_resolve {table : MacroTable} (ht : table.WellFormed) {s : Supply}
    {m : Expansions} (h : (resolve table s).1 = .ok m) :
    Settled table m ∧ m.keys.Perm table.keys := by
  rcases resolve_cases ht s with ⟨m', hm, hs⟩ | ⟨w, e, -, -, he⟩
  · rw [hm] at h; cases h
    exact hs
  · rw [he] at h; cases h

end Macros

end FormEdits
