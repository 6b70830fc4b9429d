import FormEdits.Proofs.Macros.Calls

/-! # What a walk visits

`Walk.states` are the states of a run. Between two of them, names come onto the stack of the macros
that are being visited, or leave it; `Walk.pushes` and `Walk.pops` list these names over a run. The
names that leave are the macros that are evaluated: `Walk.evaluate` evaluates macros one after
another, and a run does nothing else with the supply.

What is pushed is no longer unmet, so no name is pushed twice. When all is finished, each macro has
been pushed, popped and evaluated once, and the generators have been called once for each of its
entries, however many macros refer to it (`resolve_visits`). -/

namespace FormEdits

/-- The calls that an entry needs when the macros have these values. -/
def MacroEntry.calls (m : Expansions) (e : MacroEntry) : List Call :=
  match e.value, e.isPending with
  | .text t, true => Macros.calls (Macros.boundValues m (Macros.pieces t))
  | _, _ => []

/-- The entries of a macro; a name that is not bound has none. -/
def MacroTable.entriesOf (table : MacroTable) (n : Text) : List MacroEntry :=
  (table.entries? n).getD []

namespace Macros

namespace Walk

/-! ### The states of a run -/

/-- The names of the macros that are being visited, innermost first. -/
def stack (w : Walk) : List Text := w.visiting.map Frame.name

/-- The states of a run, from this one on. -/
def states (table : MacroTable) (w : Walk) : List Walk :=
  match _hd : w.isDone with
  | true => [w]
  | false =>
    match _hs : w.step table with
    | .error _ => [w]
    | .ok w' => w :: states table w'
termination_by w.work table
decreasing_by exact work_step ‹_› ‹_›

/-- The names that are on the stack of the second state and not on that of the first. -/
def pushed (w w' : Walk) : List Text := w'.stack.filter (!w.stack.contains ·)

/-- The names that are on the stack of the first state and not on that of the second. -/
def popped (w w' : Walk) : List Text := w.stack.filter (!w'.stack.contains ·)

/-- The names that come onto the stack from one state to the next. -/
def pushes : List Walk → List Text
  | w :: w' :: ws => pushed w w' ++ pushes (w' :: ws)
  | _ => []

/-- The names that leave the stack from one state to the next. -/
def pops : List Walk → List Text
  | w :: w' :: ws => popped w w' ++ pops (w' :: ws)
  | _ => []

/-- Evaluates macros in turn, each with the values of those before it. -/
def evaluate (table : MacroTable) : List Text → Expansions → Supply → Expansions × Supply
  | [], m, s => (m, s)
  | n :: ns, m, s =>
    let (values, s) := valuesOf m (table.entriesOf n) s
    evaluate table ns ((n, values) :: m) s

section

variable {table : MacroTable} {w w' : Walk}

theorem states_of_isDone (hd : w.isDone = true) : states table w = [w] := by
  rw [states]
  split
  · rfl
  · rename_i hd'
    rw [hd] at hd'
    cases hd'

theorem states_of_step_error {e : Error} (hs : w.step table = .error e) : states table w = [w] := by
  rw [states]
  split
  · rfl
  · split
    · rfl
    · simp_all

theorem states_of_step_ok (hd : w.isDone = false) (hs : w.step table = .ok w') :
    states table w = w :: states table w' := by
  rw [states]
  split
  · simp_all
  · split
    · simp_all
    · simp_all

theorem exists_states_eq_cons (table : MacroTable) (w : Walk) :
    ∃ ws, states table w = w :: ws := by
  rw [states]
  split
  · exact ⟨[], rfl⟩
  · split
    · exact ⟨[], rfl⟩
    · exact ⟨_, rfl⟩

theorem pushes_cons_states :
    pushes (w :: states table w') = pushed w w' ++ pushes (states table w') := by
  obtain ⟨ws, hws⟩ := exists_states_eq_cons table w'
  rw [hws]
  rfl

theorem pops_cons_states :
    pops (w :: states table w') = popped w w' ++ pops (states table w') := by
  obtain ⟨ws, hws⟩ := exists_states_eq_cons table w'
  rw [hws]
  rfl

theorem isChain_states (table : MacroTable) (w : Walk) :
    (states table w).IsChain fun w w' => w.isDone = false ∧ w.step table = .ok w' := by
  induction w using run.induct table with
  | case1 w hd => rw [states_of_isDone hd]; exact .singleton _
  | case2 w hd e hs => rw [states_of_step_error hs]; exact .singleton _
  | case3 w hd w' hs ih =>
    rw [states_of_step_ok hd hs]
    obtain ⟨ws, hws⟩ := exists_states_eq_cons table w'
    rw [hws] at ih ⊢
    exact List.isChain_cons_cons.2 ⟨⟨hd, hs⟩, ih⟩

theorem length_states_le (table : MacroTable) (w : Walk) :
    (states table w).length ≤ w.work table + 1 := by
  induction w using run.induct table with
  | case1 w hd => rw [states_of_isDone hd]; exact Nat.le_add_left ..
  | case2 w hd e hs => rw [states_of_step_error hs]; exact Nat.le_add_left ..
  | case3 w hd w' hs ih =>
    rw [states_of_step_ok hd hs, List.length_cons]
    have hwork := work_step hd hs
    omega

theorem exists_last_states (table : MacroTable) (w : Walk) :
    ∃ l, (states table w).getLast? = some l ∧
      ((l.isDone = true ∧ run table w = (.ok l.finished, l.supply)) ∨
        ∃ e, l.step table = .error e ∧ run table w = (.error e, l.supply)) := by
  induction w using run.induct table with
  | case1 w hd =>
    rw [states_of_isDone hd]
    exact ⟨w, rfl, .inl ⟨hd, run_of_isDone hd⟩⟩
  | case2 w hd e hs =>
    rw [states_of_step_error hs]
    exact ⟨w, rfl, .inr ⟨e, hs, run_of_step_error hd hs⟩⟩
  | case3 w hd w' hs ih =>
    obtain ⟨l, hl, hrun⟩ := ih
    rw [states_of_step_ok hd hs, run_of_step_ok hd hs]
    exact ⟨l, by rw [List.getLast?_cons, hl, Option.getD_some], hrun⟩

theorem Sound.states (ht : table.WellFormed) (h : w.Sound table) :
    ∀ w' ∈ Walk.states table w, w'.Sound table := by
  induction w using run.induct table with
  | case1 w hd =>
    rw [states_of_isDone hd]
    exact List.forall_mem_singleton.2 h
  | case2 w hd e hs =>
    rw [states_of_step_error hs]
    exact List.forall_mem_singleton.2 h
  | case3 w hd w' hs ih =>
    rw [states_of_step_ok hd hs]
    exact List.forall_mem_cons.2 ⟨h, ih (h.moves ht (moves_of_step hd hs))⟩

/-! ### One step -/

theorem pushed_of_stack_eq (h : w'.stack = w.stack) : pushed w w' = [] := by
  rw [pushed, h]
  exact List.filter_eq_nil_iff.2 fun n hn => by simpa using hn

theorem pushed_of_stack_eq_tail {n : Text} (h : w.stack = n :: w'.stack) : pushed w w' = [] := by
  rw [pushed, h]
  exact List.filter_eq_nil_iff.2 fun n' hn => by simp [hn]

theorem pushed_of_stack_eq_cons {n : Text} (h : w'.stack = n :: w.stack) (hn : n ∉ w.stack) :
    pushed w w' = [n] := by
  have hrest : w.stack.filter (!w.stack.contains ·) = [] :=
    List.filter_eq_nil_iff.2 fun n' hn' => by simpa using hn'
  rw [pushed, h, List.filter_cons_of_pos (by simpa using hn), hrest]

theorem popped_eq_pushed : popped w w' = pushed w' w := rfl

theorem Sound.nodup_stack (ht : table.WellFormed) (h : w.Sound table) : w.stack.Nodup :=
  h.nodup_visiting ht

/-- What is being visited is not unmet any more, and not finished yet. -/
theorem Sound.disjoint (ht : table.WellFormed) (h : w.Sound table) {n : Text} (hn : n ∈ w.stack) :
    n ∉ w.unmet ∧ n ∉ w.finished.keys := by
  have hnodup := List.nodup_append.1 (h.names.symm.nodup ht.nodup)
  have hfront := List.nodup_append.1 hnodup.1
  refine ⟨fun hu => hfront.2.2 n hu n hn rfl, fun hf => ?_⟩
  exact hnodup.2.2 n (List.mem_append_right _ hn) n hf rfl

/-- What a step pushes was unmet before it, and is the only name that is not unmet any more. It
evaluates what it pops. -/
theorem Sound.accounts (ht : table.WellFormed) (h : w.Sound table) (hm : Moves table w w') :
    (pushed w w' ++ w'.unmet).Perm w.unmet ∧
      evaluate table (popped w w') w.finished w.supply = (w'.finished, w'.supply) := by
  have hdisjoint : ∀ n ∈ w.unmet, n ∉ w.stack := fun n hu hn => (h.disjoint ht hn).1 hu
  rw [popped_eq_pushed]
  cases hm with
  | @root n us m s hn =>
    rw [pushed_of_stack_eq_cons (n := n) rfl (hdisjoint n (List.mem_cons_self ..)),
      pushed_of_stack_eq_tail (n := n) rfl]
    exact ⟨.refl _, rfl⟩
  | @descend us n d ds outer m s hd hself =>
    rw [pushed_of_stack_eq_cons (n := d) rfl (hdisjoint d hd), pushed_of_stack_eq_tail (n := d) rfl]
    exact ⟨(List.perm_cons_erase hd).symm, rfl⟩
  | @skip us n d ds outer m s hu hv =>
    have hstack : Walk.stack ⟨us, ⟨n, ds⟩ :: outer, m, s⟩ =
      Walk.stack ⟨us, ⟨n, d :: ds⟩ :: outer, m, s⟩ := rfl
    rw [pushed_of_stack_eq hstack, pushed_of_stack_eq hstack.symm]
    exact ⟨.refl _, rfl⟩
  | @leave us n outer m s =>
    have hstack : Walk.stack ⟨us, ⟨n, []⟩ :: outer, m, s⟩ =
      n :: (leave table n outer ⟨us, ⟨n, []⟩ :: outer, m, s⟩).stack := rfl
    have hn := (List.nodup_cons.1 (hstack ▸ h.nodup_stack ht)).1
    rw [pushed_of_stack_eq_tail hstack, pushed_of_stack_eq_cons hstack hn]
    exact ⟨.refl _, rfl⟩

/-! ### Runs -/

theorem evaluate_append (ns ns' : List Text) (m : Expansions) (s : Supply) :
    evaluate table (ns ++ ns') m s =
      evaluate table ns' (evaluate table ns m s).1 (evaluate table ns m s).2 := by
  induction ns generalizing m s with
  | nil => rfl
  | cons n ns ih => exact ih ..

theorem keys_evaluate (ns : List Text) (m : Expansions) (s : Supply) :
    (evaluate table ns m s).1.keys = ns.reverse ++ m.keys := by
  induction ns generalizing m s with
  | nil => rfl
  | cons n ns ih =>
    rw [evaluate, ih, List.reverse_cons, List.append_assoc]
    rfl

/-- A run pushes what was unmet and is not any more at its end, and evaluates what it pops. -/
theorem Sound.accounts_states (ht : table.WellFormed) (h : w.Sound table) {l : Walk}
    (hl : (Walk.states table w).getLast? = some l) :
    (pushes (Walk.states table w) ++ l.unmet).Perm w.unmet ∧
      evaluate table (pops (Walk.states table w)) w.finished w.supply = (l.finished, l.supply) := by
  induction w using run.induct table with
  | case1 w hd =>
    rw [states_of_isDone hd] at hl ⊢
    cases hl
    exact ⟨.refl _, rfl⟩
  | case2 w hd e hs =>
    rw [states_of_step_error hs] at hl ⊢
    cases hl
    exact ⟨.refl _, rfl⟩
  | case3 w hd w' hs ih =>
    have hm := moves_of_step hd hs
    obtain ⟨ws, hws⟩ := exists_states_eq_cons table w'
    rw [states_of_step_ok hd hs] at hl ⊢
    have hl' : (Walk.states table w').getLast? = some l := by
      rw [hws] at hl ⊢
      rwa [List.getLast?_cons_cons] at hl
    obtain ⟨hpush, hpop⟩ := h.accounts ht hm
    obtain ⟨hpushes, hpops⟩ := ih (h.moves ht hm) hl'
    rw [pushes_cons_states, pops_cons_states, evaluate_append, hpop, List.append_assoc]
    exact ⟨(hpushes.append_left _).trans hpush, hpops⟩

end

end Walk

/-! ### Evaluations -/

section

variable {table : MacroTable} {m m' : Expansions} {n : Text}

theorem Settled.finished_before (h : Settled table m) {after before : List Text}
    (hk : m.keys = after ++ n :: before) : ∀ d ∈ table.dependencies n, d ∈ before := by
  induction h generalizing after with
  | nil => cases after <;> cases hk
  | @cons m n' s _ hd ih =>
    rcases after with _ | ⟨a, after⟩
    · obtain ⟨rfl, rfl⟩ := List.cons.inj hk
      exact hd
    · exact ih (List.cons.inj hk).2

theorem supply_valuesOf (m : Expansions) (es : List MacroEntry) (s : Supply) :
    (Walk.valuesOf m es s).2 = (drawAll (es.flatMap (MacroEntry.calls m)) s).2 := by
  induction es generalizing s with
  | nil => rfl
  | cons e es ih =>
    obtain ⟨value, references⟩ := e
    rw [List.flatMap_cons, drawAll_append]
    match value, references with
    | .text t, n :: ns =>
      rw [Walk.valuesOf_cons_of_pending rfl rfl, ih, expand_eq]
      rfl
    | .text t, [] | .generated g, _ => exact ih s

/-- Evaluating macros calls the generators once for each of their entries, if these need the same
calls with the values so far as with those of `m`. -/
theorem supply_evaluate {ns : List Text} {m₀ : Expansions} {s : Supply}
    (h : ∀ before n after, ns = before ++ n :: after → ∀ e ∈ table.entriesOf n,
      e.calls (Walk.evaluate table before m₀ s).1 = e.calls m) :
    (Walk.evaluate table ns m₀ s).2 =
      (drawAll (ns.flatMap fun n => (table.entriesOf n).flatMap (MacroEntry.calls m)) s).2 := by
  induction ns generalizing m₀ s with
  | nil => rfl
  | cons n ns ih =>
    have hhere : (table.entriesOf n).flatMap (MacroEntry.calls m₀) =
        (table.entriesOf n).flatMap (MacroEntry.calls m) :=
      List.flatMap_congr fun e he => h [] n ns rfl e he
    rw [Walk.evaluate, List.flatMap_cons, drawAll_append, ← hhere, ← supply_valuesOf]
    refine ih fun before n' after hns e he => ?_
    exact h (n :: before) n' after (by rw [hns]; rfl) e he

theorem find?_evaluate {ns : List Text} {x : Text} (hx : x ∉ ns) (m : Expansions) (s : Supply) :
    Assoc.find? (Walk.evaluate table ns m s).1 x = m.find? x := by
  induction ns generalizing m s with
  | nil => rfl
  | cons n ns ih =>
    obtain ⟨hne, hx⟩ := not_or.1 (mt List.mem_cons.2 hx)
    rw [Walk.evaluate, ih hx, Assoc.find?_cons_of_ne hne]

theorem boundValues_congr {ps : List Piece}
    (h : ∀ p ∈ ps, ∀ x, p.name? = some x → m'.find? x = m.find? x) :
    boundValues m' ps = boundValues m ps := by
  have hnames : ∀ x ∈ ps.filterMap Piece.name?, m'.find? x = m.find? x := by
    intro x hx
    obtain ⟨p, hp, hpx⟩ := List.mem_filterMap.1 hx
    exact h p hp x hpx
  have hbound : boundNames m' ps = boundNames m ps :=
    List.filter_congr fun x hx => by rw [hnames x hx]
  rw [boundValues, boundValues, hbound]
  exact List.map_congr_left fun x hx => by rw [hnames x (List.mem_filter.1 hx).1]

theorem calls_congr {e : MacroEntry}
    (h : ∀ t, e.value = .text t → e.isPending → ∀ x ∈ names t, m'.find? x = m.find? x) :
    e.calls m' = e.calls m := by
  unfold MacroEntry.calls
  split
  · rename_i t hv hp
    rw [boundValues_congr fun p hp' x hx => h t hv hp x (mem_names.2 ⟨p, hp', hx⟩)]
  · rfl

section

variable {l : Walk} {ns : List Text} {s : Supply}

theorem Walk.keys_finished (he : Walk.evaluate table ns [] s = (l.finished, l.supply)) :
    l.finished.keys = ns.reverse := by
  have hkeys : (Walk.evaluate table ns [] s).1.keys = ns.reverse ++ [] := Walk.keys_evaluate ns [] s
  rw [he] at hkeys
  exact hkeys.trans (List.append_nil _)

/-- Macros are evaluated after their dependencies. -/
theorem Walk.Sound.evaluated_before (h : l.Sound table)
    (he : Walk.evaluate table ns [] s = (l.finished, l.supply)) {before after : List Text}
    (hsplit : ns = before ++ n :: after) : ∀ d ∈ table.dependencies n, d ∈ before := by
  have hkeys := Walk.keys_finished he
  rw [hsplit, List.reverse_append, List.reverse_cons, List.append_assoc] at hkeys
  exact fun d hd => List.mem_reverse.1 (h.settled.finished_before hkeys d hd)

/-- In the end every macro has been evaluated once. -/
theorem Walk.Sound.evaluated_perm (h : l.Sound table) (hd : l.isDone = true)
    (he : Walk.evaluate table ns [] s = (l.finished, l.supply)) : ns.Perm table.keys := by
  have hperm := h.keys_perm hd
  rw [Walk.keys_finished he] at hperm
  exact (List.reverse_perm ns).symm.trans hperm

/-- When a macro is evaluated, the macros that it refers to have their final values. -/
theorem Walk.Sound.calls_eq (ht : table.WellFormed) (h : l.Sound table) (hd : l.isDone = true)
    (he : Walk.evaluate table ns [] s = (l.finished, l.supply)) {before after : List Text}
    (hsplit : ns = before ++ n :: after) {e : MacroEntry} (hmem : e ∈ table.entriesOf n) :
    e.calls (Walk.evaluate table before [] s).1 = e.calls l.finished := by
  have hperm := h.evaluated_perm hd he
  have hfinal : l.finished = (Walk.evaluate table ns [] s).1 := by rw [he]
  refine calls_congr fun t hv hp x hx => ?_
  have hnodup : (before ++ n :: after).Nodup := hsplit ▸ hperm.symm.nodup ht.nodup
  by_cases hxb : x ∈ before
  · have hlater : x ∉ n :: after := fun hxa => (List.nodup_append.1 hnodup).2.2 x hxb x hxa rfl
    rw [hfinal, hsplit, Walk.evaluate_append, find?_evaluate hlater]
  · -- a name that is not finished by now is not bound at all
    have hxns : x ∉ ns := fun hxns => by
      have hbound : table.contains x := MacroTable.contains_iff.2 (hperm.mem_iff.1 hxns)
      have hrefers : table.RefersTo n x := ⟨hbound, e, hmem, hp, t, hv, hx⟩
      exact hxb (h.evaluated_before he hsplit x ((MacroTable.mem_dependencies_iff ht).2 hrefers))
    rw [hfinal, find?_evaluate hxb, find?_evaluate hxns]

theorem Walk.Sound.supply_eq (ht : table.WellFormed) (h : l.Sound table) (hd : l.isDone = true)
    (he : Walk.evaluate table ns [] s = (l.finished, l.supply)) :
    l.supply = (drawAll (ns.flatMap fun n =>
      (table.entriesOf n).flatMap (MacroEntry.calls l.finished)) s).2 := by
  have hcalls : (Walk.evaluate table ns [] s).2 = (drawAll (ns.flatMap fun n =>
      (table.entriesOf n).flatMap (MacroEntry.calls l.finished)) s).2 :=
    supply_evaluate fun before n after hsplit e hmem => h.calls_eq ht hd he hsplit hmem
  rwa [he] at hcalls

end

theorem Walk.Sound.isChain_stack {w : Walk} (ht : table.WellFormed) (h : w.Sound table) :
    w.stack.IsChain fun d n => table.RefersTo n d := by
  obtain ⟨us, vs, m, s⟩ := w
  match vs with
  | [] => exact .nil
  | f :: outer =>
    obtain ⟨-, hstack⟩ := h.stack
    exact hstack.isChain.imp fun d n hd => (MacroTable.mem_dependencies_iff ht).1 hd

end

/-- A run of the walk ends after at most so many steps as there are macros to be pushed and popped
and dependencies to be looked at, and resolving gives what it ends with. At every step the names on
the stack are distinct, bound and not finished, and each refers to the one inside it. No name is
pushed twice. If resolving succeeds, every bound name is pushed and popped once, after all names
that it refers to; the values of the macros and the supply that is left are those of evaluating the
popped names in turn; so the generators are called once for each entry of each macro. -/
theorem resolve_visits (ds : List (Text × List Text × Bool)) (s : Supply) :
    let table := MacroTable.ofDeclarations ds
    let ws := Walk.states table (Walk.start table s)
    (ws.head? = some (Walk.start table s) ∧
      ws.IsChain (fun w w' => w.isDone = false ∧ w.step table = .ok w') ∧
      ws.length ≤ total (fun n => (table.dependencies n).length + 2) table.keys + 1 ∧
      ∃ l, ws.getLast? = some l ∧
        ((l.isDone = true ∧ resolve table s = (.ok l.finished, l.supply)) ∨
          ∃ e, l.step table = .error e ∧ resolve table s = (.error e, l.supply))) ∧
    (∀ w ∈ ws, w.stack.Nodup ∧ (∀ n ∈ w.stack, table.contains n ∧ n ∉ w.finished.keys) ∧
      w.stack.IsChain fun d n => table.RefersTo n d) ∧
    (Walk.pushes ws).Nodup ∧
    ∀ m s', resolve table s = (.ok m, s') →
      (Walk.pushes ws).Perm table.keys ∧ (Walk.pops ws).Perm table.keys ∧
      (∀ before n after, Walk.pops ws = before ++ n :: after →
        ∀ d, table.RefersTo n d → d ∈ before) ∧
      Walk.evaluate table (Walk.pops ws) [] s = (m, s') ∧
      s' = (drawAll ((Walk.pops ws).flatMap fun n =>
        (table.entriesOf n).flatMap (MacroEntry.calls m)) s).2 := by
  intro table ws
  have ht : table.WellFormed := MacroTable.wellFormed_ofDeclarations ds
  have hstart := Walk.sound_start table s
  have hsound : ∀ w ∈ ws, w.Sound table := hstart.states ht
  obtain ⟨l, hl, hrun⟩ := Walk.exists_last_states table (Walk.start table s)
  obtain ⟨hpushes, hpops⟩ := hstart.accounts_states ht hl
  have hpushed : (Walk.pushes ws).Nodup :=
    (List.nodup_append.1 (hpushes.symm.nodup ht.nodup)).1
  refine ⟨⟨?_, Walk.isChain_states table _, Walk.length_states_le table _, l, hl, hrun⟩,
    fun w hw => ⟨(hsound w hw).nodup_stack ht, fun n hn => ⟨?_, ?_⟩, (hsound w hw).isChain_stack ht⟩,
    hpushed, fun m s' hres => ?_⟩
  · obtain ⟨rest, hrest⟩ := Walk.exists_states_eq_cons table (Walk.start table s)
    exact congrArg List.head? hrest
  · exact MacroTable.contains_iff.2 ((hsound w hw).mem_keys.2 (.inr (.inl hn)))
  · exact ((hsound w hw).disjoint ht hn).2
  rw [resolve] at hres
  rcases hrun with ⟨hdone, hrun⟩ | ⟨e, -, hrun⟩
  · obtain ⟨rfl, rfl⟩ : l.finished = m ∧ l.supply = s' := by
      rw [hrun] at hres
      cases hres
      exact ⟨rfl, rfl⟩
    have hlast : l.Sound table := hsound l (List.mem_of_getLast? hl)
    have hunmet : l.unmet = [] := List.isEmpty_iff.1 (Bool.and_eq_true_iff.1 hdone).1
    rw [hunmet, List.append_nil] at hpushes
    refine ⟨hpushes, hlast.evaluated_perm hdone hpops, fun before n after hsplit d hr => ?_, hpops,
      hlast.supply_eq ht hdone hpops⟩
    exact hlast.evaluated_before hpops hsplit d ((MacroTable.mem_dependencies_iff ht).2 hr)
  · rw [hrun] at hres
    cases hres

/-- A macro that captures a generated value, and two that refer to it. -/
def capturedOnce : MacroTable :=
  .ofDeclarations [("a", ["$b", "$id"], true), ("b", ["<$id>"], true), ("id", ["$NEW_UUID"], true)]

/-- It is evaluated once, before both of them. -/
example : (Walk.pops (Walk.states capturedOnce (.start capturedOnce (.fresh id id)))).drop 4 =
    (["id", "b", "a"] : List Text) := by
  decide +kernel

end Macros

end FormEdits
