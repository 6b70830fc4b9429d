import FormEdits.Error
import FormEdits.Macros.Expand

/-! # Resolving a macro table

The macros in the pending values of a table are replaced by their own values, depth first: a walk
visits each macro once, after all macros that it depends on, and computes its values when it leaves
it. A macro that refers to itself, or that is met again while it is being visited, is an error.
Each step of the walk lowers `Walk.work`, so every walk ends. -/

namespace FormEdits

namespace Macros

/-- A macro that is being visited, with the dependencies that are still to be looked at. -/
structure Frame where
  name : Text
  remaining : List Text
deriving DecidableEq, Repr

/-- The state of a walk through a table: the macros not met yet, in the order of the table, those
being visited, innermost first, and the values of those that are finished. -/
structure Walk where
  unmet : List Text
  visiting : List Frame
  finished : Expansions
  supply : Supply

/-- The sum of the values of a function on the members of a list. -/
def total {α : Type} (f : α → Nat) : List α → Nat
  | [] => 0
  | a :: as => f a + total f as

namespace Walk

def start (table : MacroTable) (s : Supply) : Walk := ⟨table.keys, [], [], s⟩

/-- What is left to do at most. Each macro is met once and left once, and each dependency is looked
at once. -/
def work (table : MacroTable) (w : Walk) : Nat :=
  total (fun n => (table.dependencies n).length + 2) w.unmet
    + total (fun f => f.remaining.length + 1) w.visiting

def enter (table : MacroTable) (name : Text) (w : Walk) : Except Error Walk :=
  let dependencies := table.dependencies name
  if name ∈ dependencies then .error (.selfReference name)
  else
    .ok { w with
      unmet := w.unmet.erase name
      visiting := ⟨name, dependencies⟩ :: w.visiting }

/-- The values of the entries of a macro, those of a pending entry being its expansions. -/
def valuesOf (finished : Expansions) : List MacroEntry → Supply → List MacroValue × Supply
  | [], s => ([], s)
  | e :: es, s =>
    match e.value, e.isPending with
    | .text t, true =>
      let (ts, s) := expand finished t s
      let (rest, s) := valuesOf finished es s
      (ts.map .text ++ rest, s)
    | v, _ =>
      let (rest, s) := valuesOf finished es s
      (v :: rest, s)

/-- Finishes a macro of which all dependencies are finished; `outer` are the macros visited around
it. -/
def leave (table : MacroTable) (name : Text) (outer : List Frame) (w : Walk) : Walk :=
  let (values, s) := valuesOf w.finished ((table.entries? name).getD []) w.supply
  { w with visiting := outer, finished := (name, values) :: w.finished, supply := s }

/-- The names on the way from a macro that is being visited to the innermost one, and back to it. -/
def cycleThrough (name : Text) (visiting : List Frame) : List Text :=
  [name] ++ ((visiting.map Frame.name).takeWhile (· != name)).reverse ++ [name]

/-- Looks at the next dependency of the innermost macro, leaves that macro if there is none, and
enters the next macro of the table if none is being visited. -/
def step (table : MacroTable) (w : Walk) : Except Error Walk :=
  match w.visiting with
  | [] =>
    match w.unmet with
    | [] => .ok w
    | n :: _ => w.enter table n
  | ⟨name, []⟩ :: outer => .ok (w.leave table name outer)
  | ⟨name, d :: ds⟩ :: outer =>
    let w' := { w with visiting := ⟨name, ds⟩ :: outer }
    if d ∈ w.unmet then w'.enter table d
    else if d ∈ w.visiting.map Frame.name then .error (.cycle (cycleThrough d w.visiting))
    else .ok w'

def isDone (w : Walk) : Bool := w.unmet.isEmpty && w.visiting.isEmpty

theorem total_erase (f : Text → Nat) {n : Text} :
    ∀ {ns : List Text}, n ∈ ns → total f (ns.erase n) + f n = total f ns
  | m :: ns, h => by
    by_cases hm : m = n
    · subst hm; simp [total, Nat.add_comm]
    · have h' : n ∈ ns := (List.mem_cons.mp h).resolve_left fun e => hm e.symm
      have ih := total_erase f h'
      simp only [List.erase_cons, beq_iff_eq, hm, if_false, total]
      omega

theorem work_enter {table : MacroTable} {name : Text} {w w' : Walk} (hm : name ∈ w.unmet)
    (h : w.enter table name = .ok w') : w'.work table + 1 = w.work table := by
  unfold enter at h
  dsimp only at h
  split at h
  · cases h
  · cases h
    have := total_erase (fun n => (table.dependencies n).length + 2) hm
    simp only [work, total]
    omega

theorem work_step {table : MacroTable} {w w' : Walk} (hd : w.isDone = false)
    (h : w.step table = .ok w') : w'.work table < w.work table := by
  unfold step at h
  split at h
  · split at h
    · simp_all [isDone]
    · rename_i hu
      have := work_enter (by simp [hu]) h
      omega
  · rename_i hv
    cases h
    simp [leave, work, hv, total]
  · rename_i name d ds outer hv
    have hw : work table { w with visiting := ⟨name, ds⟩ :: outer } + 1 = work table w := by
      simp only [work, hv, total, List.length_cons]
      omega
    dsimp only at h
    split at h
    · rename_i hm
      have := work_enter (w := ⟨w.unmet, ⟨name, ds⟩ :: outer, w.finished, w.supply⟩) hm h
      omega
    · split at h
      · cases h
      · cases h; omega

/-- Steps until every macro is finished or a step fails; values drawn before a failure are used
up. -/
def run (table : MacroTable) (w : Walk) : Except Error Expansions × Supply :=
  match _hd : w.isDone with
  | true => (.ok w.finished, w.supply)
  | false =>
    match _hs : w.step table with
    | .error e => (.error e, w.supply)
    | .ok w' => run table w'
termination_by w.work table
decreasing_by exact work_step ‹_› ‹_›

end Walk

/-- The values of each macro of a table after all references in them have been replaced. -/
def resolve (table : MacroTable) (s : Supply) : Except Error Expansions × Supply :=
  Walk.run table (Walk.start table s)

end Macros

end FormEdits
