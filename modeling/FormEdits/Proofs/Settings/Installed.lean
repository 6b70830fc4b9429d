import FormEdits.Proofs.Settings.Validation
import FormEdits.Settings.Shared
import Mathlib.Data.List.Induction

/-! # Which settings are installed

The installed settings are asked for in a row of calls, each with files and an environment of its
own. A call that fails before its settings are loaded leaves everything as it was. One whose
settings are loaded has installed them whether or not it fails, so what a later call returns is valid
exactly if the call that installed it returned (`Shared.calls_installed`). -/

namespace FormEdits

namespace Shared

/-- A call for the installed settings, which may ask for new ones. -/
structure Call where
  reloads : Bool
  path : Option Text
  files : FileReader
  environment : Environment

namespace Call

/-- The result of a call, and what it leaves behind. -/
def answer (c : Call) (shared : Shared) : Except Error Unit × Shared :=
  if c.reloads then shared.reload c.files c.environment c.path
  else shared.get c.files c.environment c.path

/-- The settings that a call loads to install them. -/
def loads? (c : Call) (shared : Shared) : Option Settings :=
  if c.reloads || shared.installed.isNone then (Settings.ofPath c.files c.path).toOption else none

end Call

/-- What calls leave behind, those that fail included. -/
def calls (shared : Shared) (cs : List Call) : Shared :=
  cs.foldl (fun shared c => (c.answer shared).2) shared

variable {shared after : Shared} {c : Call} {cs : List Call} {s : Settings} {e : Error}

theorem calls_concat : shared.calls (cs ++ [c]) = (c.answer (shared.calls cs)).2 := by
  simp [calls]

theorem calls_singleton : shared.calls [c] = (c.answer shared).2 := rfl

/-! ### One call -/

theorem answer_of_installed (hr : c.reloads = false) (hi : shared.installed = some s) :
    c.answer shared = (.ok (), ⟨s, some s, true⟩) := by
  simp [Call.answer, hr, get, hi]

theorem answer_eq_reload (h : c.reloads ∨ shared.installed = none) :
    c.answer shared = shared.reload c.files c.environment c.path := by
  unfold Call.answer
  split
  · rfl
  · rename_i hr
    rw [get, h.resolve_left hr]

theorem loads?_eq_none_of_installed (hr : c.reloads = false) (hi : shared.installed = some s) :
    c.loads? shared = none := by
  simp [Call.loads?, hr, hi]

theorem loads?_eq (h : c.reloads ∨ shared.installed = none) :
    c.loads? shared = (Settings.ofPath c.files c.path).toOption := by
  unfold Call.loads?
  rw [if_pos]
  rcases h with hr | hi
  · simp [hr]
  · simp [hi]

/-- How a call goes, by what it loads: its settings are found installed, cannot be loaded, or are
installed and then validated. -/
inductive Goes (c : Call) (shared : Shared) : Option Settings → Except Error Unit × Shared → Prop
  | found (s : Settings) (hi : shared.installed = some s) :
    Goes c shared none (.ok (), ⟨s, some s, true⟩)
  | notLoaded (e : Error) (he : Settings.ofPath c.files c.path = .error e) :
    Goes c shared none (.error e, shared)
  | invalid (s : Settings) (e : Error) (hv : s.validate c.environment = .error e) :
    Goes c shared (some s) (.error e, { shared with installed := some s, linked := false })
  | valid (s : Settings) (hv : s.validate c.environment = .ok ()) :
    Goes c shared (some s) (.ok (), ⟨s, some s, true⟩)

theorem goes (c : Call) (shared : Shared) : Goes c shared (c.loads? shared) (c.answer shared) := by
  by_cases h : c.reloads ∨ shared.installed = none
  · rw [answer_eq_reload h, loads?_eq h, reload]
    rcases hload : Settings.ofPath c.files c.path with e | s
    · exact .notLoaded e hload
    dsimp only
    rcases hvalid : s.validate c.environment with e | u
    · exact .invalid s e hvalid
    · exact .valid s hvalid
  · obtain ⟨hr, hi⟩ := not_or.1 h
    have hr : c.reloads = false := Bool.eq_false_iff.2 hr
    obtain ⟨s, hi⟩ := Option.ne_none_iff_exists'.1 hi
    rw [loads?_eq_none_of_installed hr hi, answer_of_installed hr hi]
    exact .found s hi

theorem installed_answer (c : Call) (shared : Shared) :
    (c.answer shared).2.installed = (c.loads? shared).or shared.installed := by
  have hgoes := goes c shared
  generalize c.loads? shared = loaded, c.answer shared = result at hgoes ⊢
  cases hgoes with
  | found s hi => exact hi.symm
  | notLoaded e he => rfl
  | invalid s e hv => rfl
  | valid s hv => rfl

theorem answer_of_loads (h : c.loads? shared = some s) :
    (c.answer shared).1 = s.validate c.environment := by
  have hgoes := goes c shared
  rw [h] at hgoes
  generalize c.answer shared = result at hgoes ⊢
  cases hgoes with
  | invalid _ e hv => exact hv.symm
  | valid _ hv => exact hv.symm

theorem answer_eq_error (h : c.answer shared = (.error e, after)) :
    Settings.ofPath c.files c.path = .error e ∧ after = shared ∨
      ∃ s, c.loads? shared = some s ∧ s.validate c.environment = .error e ∧
        after = { shared with installed := some s, linked := false } := by
  have hgoes := goes c shared
  rw [h] at hgoes
  generalize c.loads? shared = loaded at hgoes ⊢
  cases hgoes with
  | notLoaded _ he => exact .inl ⟨he, rfl⟩
  | invalid s _ hv => exact .inr ⟨s, rfl, hv, rfl⟩

theorem answer_eq_ok (h : c.answer shared = (.ok (), after)) :
    ∃ s, (c.loads? shared).or shared.installed = some s ∧ after = ⟨s, some s, true⟩ := by
  have hgoes := goes c shared
  rw [h] at hgoes
  generalize c.loads? shared = loaded at hgoes ⊢
  cases hgoes with
  | found s hi => exact ⟨s, hi, rfl⟩
  | valid s hv => exact ⟨s, rfl, rfl⟩

/-! ### Calls in a row -/

/-- A call installs settings, and no call of the rest installs any. -/
structure Last (before : List Call) (c : Call) (rest : List Call) (s : Settings) : Prop where
  loads : c.loads? (initial.calls before) = some s
  none_later : ∀ mid d later, rest = mid ++ d :: later →
    d.loads? (initial.calls (before ++ c :: mid)) = none

theorem Last.concat {before rest : List Call} {d : Call} (h : Last before c rest s)
    (hd : d.loads? (initial.calls (before ++ c :: rest)) = none) :
    Last before c (rest ++ [d]) s where
  loads := h.loads
  none_later mid d' later heq := by
    rcases List.eq_nil_or_concat later with rfl | ⟨later, d'', rfl⟩
    · -- the call is the new one
      obtain ⟨rfl, hd'⟩ := List.append_inj' heq rfl
      cases hd'
      exact hd
    · have heq : rest ++ [d] = (mid ++ d' :: later) ++ [d''] := by simpa using heq
      exact h.none_later mid d' later (List.append_inj' heq rfl).1

theorem exists_last (h : (initial.calls cs).installed = some s) :
    ∃ before c rest, cs = before ++ c :: rest ∧ Last before c rest s := by
  -- the last call either loads settings itself or leaves those of the calls before it
  induction cs using List.reverseRecOn with
  | nil => cases h
  | append_singleton cs d ih =>
    rw [calls_concat, installed_answer] at h
    rcases hd : d.loads? (initial.calls cs) with _ | s'
    · rw [hd] at h
      obtain ⟨before, c, rest, rfl, hlast⟩ := ih h
      exact ⟨before, c, rest ++ [d], by simp, hlast.concat hd⟩
    · rw [hd] at h
      cases h
      exact ⟨cs, d, [], rfl, hd, fun mid d' later heq => by simp at heq⟩

/-- A call that fails has changed nothing, or it has installed what it found invalid, and the next
call that does not reload returns that. What a call returns is from the last call that installed
anything, and valid in the environment of that call exactly if that call returned too. -/
theorem calls_installed (cs : List Call) (c : Call) :
    (∀ e after, c.answer (initial.calls cs) = (.error e, after) →
      Settings.ofPath c.files c.path = .error e ∧ after = initial.calls cs ∨
      ∃ s, c.loads? (initial.calls cs) = some s ∧ s.validate c.environment = .error e ∧
        after = { initial.calls cs with installed := some s, linked := false } ∧
        ∀ d : Call, d.reloads = false → d.answer after = (.ok (), ⟨s, some s, true⟩)) ∧
    ∀ after, c.answer (initial.calls cs) = (.ok (), after) →
      ∃ s, after = ⟨s, some s, true⟩ ∧ ∃ before d rest, cs ++ [c] = before ++ d :: rest ∧
        Last before d rest s ∧
        (d.answer (initial.calls before)).1 = s.validate d.environment := by
  refine ⟨fun e after h => ?_, fun after h => ?_⟩
  · rcases answer_eq_error h with hload | ⟨s, hl, hv, rfl⟩
    · exact .inl hload
    · exact .inr ⟨s, hl, hv, rfl, fun d hd => answer_of_installed hd rfl⟩
  · obtain ⟨s, hs, rfl⟩ := answer_eq_ok h
    have hinstalled : (initial.calls (cs ++ [c])).installed = some s := by
      rw [calls_concat, installed_answer, hs]
    obtain ⟨before, d, rest, hsplit, hlast⟩ := exists_last hinstalled
    exact ⟨s, rfl, before, d, rest, hsplit, hlast, answer_of_loads hlast.loads⟩

/-- Settings with an unknown level of logging are refused by the first call and returned by the
second. -/
theorem calls_installed_invalid : ∃ (c d : Call) (s : Settings),
    c.files "c.json" = .ok "\x7b\"app\":\x7b\"log_level\":\"chatty\"\x7d\x7d" ∧
    c.path = some "c.json" ∧ c.reloads = false ∧ d.path = none ∧ d.reloads = false ∧
    (c.answer initial).1 = .error (.configuration (.unknownLogLevel "CHATTY")) ∧
    initial.installed = none ∧ (initial.calls [c]).installed = some s ∧
    d.answer (initial.calls [c]) = (.ok (), ⟨s, some s, true⟩) ∧
    s.validate d.environment = .error (.configuration (.unknownLogLevel "CHATTY")) := by
  let document : Text := "\x7b\"app\":\x7b\"log_level\":\"chatty\"\x7d\x7d"
  let s : Settings := ⟨some "c.json", [("app", .mapping [(.text "log_level", .text "chatty")])]⟩
  let env : Environment := ⟨none, none, none⟩
  let c : Call := ⟨false, some "c.json", fun _ => .ok document, env⟩
  let d : Call := ⟨false, none, fun _ => .ok document, env⟩
  have hread : Json.read document =
      .ok (.mapping [(.text "app", .mapping [(.text "log_level", .text "chatty")])]) := by
    simp only [document, String.reduceToList]
    rfl
  have hpath : Path.simplify "c.json" = "c.json" := by decide +kernel
  have hblank : document.all isBlank = false := by decide +kernel
  have hload : Settings.ofPath c.files c.path = .ok s :=
    Settings.ofPath_mapping hpath rfl hblank hread (by simp) rfl
  have hlevel : s.logLevel env = .ok "CHATTY" := by
    have hupper : Text.upper "chatty" = "CHATTY" := by decide +kernel
    have happ : s.app env = .ok [("log_level", .text "chatty")] := rfl
    rw [← hupper]
    exact Settings.logLevel_of_app happ rfl
  have hvalid : s.validate env = .error (.configuration (.unknownLogLevel "CHATTY")) :=
    Settings.validate_eq_error_iff.2
      (.inr ⟨⟨[], rfl⟩, .inr ⟨_, hlevel, by decide +kernel, rfl⟩⟩)
  have hc : c.loads? initial = some s := by
    rw [loads?_eq (.inr rfl), hload]
    rfl
  have hi : (initial.calls [c]).installed = some s := by
    rw [calls_singleton, installed_answer, hc]
    rfl
  exact ⟨c, d, s, rfl, rfl, rfl, rfl, rfl, (answer_of_loads hc).trans hvalid, rfl, hi,
    answer_of_installed rfl hi, hvalid⟩

end Shared

end FormEdits
