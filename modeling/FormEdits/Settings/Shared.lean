import FormEdits.Settings.Basic

/-! # Shared settings

Beside the settings in use there may be settings installed for the whole program. They are loaded
when they are first asked for, and again on request; from then on both are the same settings, which
a later file replaces in both places. New settings are installed before they are validated. -/

namespace FormEdits

structure Shared where
  current : Settings
  installed : Option Settings
  linked : Bool

namespace Shared

/-- Settings that say nothing in use, and none installed. -/
def initial : Shared := ⟨.empty, none, false⟩

def use (shared : Shared) (s : Settings) : Shared := { shared with current := s, linked := false }

/-- Replaces the settings in use by those of a file. -/
def load (shared : Shared) (files : FileReader) (path : Text) : Except Error Shared :=
  (Settings.load files path).map fun s =>
    { shared with current := s, installed := if shared.linked then some s else shared.installed }

/-- Installs the settings of a file and puts them into use if they are valid. The second result says
what is left if an error ends this. -/
def reload (shared : Shared) (files : FileReader) (env : Environment) (path : Option Text) :
    Except Error Unit × Shared :=
  match Settings.ofPath files path with
  | .error e => (.error e, shared)
  | .ok s =>
    match s.validate env with
    | .error e => (.error e, { shared with installed := some s, linked := false })
    | .ok () => (.ok (), ⟨s, some s, true⟩)

/-- Puts the installed settings into use; without any, those of a file are installed first. -/
def get (shared : Shared) (files : FileReader) (env : Environment) (path : Option Text) :
    Except Error Unit × Shared :=
  match shared.installed with
  | some s => (.ok (), ⟨s, some s, true⟩)
  | none => shared.reload files env path

end Shared

end FormEdits
