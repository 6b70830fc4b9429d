import FormEdits.Command.Run
import FormEdits.Proofs.Settings.Layers
import FormEdits.Proofs.Settings.Validation

/-! # What the arguments override

Arguments with a subject, a graph and a level of logging replace what the environment and the file
say about these. Two runs whose settings differ in nothing else end in the same way, but for their
replaced levels, which are validated first: a run with an unknown one ends there
(`Command.run_overrides`). -/

namespace FormEdits

/-! ### Settings that differ in what is replaced -/

namespace Settings

/-- Two settings whose sections have the same entries, except for those that are replaced. -/
structure SameBesides (s s' : Settings) : Prop where
  processor : ∃ sec sec', s.section? "processor" = .ok sec ∧ s'.section? "processor" = .ok sec' ∧
    ∀ name : Text, name ≠ "subject" → name ≠ "graph" → sec.find? name = sec'.find? name
  app : ∃ sec sec', s.section? "app" = .ok sec ∧ s'.section? "app" = .ok sec' ∧
    ∀ name : Text, name ≠ "log_level" → sec.find? name = sec'.find? name

/-- The level that the environment or the settings give is one that there is. -/
def HasLevel (s : Settings) (env : Environment) : Prop :=
  ∃ level ∈ logLevels, s.logLevel env = .ok level

variable {s s' : Settings} {env env' : Environment} {sec : Section}

theorem SameBesides.prefixes_eq (h : s.SameBesides s') (hs : s.IsUnambiguous)
    (hs' : s'.IsUnambiguous) : s.prefixes env = s'.prefixes env' := by
  obtain ⟨sec, sec', hsec, hsec', hsame⟩ := h.processor
  exact prefixes_congr hsec (nodup_section? hs hsec) hsec' (nodup_section? hs' hsec')
    (hsame _ (by decide) (by decide))

theorem exists_unknown (h : s.section? "app" = .ok sec) (hl : ¬ s.HasLevel env) :
    ∃ level, s.logLevel env = .ok level ∧ level ∉ logLevels := by
  rcases hlevel : s.logLevel env with e | level
  · rw [section?_eq_error_iff.2 (logLevel_eq_error_iff.1 hlevel)] at h
    cases h
  · exact ⟨level, rfl, fun hmem => hl ⟨level, hmem, hlevel⟩⟩

theorem validate_of_hasLevel (h : s.HasLevel env) :
    s.validate env = (s.prefixes env).map fun _ => () := by
  obtain ⟨level, hmem, hlevel⟩ := h
  rcases hp : s.prefixes env with e | p
  · exact validate_eq_error_iff.2 (.inl hp)
  · exact validate_eq_ok_iff.2 ⟨⟨p, hp⟩, level, hmem, hlevel⟩

end Settings

/-! ### Runs -/

/-- The arguments give a subject, a graph and a level of logging that there is. -/
structure Arguments.Override (a : Arguments) : Prop where
  subject : ∃ t, a.subject = some t ∧ t ≠ []
  graph : ∃ t, a.graph = some t ∧ t ≠ []
  level : ∃ t, a.logLevel = some t ∧ Text.upper t ∈ Settings.logLevels

/-- An ending without what goes to the standard error. -/
def Ending.withoutErrors : Ending → Ending
  | .exit code output _ => .exit code output []
  | .failure e => .failure e

/-- The ending is that of a run without a fault. -/
def Ending.returns : Ending → Bool
  | .exit code _ errors => code = 0 ∧ errors = []
  | .failure _ => false

namespace Command

variable {a : Arguments} {w w' : Surroundings} {s s' : Settings} {supply : Supply} {e : Error}

theorem form_of_encoded {t : Text} (h : a.form = some t) :
    form a w = .ok (.ofFields (Encoded.read t)) := by
  rw [form, h]

theorem perform_congr (hs : session a w = session a w') (hf : form a w = form a w') :
    perform a w supply = perform a w' supply := by
  rw [perform, perform, edits, edits, hs, hf]

theorem perform_of_invalid (hs : Settings.ofPath w.files a.config = .ok s)
    (h : s.validate w.environment = .error e) : perform a w supply = ending e := by
  have hsession : session a w = .error e := by
    rw [session, hs]
    show (s.validate w.environment >>= fun _ => _) = _
    rw [h]
    rfl
  rw [perform, edits, hsession]
  rfl

theorem checkLogLevel_of_known {t : Text} (ht : a.logLevel = some t)
    (hl : Text.upper t ∈ Settings.logLevels) : checkLogLevel a = .ok () := by
  unfold checkLogLevel
  rw [ht]
  cases t with
  | nil => rfl
  | cons c r => simp [Option.filter, hl]

/-- Behind validation, only the prefixes of the settings make a difference. -/
theorem session_eq {subject graph : Text} {sec : Section} (hsubject : a.subject = some subject)
    (hsne : subject ≠ []) (hgraph : a.graph = some graph) (hgne : graph ≠ [])
    (hlevel : checkLogLevel a = .ok ()) (hs : Settings.ofPath w.files a.config = .ok s)
    (hsec : s.section? "processor" = .ok sec) :
    session a w = (do
      s.validate w.environment
      let known ← s.prefixes w.environment
      let more ← prefixOptions a.prefixes
      .ok ⟨Settings.resource subject, some (Settings.resource graph),
        Prefixes.default.overlay (known.overlay more), none⟩) := by
  have hn : sec.keys.Nodup := Settings.nodup_section? (Settings.isUnambiguous_ofPath _ _ s hs) hsec
  simp only [session, hs, hlevel, hsubject, hgraph, bind, Except.bind]
  rcases s.validate w.environment with e | u
  · rfl
  rcases hknown : s.prefixes w.environment with e | known
  · rfl
  rcases prefixOptions a.prefixes with e | more
  · rfl
  have hp : (known.overlay more).keys.Nodup :=
    Assoc.nodup_keys_overlay more (Settings.nodup_prefixes hknown)
  obtain ⟨c, r, rfl⟩ := List.exists_cons_of_ne_nil hsne
  obtain ⟨c', r', rfl⟩ := List.exists_cons_of_ne_nil hgne
  exact Settings.session_layers hsec hn hp (some (c :: r)) (some (c' :: r'))

theorem session_congr (ha : a.Override) (hs : Settings.ofPath w.files a.config = .ok s)
    (hs' : Settings.ofPath w'.files a.config = .ok s') (hsame : s.SameBesides s')
    (hl : s.HasLevel w.environment) (hl' : s'.HasLevel w'.environment) :
    session a w = session a w' := by
  obtain ⟨subject, hsubject, hsne⟩ := ha.subject
  obtain ⟨graph, hgraph, hgne⟩ := ha.graph
  obtain ⟨t, ht, hknown⟩ := ha.level
  obtain ⟨sec, sec', hsec, hsec', -⟩ := hsame.processor
  have hlevel := checkLogLevel_of_known ht hknown
  have hprefixes : s.prefixes w.environment = s'.prefixes w'.environment :=
    hsame.prefixes_eq (Settings.isUnambiguous_ofPath _ _ s hs)
      (Settings.isUnambiguous_ofPath _ _ s' hs')
  rw [session_eq hsubject hsne hgraph hgne hlevel hs hsec,
    session_eq hsubject hsne hgraph hgne hlevel hs' hsec', Settings.validate_of_hasLevel hl,
    Settings.validate_of_hasLevel hl', hprefixes]

theorem perform_of_unknown {p : Prefixes} {level : Text}
    (hs : Settings.ofPath w.files a.config = .ok s) (hp : s.prefixes w.environment = .ok p)
    (hl : s.logLevel w.environment = .ok level) (hunknown : level ∉ Settings.logLevels) :
    perform a w supply = .exit 1 [] ("Error: " ++ ("Invalid log level: " ++ level) ++ "\n") := by
  have hinvalid : s.validate w.environment = .error (.configuration (.unknownLogLevel level)) :=
    Settings.validate_eq_error_iff.2 (.inr ⟨⟨p, hp⟩, .inr ⟨level, hl, hunknown, rfl⟩⟩)
  exact perform_of_invalid hs hinvalid

/-- Two runs with the same form, whose settings differ at most in what the arguments replace, end in
the same way if the replaced levels are known. If neither is, they differ in the message alone. A
run with an unknown level ends there, whatever the arguments give, unless its prefixes are refused
before. -/
theorem run_overrides {arguments : List Text} (hr : Arguments.read arguments = .ok (.run a))
    (ha : a.Override) (hs : Settings.ofPath w.files a.config = .ok s)
    (hs' : Settings.ofPath w'.files a.config = .ok s') (hsame : s.SameBesides s')
    (hform : form a w = form a w') (supply : Supply) :
    (s.HasLevel w.environment → s'.HasLevel w'.environment →
      run arguments w supply = run arguments w' supply) ∧
    ((s.HasLevel w.environment ↔ s'.HasLevel w'.environment) →
      (run arguments w supply).withoutErrors = (run arguments w' supply).withoutErrors) ∧
    (∀ e, s.prefixes w.environment = .error e →
      run arguments w supply = run arguments w' supply) ∧
    ∀ p level, s.prefixes w.environment = .ok p → s.logLevel w.environment = .ok level →
      level ∉ Settings.logLevels →
      run arguments w supply =
        .exit 1 [] ("Error: " ++ ("Invalid log level: " ++ level) ++ "\n") := by
  have hrun : ∀ w, run arguments w supply = perform a w supply := fun w => by
    rw [run, hr]
    rfl
  have hprefixes : s.prefixes w.environment = s'.prefixes w'.environment :=
    hsame.prefixes_eq (Settings.isUnambiguous_ofPath _ _ s hs)
      (Settings.isUnambiguous_ofPath _ _ s' hs')
  have hknown : s.HasLevel w.environment → s'.HasLevel w'.environment →
      perform a w supply = perform a w' supply :=
    fun hl hl' => perform_congr (session_congr ha hs hs' hsame hl hl') hform
  have hrefused : ∀ e, s.prefixes w.environment = .error e →
      perform a w supply = perform a w' supply := by
    intro e he
    rw [perform_of_invalid hs (Settings.validate_eq_error_iff.2 (.inl he)),
      perform_of_invalid hs' (Settings.validate_eq_error_iff.2 (.inl (hprefixes ▸ he)))]
  simp only [hrun]
  refine ⟨hknown, fun hiff => ?_, hrefused, fun p level hp hl hu => perform_of_unknown hs hp hl hu⟩
  by_cases hl : s.HasLevel w.environment
  · rw [hknown hl (hiff.1 hl)]
  rcases hp : s.prefixes w.environment with e | p
  · rw [hrefused e hp]
  · -- both runs end with a message about their levels
    obtain ⟨sec, sec', hsec, hsec', -⟩ := hsame.app
    obtain ⟨level, hlevel, hunknown⟩ := Settings.exists_unknown hsec hl
    obtain ⟨level', hlevel', hunknown'⟩ := Settings.exists_unknown hsec' (mt hiff.2 hl)
    rw [perform_of_unknown hs hp hlevel hunknown,
      perform_of_unknown hs' (hprefixes ▸ hp) hlevel' hunknown']
    rfl

/-- A file with a subject. -/
def subjectFile : Text :=
  "\x7b\"processor\":\x7b\"subject\":\"urn:t\",\"prefixes\":\x7b\"p\":\"urn:p#\"\x7d\x7d\x7d"

/-- A file with the same prefix, and with a level of logging. -/
def levelFile : Text :=
  "\x7b\"app\":\x7b\"log_level\":\"debug\"\x7d,"
    ++ "\"processor\":\x7b\"prefixes\":\x7b\"p\":\"urn:p#\"\x7d\x7d\x7d"

theorem run_overrides_files : ∃ (arguments : List Text) (w w' : Surroundings),
    w.files "c.json" = .ok subjectFile ∧ w'.files "c.json" = .ok levelFile ∧
    w.environment = ⟨none, none, some "error"⟩ ∧ w'.environment = ⟨some "urn:u", none, none⟩ ∧
    ∀ supply, run arguments w supply = run arguments w' supply := by
  let prefixes : Value := .mapping [(.text "p", .text "urn:p#")]
  let s : Settings := ⟨some "c.json",
    [("processor", .mapping [(.text "subject", .text "urn:t"), (.text "prefixes", prefixes)])]⟩
  let s' : Settings := ⟨some "c.json", [("app", .mapping [(.text "log_level", .text "debug")]),
    ("processor", .mapping [(.text "prefixes", prefixes)])]⟩
  let w : Surroundings := ⟨fun _ => .ok subjectFile, ⟨none, none, some "error"⟩, []⟩
  let w' : Surroundings := ⟨fun _ => .ok levelFile, ⟨some "urn:u", none, none⟩, []⟩
  let a : Arguments := { Arguments.default with
    subject := some "urn:s", graph := some "urn:g", config := some "c.json",
    logLevel := some "info", form := some "p%3Aa=x" }
  have hr : Arguments.read ["-c", "c.json", "-s", "urn:s", "-g", "urn:g", "--log-level", "info",
      "--form", "p%3Aa=x"] = .ok (.run a) := rfl
  have ha : a.Override := ⟨⟨_, rfl, by decide⟩, ⟨_, rfl, by decide⟩, ⟨_, rfl, by decide +kernel⟩⟩
  have hpath : Path.simplify "c.json" = "c.json" := by decide +kernel
  have hread : Json.read subjectFile = .ok (.mapping [(.text "processor", .mapping
      [(.text "subject", .text "urn:t"), (.text "prefixes", prefixes)])]) := by
    unfold subjectFile
    simp only [String.reduceToList]
    rfl
  have hread' : Json.read levelFile = .ok (.mapping [(.text "app", .mapping
      [(.text "log_level", .text "debug")]), (.text "processor", .mapping
      [(.text "prefixes", prefixes)])]) := by
    unfold levelFile
    simp only [String.reduceToList]
    rfl
  have hs : Settings.ofPath w.files a.config = .ok s :=
    Settings.ofPath_mapping hpath rfl (by decide +kernel) hread (by simp) rfl
  have hs' : Settings.ofPath w'.files a.config = .ok s' :=
    Settings.ofPath_mapping hpath rfl (by decide +kernel) hread' (by simp) rfl
  have hsame : s.SameBesides s' := by
    refine ⟨⟨_, _, rfl, rfl, fun name hsubject _ => ?_⟩, ⟨_, _, rfl, rfl, fun name hlevel => ?_⟩⟩
    · exact Assoc.find?_cons_of_ne hsubject
    · exact (Assoc.find?_cons_of_ne hlevel).symm
  have hl : s.HasLevel w.environment := by
    have happ : s.app w.environment = .ok [("log_level", .text "error")] := rfl
    exact ⟨Text.upper "error", by decide +kernel, Settings.logLevel_of_app happ rfl⟩
  have hl' : s'.HasLevel w'.environment := by
    have happ : s'.app w'.environment = .ok [("log_level", .text "debug")] := rfl
    exact ⟨Text.upper "debug", by decide +kernel, Settings.logLevel_of_app happ rfl⟩
  have hform : form a w = form a w' := (form_of_encoded rfl).trans (form_of_encoded rfl).symm
  exact ⟨_, w, w', rfl, rfl, rfl, rfl, fun supply =>
    (run_overrides hr ha hs hs' hsame hform supply).1 hl hl'⟩

/-- One of two environments gives an unknown level, which the arguments replace. -/
theorem run_overrides_unknown : ∃ (arguments : List Text) (w w' : Surroundings) (a : Arguments)
    (supply : Supply) (output : Text), Arguments.read arguments = .ok (.run a) ∧ a.Override ∧
    a.config = none ∧ form a w = form a w' ∧ w.environment = ⟨none, none, some "chatty"⟩ ∧
    w'.environment = ⟨none, none, none⟩ ∧
    run arguments w supply = .exit 1 [] ("Error: " ++ ("Invalid log level: " ++ "CHATTY") ++ "\n") ∧
    run arguments w' supply = .exit 0 output [] := by
  let w : Surroundings := ⟨fun p => .error (.missing p), ⟨none, none, some "chatty"⟩, []⟩
  let w' : Surroundings := ⟨fun p => .error (.missing p), ⟨none, none, none⟩, []⟩
  let a : Arguments := { Arguments.default with
    subject := some "urn:s", graph := some "urn:g", logLevel := some "INFO",
    form := some "p%3Aa=x" }
  let arguments : List Text := ["-s", "urn:s", "-g", "urn:g", "--log-level", "INFO", "--form",
    "p%3Aa=x"]
  have hr : Arguments.read arguments = .ok (.run a) := rfl
  have ha : a.Override := ⟨⟨_, rfl, by decide⟩, ⟨_, rfl, by decide⟩, ⟨_, rfl, by decide +kernel⟩⟩
  have hform : form a w = form a w' := (form_of_encoded rfl).trans (form_of_encoded rfl).symm
  have hlevel : Settings.empty.logLevel w.environment = .ok "CHATTY" := by
    have happ : Settings.empty.app w.environment = .ok [("log_level", .text "chatty")] := rfl
    have hupper : Text.upper "chatty" = "CHATTY" := by decide +kernel
    rw [← hupper]
    exact Settings.logLevel_of_app happ rfl
  have hrefused : run arguments w (.fresh id id) =
      .exit 1 [] ("Error: " ++ ("Invalid log level: " ++ "CHATTY") ++ "\n") := by
    have hs : Settings.ofPath w.files a.config = .ok .empty := rfl
    have hp : Settings.empty.prefixes w.environment = .ok [] := rfl
    rw [run, hr]
    show perform a w (.fresh id id) = _
    exact perform_of_unknown hs hp hlevel (by decide +kernel)
  have hreturns : (run arguments w' (.fresh id id)).returns = true := by decide +kernel
  rcases hrun : run arguments w' (.fresh id id) with ⟨code, output, errors⟩ | e
  · rw [hrun] at hreturns
    obtain ⟨rfl, rfl⟩ := of_decide_eq_true hreturns
    exact ⟨arguments, w, w', a, .fresh id id, output, hr, ha, rfl, hform, rfl, rfl, hrefused, hrun⟩
  · rw [hrun] at hreturns
    cases hreturns

end Command

end FormEdits
