import FormEdits.Proofs.Settings.Sections

/-! # What validation reports

After loading, a section that is not a mapping is the only error that is no fault of the
configuration, and settings that are valid make a session for every subject that is given
(`Settings.validate_reports`). -/

namespace FormEdits

namespace Settings

variable {s : Settings} {env : Environment} {e : Error}

/-! ### Where a section is not a mapping -/

theorem processor_eq_error_iff : s.processor env = .error e ↔ s.SectionFault "processor" e :=
  (bind_eq_error_iff fun _ => .ok _).trans section?_eq_error_iff

theorem app_eq_error_iff : s.app env = .error e ↔ s.SectionFault "app" e :=
  (bind_eq_error_iff fun _ => .ok _).trans section?_eq_error_iff

theorem logLevel_eq_error_iff : s.logLevel env = .error e ↔ s.SectionFault "app" e :=
  (bind_eq_error_iff fun _ => .ok _).trans app_eq_error_iff

theorem logLevel_of_app {sec : Section} {t : Text} (h : s.app env = .ok sec)
    (ht : sec.find? "log_level" = some (.text t)) : s.logLevel env = .ok (Text.upper t) := by
  rw [logLevel, h]
  show Except.ok (Text.upper ((sec.find? "log_level").getD .null).plain) = _
  rw [ht]
  rfl

theorem prefixes_eq_error (h : s.prefixes env = .error e) :
    s.SectionFault "processor" e ∨ e = .configuration .prefixSettingNotMapping := by
  unfold prefixes at h
  rcases hp : s.processor env with e' | sec
  · rw [hp] at h
    cases h
    exact .inl (processor_eq_error_iff.1 hp)
  · rw [hp] at h
    simp only [bind, Except.bind] at h
    split at h
    · cases h
    · cases h
    · cases h
      exact .inr rfl

theorem prefixes_of_sectionFault (h : s.SectionFault "processor" e) :
    s.prefixes env = .error e := by
  unfold prefixes
  rw [processor_eq_error_iff.2 h]
  rfl

/-! ### Validation -/

theorem validate_eq_ok_iff : s.validate env = .ok () ↔
    (∃ p, s.prefixes env = .ok p) ∧ ∃ level ∈ logLevels, s.logLevel env = .ok level := by
  unfold validate
  rcases s.prefixes env with e | p
  · simp [bind, Except.bind]
  rcases s.logLevel env with e | level
  · simp [bind, Except.bind]
  · simp [bind, Except.bind]

theorem validate_eq_error_iff : s.validate env = .error e ↔
    s.prefixes env = .error e ∨ (∃ p, s.prefixes env = .ok p) ∧
      (s.logLevel env = .error e ∨ ∃ level, s.logLevel env = .ok level ∧ level ∉ logLevels ∧
        e = .configuration (.unknownLogLevel level)) := by
  unfold validate
  rcases s.prefixes env with e' | p
  · simp [bind, Except.bind]
  rcases s.logLevel env with e' | level
  · simp [bind, Except.bind]
  · by_cases hl : level ∈ logLevels
    · simp [bind, Except.bind, hl]
    · simp [bind, Except.bind, hl, eq_comm]

theorem readDocument_eq_error {t : Text} (h : readDocument t = .error e) :
    (∃ fault, e = .configuration fault) ∨
      ∃ count, Json.read t = .error (.tooManyDigits count) ∧ e = .value (.tooManyDigits count) := by
  unfold readDocument at h
  split at h
  · cases h
  · split at h
    · cases h
    · cases h
      exact .inl ⟨_, rfl⟩
    · rename_i count hread
      cases h
      exact .inr ⟨count, hread, rfl⟩

theorem load_eq_error {files : FileReader} {path : Text} (h : load files path = .error e) :
    (∃ fault, e = .configuration fault) ∨ ∃ document count,
      files (Path.simplify path) = .ok document ∧
        Json.read document = .error (.tooManyDigits count) ∧ e = .value (.tooManyDigits count) := by
  unfold load at h
  dsimp only at h
  split at h
  · cases h
    exact .inl ⟨_, rfl⟩
  · cases h
    exact .inl ⟨_, rfl⟩
  · rename_i document hfile
    rcases hd : readDocument document with e' | v
    · rw [hd] at h
      cases h
      refine (readDocument_eq_error hd).imp_right ?_
      rintro ⟨count, hread, rfl⟩
      exact ⟨document, count, hfile, hread, rfl⟩
    · rw [hd] at h
      simp only [bind, Except.bind] at h
      split at h
      · cases h
      · split at h
        · cases h
        · cases h
          exact .inl ⟨_, rfl⟩

/-- Loading fails with a fault of the configuration, unless an integer has too many digits. The
level of logging and validation fail with one, unless a section is not a mapping. Settings are valid
if their prefixes and their level can be read and the level is known, and then they make a session
for any subject. -/
theorem validate_reports (files : FileReader) (path : Text) (s : Settings) (env : Environment) :
    (∀ e, load files path = .error e →
      (∃ fault, e = .configuration fault) ∨ ∃ document count,
        files (Path.simplify path) = .ok document ∧
          Json.read document = .error (.tooManyDigits count) ∧ Json.maxDigits < count ∧
          e = .value (.tooManyDigits count)) ∧
    (∀ e, s.logLevel env = .error e ↔ s.SectionFault "app" e) ∧
    (∀ e, s.validate env = .error e ∧ (∀ fault, e ≠ .configuration fault) ↔
      s.SectionFault "processor" e ∨ s.SectionFault "app" e ∧ ∃ p, s.prefixes env = .ok p) ∧
    (s.validate env = .ok () ↔
      (∃ p, s.prefixes env = .ok p) ∧ ∃ level ∈ logLevels, s.logLevel env = .ok level) ∧
    (s.validate env = .ok () → ∀ subject graph replacement, subject ≠ [] →
      replacement ≠ .notApplicable → ∃ session p,
        s.session env (some subject) graph replacement = .ok session ∧
        s.prefixes env = .ok p ∧ session.subject = resource subject ∧
        session.prefixes = Prefixes.default.overlay p) := by
  refine ⟨fun e h => ?_, fun e => logLevel_eq_error_iff, fun e => ?_, validate_eq_ok_iff,
    fun hok subject graph replacement hne hr => ?_⟩
  · refine (load_eq_error h).imp_right ?_
    rintro ⟨document, count, hfile, hread, rfl⟩
    exact ⟨document, count, hfile, hread, Json.lt_of_tooManyDigits hread, rfl⟩
  · rw [validate_eq_error_iff]
    constructor
    · rintro ⟨hp | ⟨hp, hl | ⟨level, -, -, rfl⟩⟩, hne⟩
      · exact (prefixes_eq_error hp).elim .inl fun he => (hne _ he).elim
      · exact .inr ⟨logLevel_eq_error_iff.1 hl, hp⟩
      · exact (hne _ rfl).elim
    · rintro (hf | ⟨hf, hp⟩)
      · exact ⟨.inl (prefixes_of_sectionFault hf), ne_configuration_of_sectionFault hf⟩
      · exact ⟨.inr ⟨hp, .inl (logLevel_eq_error_iff.2 hf)⟩, ne_configuration_of_sectionFault hf⟩
  · obtain ⟨⟨p, hp⟩, -⟩ := validate_eq_ok_iff.1 hok
    obtain ⟨session, hsession, hsubject, hprefixes⟩ := exists_session hp hne hr graph
    exact ⟨session, p, hsession, hp, hsubject, hprefixes⟩

/-- A document with a list for a section is loaded, and then refused without a report. -/
theorem validate_reports_list : ∃ (files : FileReader) (s : Settings) (env : Environment),
    files "c.json" = .ok "\x7b\"app\": [1]\x7d" ∧ ofPath files (some "c.json") = .ok s ∧
      s.validate env = .error (.sectionNotMapping "list") ∧
      s.logLevel env = .error (.sectionNotMapping "list") ∧
      Error.isReported (.sectionNotMapping "list") = false := by
  let document : Text := "\x7b\"app\": [1]\x7d"
  let s : Settings := ⟨some "c.json", [("app", .list [.int 1])]⟩
  have hread : Json.read document = .ok (.mapping [(.text "app", .list [.int 1])]) := by
    simp only [document, String.reduceToList]
    rfl
  have hpath : Path.simplify "c.json" = "c.json" := by decide +kernel
  have hblank : document.all isBlank = false := by decide +kernel
  have hload : ofPath (fun _ => .ok document) (some "c.json") = .ok s :=
    ofPath_mapping hpath rfl hblank hread (by simp) rfl
  have hlevel : s.logLevel ⟨none, none, none⟩ = .error (.sectionNotMapping "list") :=
    logLevel_eq_error_iff.2 ⟨.list [.int 1], rfl, rfl, nofun, rfl⟩
  refine ⟨fun _ => .ok document, s, ⟨none, none, none⟩, rfl, hload, ?_, hlevel, rfl⟩
  exact validate_eq_error_iff.2 (.inr ⟨⟨[], rfl⟩, .inl hlevel⟩)

end Settings

end FormEdits
