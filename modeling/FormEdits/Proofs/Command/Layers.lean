import FormEdits.Proofs.Command.Overrides
import FormEdits.Proofs.Form.Encoded
import FormEdits.Proofs.Settings.Layers
import FormEdits.Proofs.Statement.References

/-! # The session of a run

The session that a run starts with has its subject and its graph from the arguments, the environment
and the file, in this order, and binds a prefix to what the last option says of it, else the file,
else the known prefixes. Without a subject the run ends with a message about it, which no other
fault of the run has (`run_layers`). -/

namespace FormEdits

/-! ### Errors about a missing subject -/

/-- No other message begins as that about a missing subject. -/
theorem Error.message_take_ne {e : Error} (hr : e.isReported)
    (hne : e ≠ .configuration .missingSubject) : e.message.take 2 ≠ ['M', 'i'] := by
  -- two letters tell it from the messages about macros; literals are spelled out before anything
  -- is compared, since the lists behind them do not unfold in reasonable time
  cases e with
  | configuration fault =>
    cases fault with
    | missingSubject => exact (hne rfl).elim
    | _ =>
      dsimp only [message, ConfigurationFault.message]
      simp only [String.reduceToList]
      simp only [List.cons_append, List.take_succ_cons, ne_eq, List.cons.injEq, Char.reduceEq,
        false_and, not_false_eq_true]
  | selfReference name | cycle names | special name fault =>
    dsimp only [message]
    simp only [String.reduceToList]
    simp only [List.cons_append, List.take_succ_cons, ne_eq, List.cons.injEq, Char.reduceEq,
      false_and, and_false, not_false_eq_true]
  | datatype fault =>
    cases fault with
    | _ =>
      dsimp only [message, DatatypeFault.message]
      simp only [String.reduceToList]
      simp only [List.cons_append, List.take_succ_cons, ne_eq, List.cons.injEq, Char.reduceEq,
        false_and, not_false_eq_true]
  | _ => cases hr

/-- A computation that does not miss a subject. -/
abbrev NeverMissing {α : Type} (x : Except Error α) : Prop :=
  ErrorsIn (· ≠ .configuration .missingSubject) x

/-- The errors of statements refuse no form, and this error would. -/
theorem Session.neverMissing_submit {s : Session} (h : s.replacement = none) (form : Submission)
    (supply : Supply) : NeverMissing (s.submit form supply).edits := by
  rcases hf : form.fields with e | fields
  · have hfields : NeverMissing form.fields := form.errorsIn_fields (by simp) (by simp)
    rw [submit, hf]
    exact .error (hfields e hf)
  have ht := MacroTable.wellFormed_ofDeclarations (declarations fields)
  rw [submit_of_fields hf, submitSorted, Sorted.table_ofFields]
  rcases hm : Macros.resolve (.ofDeclarations (declarations fields)) supply with ⟨e | m, supply'⟩
  · refine .error ?_
    rcases Macros.resolve_error ht (s := supply) (by rw [hm]) with ⟨n, rfl, -⟩ | ⟨ns, rfl, -⟩
    · simp
    · simp
  obtain ⟨hs, hk⟩ := Macros.settled_of_resolve ht (s := supply) (m := m) (by rw [hm])
  have hv : ∀ sp : Special, (m.find? sp.name).getD [] = (m.texts sp.name).map .text :=
    fun sp => hs.values_eq_texts ht (hk.symm.nodup ht.nodup) sp.ofName?_name
  dsimp only
  rcases s.applySpecials_cases hv supply' with ⟨s', ha, hc⟩ | ⟨sp, fault, ha⟩
  · have hr : s'.replacement = none := ((hc s').2 rfl).replacement.trans h
    rw [ha]
    refine ErrorsIn.map fun e he => ?_
    rintro rfl
    cases Candidate.noRefusal_edits hr m _ supply' _ he
  · rw [ha]
    exact .error (by simp)

namespace Command

variable {a : Arguments} {w : Surroundings} {s : Settings} {supply : Supply}

theorem neverMissing_form : NeverMissing (form a w) := by
  have hdocument : ∀ document, NeverMissing (formOfDocument document) := by
    intro document
    unfold formOfDocument
    split
    · exact .ok _
    · exact .error nofun
    · exact .error nofun
    · exact .error nofun
  have hinput : NeverMissing (inputText a w) := by
    unfold inputText
    split
    · exact .ok _
    · split
      · exact .ok _
      · exact .error nofun
  unfold form
  split
  · exact .ok _
  · exact hinput.bind hdocument

theorem edits_of_session {start : Session} (h : session a w = .ok start) (supply : Supply) :
    edits a w supply = form a w >>= fun f => (start.submit f supply).edits := by
  rw [edits, h]
  rfl

theorem perform_missing_iff : perform a w supply =
      .exit 1 [] ("Error: " ++ "Missing required processor configuration: subject" ++ "\n") ↔
    edits a w supply = .error (.configuration .missingSubject) := by
  rw [perform]
  rcases edits a w supply with e | set
  · show ending e = _ ↔ _
    rw [ending]
    constructor
    · intro h
      split at h
      · rename_i hr
        have hmessage := (Ending.exit.inj h).2.2
        rw [List.append_left_inj, List.append_right_inj] at hmessage
        by_contra hne
        refine e.message_take_ne hr (fun he => hne (congrArg _ he)) ?_
        rw [hmessage]
        decide +kernel
      · cases h
    · intro h
      rw [Except.error.inj h]
      rfl
  · dsimp only
    rcases format set a.format with e | t
    · simp
    · simp

/-! ### Prefix options -/

/-- The value of a prefix option and what it binds: a name, the first `=` and an IRI, neither of
them empty. -/
def IsPrefixOption (t : Text) (b : Text × Text) : Prop :=
  t = b.1 ++ '=' :: b.2 ∧ '=' ∉ b.1 ∧ b.1 ≠ [] ∧ b.2 ≠ []

theorem prefixOption_eq_ok_iff {t : Text} {b : Text × Text} :
    prefixOption t = .ok b ↔ IsPrefixOption t b := by
  unfold prefixOption
  constructor
  · intro h
    split at h
    · rename_i name iri hcut
      split at h
      · cases h
      · rename_i hne
        cases h
        simp only [Bool.or_eq_true, List.isEmpty_iff, not_or] at hne
        exact ⟨(Text.append_of_cut? hcut).symm, Text.notMem_of_cut? hcut, hne⟩
    · cases h
  · rintro ⟨rfl, hsep, hname, hiri⟩
    simp [Text.cut?_append hsep, hname, hiri]

/-- Prefix options are accepted exactly if all of them bind something, and then they make these
bindings. -/
theorem prefixOptions_eq_ok_iff {values : List Text} {p : Prefixes} :
    prefixOptions values = .ok p ↔
      ∃ bindings, List.Forall₂ IsPrefixOption values bindings ∧ p = Assoc.ofEntries bindings := by
  unfold prefixOptions
  constructor
  · intro h
    obtain ⟨bindings, hb, rfl⟩ := exists_ok_of_map h
    exact ⟨bindings, (forall₂_of_mapM hb).imp fun _ _ => prefixOption_eq_ok_iff.1, rfl⟩
  · rintro ⟨bindings, hb, rfl⟩
    rw [mapM_eq_ok_of_forall₂ (hb.imp fun _ _ => prefixOption_eq_ok_iff.2)]
    rfl

/-! ### Sessions of runs -/

theorem checkLogLevel_of_valid
    (h : ∀ t, a.logLevel = some t → t ≠ [] → Text.upper t ∈ Settings.logLevels) :
    checkLogLevel a = .ok () := by
  rcases ht : a.logLevel with _ | t
  · rw [checkLogLevel, ht]
    rfl
  by_cases hne : t = []
  · rw [checkLogLevel, ht, hne]
    rfl
  · exact checkLogLevel_of_known ht (h t ht hne)

/-- What a prefix stands for by its layers. -/
def layeredPrefix (bindings : List (Text × Text)) (s : Settings) (name : Text) : Option Text :=
  (Assoc.find? bindings.reverse name).or ((s.filePrefix name).or (Prefixes.default.find? name))

theorem session_layers {bindings : List (Text × Text)}
    (hs : Settings.ofPath w.files a.config = .ok s) (hv : s.validate w.environment = .ok ())
    (hb : List.Forall₂ IsPrefixOption a.prefixes bindings)
    (hl : ∀ t, a.logLevel = some t → t ≠ [] → Text.upper t ∈ Settings.logLevels) :
    ∃ p : Prefixes, (∀ name, p.find? name = layeredPrefix bindings s name) ∧ session a w =
      match Settings.layered a.subject w.environment.subject (s.fileSetting "subject") with
      | none => .error (.configuration .missingSubject)
      | some t => .ok ⟨Settings.resource t, (Settings.layered a.graph w.environment.graph
          (s.fileSetting "graph")).map Settings.resource, p, none⟩ := by
  have hu := Settings.isUnambiguous_ofPath _ _ s hs
  obtain ⟨⟨known, hknown⟩, -⟩ := Settings.validate_eq_ok_iff.1 hv
  obtain ⟨sec', hsec', -⟩ := exists_ok_of_bind hknown
  obtain ⟨sec, hsec, -⟩ := exists_ok_of_bind hsec'
  have hmore := prefixOptions_eq_ok_iff.2 ⟨bindings, hb, rfl⟩
  have hkeys : (Assoc.ofEntries bindings).keys.Nodup := Assoc.nodup_keys_overlay _ List.nodup_nil
  have hn : (known.overlay (Assoc.ofEntries bindings)).keys.Nodup :=
    Assoc.nodup_keys_overlay _ (Settings.nodup_prefixes hknown)
  refine ⟨Prefixes.default.overlay (known.overlay (Assoc.ofEntries bindings)), fun name => ?_, ?_⟩
  · rw [Assoc.find?_overlay hn, Assoc.find?_overlay hkeys, Settings.find?_prefixes hu hknown,
      Assoc.ofEntries, Assoc.find?_overlay_reverse, Option.or_assoc, Option.or_assoc, layeredPrefix]
    rfl
  · have hsession : session a w = (s.withPrefixes (known.overlay (Assoc.ofEntries bindings)) >>=
        fun s => s.session w.environment a.subject a.graph .absent) := by
      simp only [session, hs, hv, checkLogLevel_of_valid hl, hknown, hmore, bind, Except.bind]
    rw [hsession]
    exact Settings.session_layers hsec (Settings.nodup_section? hu hsec) hn a.subject a.graph

/-- With settings that load and are valid, prefix options that bind something and no unknown level
of logging, a run starts with the session that the layers give, and submits its form there. It ends
with the message about a missing subject exactly if no layer gives one. -/
theorem run_layers {arguments : List Text} {bindings : List (Text × Text)}
    (hr : Arguments.read arguments = .ok (.run a)) (hs : Settings.ofPath w.files a.config = .ok s)
    (hv : s.validate w.environment = .ok ())
    (hb : List.Forall₂ IsPrefixOption a.prefixes bindings)
    (hl : ∀ t, a.logLevel = some t → t ≠ [] → Text.upper t ∈ Settings.logLevels)
    (supply : Supply) :
    (Settings.layered a.subject w.environment.subject (s.fileSetting "subject") = none ↔
      run arguments w supply =
        .exit 1 [] ("Error: " ++ "Missing required processor configuration: subject" ++ "\n")) ∧
    ∀ t, Settings.layered a.subject w.environment.subject (s.fileSetting "subject") = some t →
      ∃ start, session a w = .ok start ∧
        (edits a w supply = form a w >>= fun f => (start.submit f supply).edits) ∧
        start.subject = Settings.resource t ∧
        start.graph = (Settings.layered a.graph w.environment.graph
          (s.fileSetting "graph")).map Settings.resource ∧
        (∀ name, start.prefixes.find? name = layeredPrefix bindings s name) ∧
        start.replacement = none := by
  have hrun : run arguments w supply = perform a w supply := by
    rw [run, hr]
    rfl
  obtain ⟨p, hp, hsession⟩ := session_layers hs hv hb hl
  rw [hrun, perform_missing_iff]
  rcases hsubject : Settings.layered a.subject w.environment.subject (s.fileSetting "subject")
    with _ | t
  · rw [hsubject] at hsession
    refine ⟨iff_of_true rfl ?_, fun t ht => by cases ht⟩
    rw [edits, hsession]
    rfl
  · rw [hsubject] at hsession
    have hedits := edits_of_session hsession supply
    refine ⟨iff_of_false (Option.some_ne_none t) ?_, fun t' ht' => ?_⟩
    · rw [hedits]
      exact fun h => neverMissing_form.bind
        (fun f => Session.neverMissing_submit rfl f supply) _ h rfl
    · cases ht'
      exact ⟨_, hsession, hedits, rfl, rfl, hp, rfl⟩

/-- A file with all settings of new sessions. -/
def layersFile : Text :=
  "\x7b\"processor\":\x7b\"subject\":\"urn:t\",\"graph\":\"urn:g\","
    ++ "\"prefixes\":\x7b\"p\":\"urn:p#\",\"q\":\"urn:q#\",\"owl\":\"urn:o#\"\x7d\x7d\x7d"

/-- The subject comes from the file, unless the environment has an empty one, and the environment
takes the graph away. Of the options for one prefix the last one counts, against the file too. -/
theorem run_layers_file : ∃ (arguments : List Text) (a : Arguments) (w : Surroundings)
    (start : Session), Arguments.read arguments = .ok (.run a) ∧
    w.files "c.json" = .ok layersFile ∧ w.environment = ⟨none, some [], none⟩ ∧
    session a w = .ok start ∧ start.subject = .iri "urn:t" ∧ start.graph = none ∧
    start.prefixes.find? "p" = some "urn:last#" ∧ start.prefixes.find? "q" = some "urn:q#" ∧
    start.prefixes.find? "owl" = some "urn:o#" ∧
    start.prefixes.find? "rdf" = Prefixes.default.find? "rdf" ∧ start.prefixes.find? "r" = none ∧
    ∀ supply, run arguments { w with environment := ⟨some [], none, none⟩ } supply =
      .exit 1 [] ("Error: " ++ "Missing required processor configuration: subject" ++ "\n") := by
  let prefixes : Value :=
    .mapping [(.text "p", .text "urn:p#"), (.text "q", .text "urn:q#"),
      (.text "owl", .text "urn:o#")]
  let s : Settings := ⟨some "c.json", [("processor", .mapping [(.text "subject", .text "urn:t"),
    (.text "graph", .text "urn:g"), (.text "prefixes", prefixes)])]⟩
  let w : Surroundings := ⟨fun _ => .ok layersFile, ⟨none, some [], none⟩, []⟩
  let a : Arguments := { Arguments.default with
    config := some "c.json", prefixes := ["p=urn:first#", "p=urn:last#"], form := some "p%3Aa=x" }
  have hr : Arguments.read ["-c", "c.json", "-P", "p=urn:first#", "-P", "p=urn:last#", "--form",
      "p%3Aa=x"] = .ok (.run a) := rfl
  have hread : Json.read layersFile = .ok (.mapping [(.text "processor", .mapping
      [(.text "subject", .text "urn:t"), (.text "graph", .text "urn:g"),
        (.text "prefixes", prefixes)])]) := by
    unfold layersFile
    simp only [String.reduceToList]
    rfl
  have hs : Settings.ofPath w.files a.config = .ok s :=
    Settings.ofPath_mapping (by decide +kernel) rfl (by decide +kernel) hread (by simp) rfl
  have hv : ∀ env ∈ [(⟨none, some [], none⟩ : Environment), ⟨some [], none, none⟩],
      s.validate env = .ok () := by
    intro env henv
    have happ : s.app env = .ok [("log_level", .text "INFO")] := by
      rcases List.mem_pair.1 henv with rfl | rfl <;> rfl
    have hp : ∃ p, s.prefixes env = .ok p := by
      rcases List.mem_pair.1 henv with rfl | rfl <;> exact ⟨_, rfl⟩
    exact Settings.validate_eq_ok_iff.2
      ⟨hp, Text.upper "INFO", by decide +kernel, Settings.logLevel_of_app happ rfl⟩
  have hb : List.Forall₂ IsPrefixOption a.prefixes [("p", "urn:first#"), ("p", "urn:last#")] :=
    .cons ⟨by decide +kernel, by decide +kernel, by decide +kernel, by decide +kernel⟩
      (.cons ⟨by decide +kernel, by decide +kernel, by decide +kernel, by decide +kernel⟩ .nil)
  have hl : ∀ t, a.logLevel = some t → t ≠ [] → Text.upper t ∈ Settings.logLevels := nofun
  have hsubject : Settings.layered a.subject w.environment.subject (s.fileSetting "subject") =
      some "urn:t" := rfl
  obtain ⟨start, hstart, -, hstartSubject, hgraph, hp, -⟩ :=
    (run_layers hr hs (hv _ (List.mem_cons_self ..)) hb hl (.fresh id id)).2 "urn:t" hsubject
  let w' : Surroundings := { w with environment := ⟨some [], none, none⟩ }
  have hs' : Settings.ofPath w'.files a.config = .ok s := hs
  have hv' : s.validate w'.environment = .ok () :=
    hv _ (List.mem_cons_of_mem _ (List.mem_cons_self ..))
  have hmissing : Settings.layered a.subject w'.environment.subject (s.fileSetting "subject") =
      none := rfl
  refine ⟨_, a, w, start, hr, rfl, rfl, hstart, hstartSubject.trans (by decide +kernel), hgraph,
    ?_, ?_, ?_, ?_, ?_, fun supply => (run_layers hr hs' hv' hb hl supply).1.1 hmissing⟩
  all_goals
    rw [hp]
    decide +kernel

end Command

end FormEdits
