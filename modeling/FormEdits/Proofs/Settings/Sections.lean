import FormEdits.Proofs.Json.Read
import FormEdits.Settings.Basic

/-! # Sections of settings

A section that is given has to be a mapping, and one that is not ends whatever reads it with an
error that is no fault of the configuration (`SectionFault`). The sections of loaded settings have
each name once (`Settings.nodup_section?`), so their prefixes are found between the defaults and the
overrides (`Settings.given?_prefixes`). -/

namespace FormEdits

namespace Settings

variable {s : Settings} {env : Environment} {files : FileReader} {path : Text} {name : Text}
  {sec : Section} {e : Error}

/-! ### Loading -/

theorem entries_map (sec : Section) :
    entries (sec.map fun e => ((.text e.1, e.2) : Value × Value)) = sec := by
  induction sec with
  | nil => rfl
  | cons e sec ih => exact congrArg (e :: ·) ih

theorem ofPath_mapping {simple document : Text} {es : List (Value × Value)}
    (hpath : Path.simplify path = simple) (hfile : files simple = .ok document)
    (hb : document.all isBlank = false) (hread : Json.read document = .ok (.mapping es))
    (hne : es ≠ []) (hes : entries es = sec) :
    ofPath files (some path) = .ok ⟨some simple, sec⟩ := by
  have hd : readDocument document = .ok (.mapping es) := by
    rw [readDocument, hb, hread]
    rfl
  have hgiven : (Value.mapping es).isGiven := by simp [Value.isGiven, hne]
  simp only [ofPath, load, hpath, hfile, hd, bind, Except.bind, hgiven, hes]
  rfl

/-- The sections have distinct names, and so have the entries of each mapping. -/
def IsUnambiguous (s : Settings) : Prop :=
  s.document.keys.Nodup ∧ ∀ e ∈ s.document, Json.Unambiguous e.2

theorem isUnambiguous_nil (path : Option Text) : IsUnambiguous ⟨path, []⟩ :=
  ⟨List.nodup_nil, nofun⟩

theorem unambiguous_readDocument (t : Text) : Gives Json.Unambiguous (readDocument t) := by
  unfold readDocument
  split
  · exact .ok (.other nofun)
  · split
    · rename_i v hread
      exact .ok (Json.unambiguous_read t v hread)
    · exact .error _
    · exact .error _

theorem isUnambiguous_load (files : FileReader) (path : Text) :
    Gives IsUnambiguous (load files path) := by
  unfold load
  dsimp only
  split
  · exact .error _
  · exact .error _
  · refine (unambiguous_readDocument _).bind fun v hv => ?_
    split
    · exact .ok (isUnambiguous_nil _)
    · split
      · cases hv with
        | other h => exact (h _ rfl).elim
        | mapping hk h =>
          refine .ok ?_
          rw [IsUnambiguous, entries_map]
          exact ⟨hk, h⟩
      · exact .error _

theorem isUnambiguous_ofPath (files : FileReader) (path : Option Text) :
    Gives IsUnambiguous (ofPath files path) := by
  cases path with
  | none => exact .ok (isUnambiguous_nil none)
  | some path => exact isUnambiguous_load files path

/-! ### Reading a section -/

/-- The error of a section that is given without being a mapping. -/
def SectionFault (s : Settings) (name : Text) (e : Error) : Prop :=
  ∃ v, s.document.find? name = some v ∧ v.isGiven ∧ (∀ es, v ≠ .mapping es) ∧
    e = .sectionNotMapping v.typeName

theorem ne_configuration_of_sectionFault (h : s.SectionFault name e) (fault : ConfigurationFault) :
    e ≠ .configuration fault := by
  obtain ⟨v, -, -, -, rfl⟩ := h
  nofun

theorem section?_eq_error_iff : s.section? name = .error e ↔ s.SectionFault name e := by
  unfold section?
  constructor
  · intro h
    split at h
    · cases h
    · cases h
    · rename_i v hm hv
      obtain ⟨hv, hgiven⟩ := Option.filter_eq_some_iff.1 hv
      cases h
      exact ⟨v, hv, hgiven, hm, rfl⟩
  · rintro ⟨v, hv, hgiven, hm, rfl⟩
    rw [hv, Option.filter_some_pos hgiven]
    cases v with
    | mapping es => exact (hm es rfl).elim
    | _ => rfl

theorem nodup_section? (hs : s.IsUnambiguous) (h : s.section? name = .ok sec) :
    sec.keys.Nodup := by
  unfold section? at h
  split at h
  · cases h
    exact List.nodup_nil
  · rename_i es hv
    cases h
    obtain ⟨hv, -⟩ := Option.filter_eq_some_iff.1 hv
    cases hs.2 _ (Assoc.mem_of_find? hv) with
    | other hne => exact (hne _ rfl).elim
    | mapping hk _ =>
      rw [entries_map]
      exact hk
  · cases h

/-! ### The section for new sessions -/

theorem find?_override_self (name : Text) (value : Option Text) (sec : Section) :
    (override name value sec).find? name = (value.map Value.text).or (sec.find? name) := by
  cases value with
  | none => rfl
  | some t => exact Assoc.find?_insert_self

theorem find?_override_of_ne {name' : Text} (h : name' ≠ name) (value : Option Text)
    (sec : Section) : (override name value sec).find? name' = sec.find? name' := by
  cases value with
  | none => rfl
  | some t => exact Assoc.find?_insert_of_ne h

theorem given?_prefixes (h : s.section? "processor" = .ok sec) (hn : sec.keys.Nodup)
    (env : Environment) : ∃ sec', s.processor env = .ok sec' ∧
      given? sec' "prefixes" = given? sec "prefixes" := by
  refine ⟨_, by rw [processor, h]; rfl, ?_⟩
  rw [given?, find?_override_of_ne (by decide), find?_override_of_ne (by decide),
    Assoc.find?_overlay hn, given?]
  cases sec.find? "prefixes" with
  | none => rfl
  | some v => rfl

theorem prefixes_congr {s' : Settings} {env' : Environment} {sec' : Section}
    (h : s.section? "processor" = .ok sec) (hn : sec.keys.Nodup)
    (h' : s'.section? "processor" = .ok sec') (hn' : sec'.keys.Nodup)
    (hsame : sec.find? "prefixes" = sec'.find? "prefixes") : s.prefixes env = s'.prefixes env' := by
  obtain ⟨p, hp, hg⟩ := given?_prefixes h hn env
  obtain ⟨p', hp', hg'⟩ := given?_prefixes h' hn' env'
  have heq : given? p "prefixes" = given? p' "prefixes" := by
    rw [hg, hg', given?, given?, hsame]
  simp only [prefixes, hp, hp', bind, Except.bind, heq]

theorem nodup_prefixes {p : Prefixes} (h : s.prefixes env = .ok p) : p.keys.Nodup := by
  unfold prefixes at h
  obtain ⟨sec, -, h⟩ := exists_ok_of_bind h
  split at h
  · cases h
    exact List.nodup_nil
  · cases h
    exact Assoc.nodup_keys_overlay _ List.nodup_nil
  · cases h

/-- A section with the given prefixes. -/
def withPrefixEntries (sec : Section) (p : Prefixes) : Section :=
  sec.insert "prefixes" (.mapping (p.map fun e => (.text e.1, .text e.2)))

theorem section?_withPrefixes (h : s.section? "processor" = .ok sec) (p : Prefixes) :
    ∃ s', s.withPrefixes p = .ok s' ∧
      s'.section? "processor" = .ok (withPrefixEntries sec p) := by
  refine ⟨_, by rw [withPrefixes, h]; rfl, ?_⟩
  have hne : withPrefixEntries sec p ≠ [] := fun hnil => by
    have hfind := Assoc.find?_insert_self (m := sec) (k := "prefixes")
      (a := .mapping (p.map fun e => (.text e.1, .text e.2)))
    rw [← withPrefixEntries, hnil] at hfind
    cases hfind
  have hgiven :
      (Value.mapping ((withPrefixEntries sec p).map fun e => (.text e.1, e.2))).isGiven := by
    simp [Value.isGiven, hne]
  rw [section?, Assoc.find?_insert_self]
  rw [← withPrefixEntries, Option.filter_some_pos hgiven]
  exact congrArg Except.ok (entries_map _)

theorem prefixes_of_entries {p : Prefixes}
    (h : s.section? "processor" = .ok (withPrefixEntries sec p)) (hn : sec.keys.Nodup)
    (hp : p.keys.Nodup) : s.prefixes env = .ok p := by
  obtain ⟨sec', hsec', hg⟩ := given?_prefixes h (Assoc.nodup_keys_alter _ hn) env
  rw [given?, given?, withPrefixEntries, Assoc.find?_insert_self] at hg
  cases p with
  | nil =>
    have hg : (sec'.find? "prefixes").filter Value.isGiven = none := hg
    simp only [prefixes, hsec', bind, Except.bind, given?, hg]
  | cons e p =>
    have hplain : (((e :: p).map fun e => ((.text e.1, .text e.2) : Value × Value)).map fun e =>
        (e.1.plain, e.2.plain)) = e :: p := by
      rw [List.map_map]
      exact List.map_id _
    rw [Option.filter_some_pos rfl] at hg
    simp only [prefixes, hsec', bind, Except.bind, given?, hg, hplain, Assoc.ofEntries_eq_self hp]

/-! ### Arguments -/

theorem choose_some {t : Text} (h : t ≠ []) (sec : Section) (name : Text) :
    choose (some t) sec name = some t := by
  simp [choose, Option.filter, h]

theorem exists_session {subject : Text} {p : Prefixes} {replacement : ReplacementSetting}
    (hp : s.prefixes env = .ok p) (hs : subject ≠ []) (hr : replacement ≠ .notApplicable)
    (graph : Option Text) :
    ∃ session, s.session env (some subject) graph replacement = .ok session ∧
      session.subject = resource subject ∧ session.prefixes = Prefixes.default.overlay p := by
  obtain ⟨sec, hsec, -⟩ := exists_ok_of_bind hp
  simp only [session, hsec, hp, bind, Except.bind, choose_some hs]
  cases replacement with
  | absent => exact ⟨_, rfl, rfl, rfl⟩
  | function f => exact ⟨_, rfl, rfl, rfl⟩
  | notApplicable => exact (hr rfl).elim

end Settings

end FormEdits
