import FormEdits.Proofs.Settings.Sections

/-! # Layers of settings

The subject and the graph of a session come from the first layer that has something to say: an
argument, unless it is empty; then the environment, whose empty values say that there is none; then
the file, where values that do not count as given are passed over (`layered`). `fileSetting` and
`filePrefix` read the file without the defaults and overrides that a session reads it through, and
`session_layers` puts the layers together. -/

namespace FormEdits

namespace Settings

variable {s : Settings} {env : Environment} {sec : Section} {name : Text} {p : Prefixes}

/-- What the file says of a setting for new sessions. -/
def fileSetting (s : Settings) (name : Text) : Option Value :=
  match s.document.find? "processor" with
  | some (.mapping es) => (entries es).find? name
  | _ => none

/-- The text that the file binds a prefix to. -/
def filePrefix (s : Settings) (name : Text) : Option Text :=
  match s.fileSetting "prefixes" with
  | some (.mapping es) => ((entries es).find? name).map Value.plain
  | _ => none

/-- A setting by the first layer that decides it. -/
def layered (argument override : Option Text) (file : Option Value) : Option Text :=
  match argument, override with
  | some (c :: r), _ => some (c :: r)
  | _, some [] => none
  | _, some t => some t
  | _, none => (file.filter Value.isGiven).map Value.plain

/-! ### What the file says -/

theorem fileSetting_of_section? (h : s.section? "processor" = .ok sec) (name : Text) :
    s.fileSetting name = sec.find? name := by
  unfold section? at h
  unfold fileSetting
  cases hv : s.document.find? "processor" with
  | none =>
    rw [hv] at h
    cases h
    rfl
  | some v =>
    rw [hv] at h
    rcases hgiven : v.isGiven with _ | _
    · rw [Option.filter_some_neg (by simp [hgiven])] at h
      cases h
      cases v with
      | mapping es =>
        have hnil : es = [] := by simpa [Value.isGiven] using hgiven
        rw [hnil]
        rfl
      | _ => rfl
    · rw [Option.filter_some_pos hgiven] at h
      cases v with
      | mapping es =>
        cases h
        rfl
      | _ => cases h

theorem unambiguous_section? (hs : s.IsUnambiguous) (h : s.section? name = .ok sec) :
    ∀ e ∈ sec, Json.Unambiguous e.2 := by
  unfold section? at h
  split at h
  · cases h
    exact nofun
  · rename_i es hv
    cases h
    obtain ⟨hv, -⟩ := Option.filter_eq_some_iff.1 hv
    cases hs.2 _ (Assoc.mem_of_find? hv) with
    | other hne => exact (hne _ rfl).elim
    | mapping _ hes =>
      rw [entries_map]
      exact hes
  · cases h

theorem find?_plain {es : List (Value × Value)} (h : Json.Unambiguous (.mapping es))
    (name : Text) : (Assoc.ofEntries (es.map fun e => (e.1.plain, e.2.plain))).find? name =
      ((entries es).find? name).map Value.plain := by
  cases h with
  | other hne => exact (hne _ rfl).elim
  | @mapping m hk _ =>
    have hplain : (m.map fun e => ((.text e.1, e.2) : Value × Value)).map
        (fun e => (e.1.plain, e.2.plain)) = m.map fun e => (e.1, e.2.plain) := by
      rw [List.map_map]
      rfl
    have hkeys : Assoc.keys (m.map fun e => (e.1, e.2.plain)) = m.keys := by
      rw [Assoc.keys, List.map_map]
      rfl
    rw [hplain, Assoc.ofEntries_eq_self (hkeys ▸ hk), entries_map]
    exact Assoc.find?_map_values m Value.plain name

theorem find?_prefixes (hs : s.IsUnambiguous) (hp : s.prefixes env = .ok p) (name : Text) :
    p.find? name = s.filePrefix name := by
  obtain ⟨sec', hsec', hp'⟩ := exists_ok_of_bind hp
  obtain ⟨sec, hsec, -⟩ := exists_ok_of_bind hsec'
  obtain ⟨sec'', hsame, hgiven⟩ := given?_prefixes hsec (nodup_section? hs hsec) env
  obtain rfl : sec'' = sec' := Except.ok.inj (hsame.symm.trans hsec')
  rw [hgiven, given?] at hp'
  rw [filePrefix, fileSetting_of_section? hsec]
  cases hv : sec.find? "prefixes" with
  | none =>
    rw [hv] at hp'
    cases hp'
    rfl
  | some v =>
    rw [hv] at hp'
    rcases hg : v.isGiven with _ | _
    · rw [Option.filter_some_neg (by simp [hg])] at hp'
      cases hp'
      cases v with
      | mapping es =>
        have hnil : es = [] := by simpa [Value.isGiven] using hg
        rw [hnil]
        rfl
      | _ => rfl
    · rw [Option.filter_some_pos hg] at hp'
      cases v with
      | mapping es =>
        cases hp'
        exact find?_plain (unambiguous_section? hs hsec _ (Assoc.mem_of_find? hv)) name
      | _ => cases hp'

/-! ### The layers of a session -/

/-- In the section, the environment has replaced the file, and nothing stands for what neither
gives. -/
theorem choose_eq_layered {override : Option Text} {file : Option Value}
    (h : sec.find? name = (override.map Value.text).or (file.or (some .null)))
    (argument : Option Text) : choose argument sec name = layered argument override file := by
  have hgiven : (given? sec name).map Value.plain = layered none override file := by
    rw [given?, h]
    rcases override with _ | (_ | ⟨c, r⟩)
    · rcases file with _ | v
      · rfl
      · rfl
    · rfl
    · rfl
  rw [choose, hgiven]
  rcases argument with _ | (_ | ⟨c, r⟩)
  · rfl
  · rcases override with _ | (_ | ⟨c, r⟩)
    · rfl
    · rfl
    · rfl
  · rfl

theorem exists_processor (h : s.section? "processor" = .ok sec) (hn : sec.keys.Nodup)
    (env : Environment) : ∃ sec', s.processor env = .ok sec' ∧
      (∀ argument, choose argument sec' "subject" =
        layered argument env.subject (s.fileSetting "subject")) ∧
      ∀ argument, choose argument sec' "graph" =
        layered argument env.graph (s.fileSetting "graph") := by
  refine ⟨_, by rw [processor, h]; rfl, choose_eq_layered ?_, choose_eq_layered ?_⟩
  · rw [find?_override_of_ne (by decide), find?_override_self, Assoc.find?_overlay hn,
      fileSetting_of_section? h]
    rfl
  · rw [find?_override_self, find?_override_of_ne (by decide), Assoc.find?_overlay hn,
      fileSetting_of_section? h]
    rfl

/-- A session is made exactly if some layer gives a subject. Replacing the prefixes of the file
leaves its other settings. -/
theorem session_layers (h : s.section? "processor" = .ok sec) (hn : sec.keys.Nodup)
    (hp : p.keys.Nodup) (subject graph : Option Text) :
    (s.withPrefixes p >>= fun s => s.session env subject graph .absent) =
      match layered subject env.subject (s.fileSetting "subject") with
      | none => .error (.configuration .missingSubject)
      | some t => .ok ⟨resource t,
          (layered graph env.graph (s.fileSetting "graph")).map resource,
          Prefixes.default.overlay p, none⟩ := by
  obtain ⟨s', hs', hsec⟩ := section?_withPrefixes h p
  have hkeep : ∀ name : Text, name ≠ "prefixes" → s'.fileSetting name = s.fileSetting name :=
    fun name hne => by
      rw [fileSetting_of_section? hsec, fileSetting_of_section? h]
      exact Assoc.find?_insert_of_ne hne
  have hprefixes : s'.prefixes env = .ok p := prefixes_of_entries hsec hn hp
  obtain ⟨sec', hsec', hsubject, hgraph⟩ :=
    exists_processor hsec (Assoc.nodup_keys_alter _ hn) env
  rw [hkeep _ (by decide)] at hsubject hgraph
  simp only [hs', session, hsec', hprefixes, bind, Except.bind, hsubject, hgraph]
  rcases layered subject env.subject (s.fileSetting "subject") with _ | t
  · rfl
  · rfl

end Settings

end FormEdits
