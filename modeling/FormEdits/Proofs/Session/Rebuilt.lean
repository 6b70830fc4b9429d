import FormEdits.Proofs.Session.Changes
import FormEdits.Proofs.Statement.Readings

/-! # Sessions built from their parts

However many submissions have changed a session, its prefixes are the known ones with others laid
over them. So a session that is built from the parts of it is the same one (`rebuilt_eq`). -/

namespace FormEdits

namespace Prefixes

/-- The prefixes are the known ones with others laid over them. -/
def Extend (p : Prefixes) : Prop := ∃ es, p = default.overlay es

theorem extend_of_ofValue {v : Value} {p : Prefixes} (h : ofValue v = .ok p) : p.Extend := by
  rw [ofValue.eq_def] at h
  split at h
  · cases h; exact ⟨[], rfl⟩
  · cases h; exact ⟨_, rfl⟩
  · cases h

theorem bind_eq_overlay (p : Prefixes) (lines : List PrefixLine) :
    p.bind lines = p.overlay (lines.map fun l => (l.name, l.iri)) := by
  rw [Assoc.overlay, List.foldl_map, Prefixes.bind]

theorem Extend.bind {p : Prefixes} (h : p.Extend) (lines : List PrefixLine) :
    (p.bind lines).Extend := by
  obtain ⟨es, rfl⟩ := h
  refine ⟨es ++ lines.map fun l => (l.name, l.iri), ?_⟩
  rw [bind_eq_overlay, Assoc.overlay, Assoc.overlay, Assoc.overlay, List.foldl_append]

theorem Extend.overlay_default {p : Prefixes} (h : p.Extend) : default.overlay p = p := by
  obtain ⟨es, rfl⟩ := h
  exact Assoc.overlay_overlay_self (by decide) es

end Prefixes

namespace Session

variable {s s' : Session}

def rebuilt (s : Session) : Except Error Session :=
  ofValues (.term s.subject) ((s.graph.map fun g => Value.term g).getD .null)
    (.mapping (s.prefixes.map fun e => (.text e.1, .text e.2)))
    (match s.replacement with
      | none => .absent
      | some f => .function f)

theorem rebuilt_eq_self (h : s.prefixes.Extend) : s.rebuilt = .ok s := by
  obtain ⟨subject, graph, prefixes, replacement⟩ := s
  have hs : (Value.term subject).resource? = some subject := by cases subject <;> rfl
  have hg : graphOf ((graph.map fun g => Value.term g).getD .null) = .ok graph := by
    rcases graph with _ | (t | l) <;> rfl
  have hp : Prefixes.ofValue (.mapping (prefixes.map fun e => (.text e.1, .text e.2))) =
      .ok prefixes := by
    have hmap : (prefixes.map fun e => (Value.text e.1, Value.text e.2)).map
        (fun e => (e.1.plain, e.2.plain)) = prefixes := by
      simp [List.map_map, Function.comp_def, Value.plain]
    show Except.ok (Prefixes.default.overlay _) = _
    rw [hmap, h.overlay_default]
  simp only [rebuilt, ofValues, hs, hg, hp]
  cases replacement <;> rfl

theorem extend_of_ofValues {subject graph prefixes : Value} {replacement : ReplacementSetting}
    (h : ofValues subject graph prefixes replacement = .ok s) : s.prefixes.Extend := by
  unfold ofValues at h
  split at h
  · cases h
  obtain ⟨g, -, h⟩ := exists_ok_of_bind h
  obtain ⟨p, hp, h⟩ := exists_ok_of_bind h
  have hs : s.prefixes = p := by
    rcases replacement with _ | f | _ <;> cases h <;> rfl
  exact hs ▸ Prefixes.extend_of_ofValue hp

/-- What applying the special macros of a form makes of a session, whatever function replaces its
terms. -/
theorem changedBy_of_applySpecials {ds : List (Text × List Text × Bool)} {m : Expansions}
    {supply supply₁ supply₂ : Supply}
    (hm : Macros.resolve (.ofDeclarations ds) supply = (.ok m, supply₁))
    (ha : s.applySpecials m Special.all supply₁ = (.ok s', supply₂)) :
    s.ChangedBy (fun sp => m.texts sp.name) s' := by
  have ht := MacroTable.wellFormed_ofDeclarations ds
  obtain ⟨hs, hk⟩ := Macros.settled_of_resolve ht (s := supply) (m := m) (by rw [hm])
  have hv : ∀ sp : Special, (m.find? sp.name).getD [] = (m.texts sp.name).map .text :=
    fun sp => hs.values_eq_texts ht (hk.symm.nodup ht.nodup) sp.ofName?_name
  rcases s.applySpecials_cases hv supply₁ with ⟨s'', ha', hc⟩ | ⟨sp, fault, ha'⟩
  · rw [ha'] at ha; cases ha
    exact (hc s').2 rfl
  · rw [ha'] at ha; cases ha

theorem extend_of_applySpecials {ds : List (Text × List Text × Bool)} {m : Expansions}
    {supply supply₁ supply₂ : Supply} (h : s.prefixes.Extend)
    (hm : Macros.resolve (.ofDeclarations ds) supply = (.ok m, supply₁))
    (ha : s.applySpecials m Special.all supply₁ = (.ok s', supply₂)) : s'.prefixes.Extend := by
  obtain ⟨lines, -, hp⟩ := (changedBy_of_applySpecials hm ha).prefixes
  rw [hp]
  exact h.bind lines

theorem exists_bind_of_submit (s : Session) (form : Submission) (supply : Supply) :
    ∃ lines, (s.submit form supply).session.prefixes = s.prefixes.bind lines := by
  rcases s.submit_stages form supply with ⟨-, hs, -⟩ | ⟨fields, m, supply₁, s', supply₂, hf, hm, ha⟩
  · exact ⟨[], by rw [hs]; rfl⟩
  · obtain ⟨-, hs, -⟩ := submit_of_applySpecials hf hm ha
    rw [Sorted.table_ofFields] at hm
    obtain ⟨lines, -, hp⟩ := (changedBy_of_applySpecials hm ha).prefixes
    exact ⟨lines, by rw [hs, hp]⟩

theorem extend_of_submit (h : s.prefixes.Extend) (form : Submission) (supply : Supply) :
    (s.submit form supply).session.prefixes.Extend := by
  obtain ⟨lines, hp⟩ := s.exists_bind_of_submit form supply
  rw [hp]
  exact h.bind lines

theorem extend_of_submitAll (h : s.prefixes.Extend) (forms : List Submission) (supply : Supply) :
    (s.submitAll forms supply).1.prefixes.Extend :=
  submitAll_induction (P := fun s => s.prefixes.Extend) h
    (fun _ form supply h => extend_of_submit h form supply) forms supply

end Session

end FormEdits
