import FormEdits.Proofs.Macros.Table
import FormEdits.Submission
import Mathlib.Data.List.Forall2

/-! # The fields of a form

The macro table of a form is that of its `declarations` alone, and its candidates are those of the
other fields. -/

namespace FormEdits

/-- The declarations among the fields of a form, with their values. -/
def declarations (fields : List Field) : List (Text × List Text × Bool) :=
  fields.filterMap fun f => (Declaration.parse? f.1).map fun d => (d.name, f.2, d.pending)

/-- Whether a field declares no macro. -/
def declaresNothing (f : Field) : Bool := (Declaration.parse? f.1).isNone

theorem declarations_filter_of_parse? {q : Field → Bool} {p : Text → Bool}
    (h : ∀ f d, Declaration.parse? f.1 = some d → q f = p d.name) (fields : List Field) :
    declarations (fields.filter q) = (declarations fields).filter fun d => p d.1 := by
  rw [declarations, declarations, List.filterMap_filter, List.filter_filterMap]
  refine List.filterMap_congr fun f _ => ?_
  rcases hd : Declaration.parse? f.1 with _ | d
  · simp
  · simp [h f d hd, Option.filter_some]

/-! ### Forms given as mappings -/

/-- The value of a field holds these texts: as a list, or as the only one by itself. -/
inductive Value.Holds : Value → List Text → Prop
  | list (ts : List Text) : Holds (.list (ts.map .text)) ts
  | text (t : Text) : Holds (.text t) [t]

theorem Value.Holds.mapM_fieldText {v : Value} {ts : List Text} (h : v.Holds ts) :
    v.items.mapM fieldText = .ok ts := by
  cases h with
  | text t => rfl
  | list ts =>
    show (ts.map Value.text).mapM fieldText = .ok ts
    induction ts with
    | nil => rfl
    | cons t ts ih =>
      rw [List.map_cons, List.mapM_cons, ih]
      rfl

/-- Members with the keys of the fields, in their order, whose values hold those of the fields. -/
def MembersOf (ms : List (Text × Value)) (fields : List Field) : Prop :=
  List.Forall₂ (fun m f => m.1 = f.1 ∧ m.2.Holds f.2) ms fields

theorem Submission.textEntries_map (ms : List (Text × Value)) :
    textEntries (ms.map fun m => (.text m.1, m.2)) = ms := by
  simp [textEntries, List.filterMap_map]

namespace MembersOf

variable {ms : List (Text × Value)} {fields : List Field}

theorem keys_eq (h : MembersOf ms fields) : Assoc.keys ms = Assoc.keys fields := by
  induction h with
  | nil => rfl
  | cons hm _ ih => exact congrArg₂ List.cons hm.1 ih

theorem lists (fields : List Field) :
    MembersOf (fields.map fun f => (f.1, .list (f.2.map .text))) fields := by
  induction fields with
  | nil => exact .nil
  | cons f fields ih => exact .cons ⟨rfl, .list f.2⟩ ih

theorem fields_eq (h : MembersOf ms fields) :
    (Submission.value (.mapping (ms.map fun m => (.text m.1, m.2)))).fields = .ok fields := by
  rw [Submission.fields, Submission.values, Submission.textEntries_map]
  show (ms.map fun m => (m.1, m.2.items)).mapM (fun f =>
    (f.2.mapM Value.fieldText).map fun ts => (f.1, ts)) = .ok fields
  induction h with
  | nil => rfl
  | @cons m f _ _ hm _ ih =>
    obtain ⟨hkey, hvalue⟩ := hm
    rw [List.map_cons, List.mapM_cons, ih, hvalue.mapM_fieldText, hkey]
    rfl

end MembersOf

theorem Submission.fields_ofFields (fields : List Field) :
    (ofFields fields).fields = .ok fields := by
  have h := (MembersOf.lists fields).fields_eq
  rw [List.map_map] at h
  exact h

namespace Sorted

theorem table_add (sorted : Sorted) (f : Field) :
    (sorted.add f).table = (declarations [f]).foldl (fun table d => table.declare d.1 d.2.1 d.2.2)
      sorted.table := by
  rcases hd : Declaration.parse? f.1 with _ | d
  · have hk : ∀ d, Key.classify f.1 ≠ .declaration d := by
      intro d h
      simp only [Key.classify, hd] at h
      split at h
      · cases h
      · split at h <;> cases h
    simp only [declarations, List.filterMap_cons, hd, Option.map_none, List.filterMap_nil,
      List.foldl_nil, add]
    split
    · rename_i d h; exact absurd h (hk d)
    · rfl
    · rfl
  · have hk : Key.classify f.1 = .declaration d := by simp only [Key.classify, hd]
    simp [add, hk, declarations, hd]

theorem table_ofFields (fields : List Field) :
    (ofFields fields).table = .ofDeclarations (declarations fields) := by
  unfold ofFields MacroTable.ofDeclarations
  show (fields.foldl add ⟨.initial, []⟩).table =
    (declarations fields).foldl _ (Sorted.mk .initial []).table
  generalize (⟨.initial, []⟩ : Sorted) = sorted
  induction fields generalizing sorted with
  | nil => rfl
  | cons f fields ih =>
    have hc : declarations (f :: fields) = declarations [f] ++ declarations fields := by
      simp only [declarations, ← List.filterMap_append, List.singleton_append]
    rw [List.foldl_cons, ih, table_add, hc, List.foldl_append]

end Sorted

namespace Candidate

/-- The candidate that a field is. -/
def ofField? (f : Field) : Option Candidate :=
  match Key.classify f.1 with
  | .declaration _ | .unrecognized => none
  | key => some ⟨key, f.2⟩

theorem ofField?_of_declaration {f : Field} {d : Declaration} (h : Declaration.parse? f.1 = some d) :
    ofField? f = none := by
  simp only [ofField?, Key.classify, h]

theorem classify_of_ofField? {f : Field} {c : Candidate} (h : ofField? f = some c) :
    Key.classify f.1 = c.key := by
  rcases hc : Key.classify f.1 with d | t | text | _ <;> simp only [ofField?, hc] at h <;> cases h
  · rfl
  · rfl

theorem parse?_of_ofField? {f : Field} {c : Candidate} {t : Template} (h : ofField? f = some c)
    (hk : c.key = .statement t) : Template.parse? f.1 = some t := by
  have hc := (classify_of_ofField? h).trans hk
  rw [Key.classify] at hc
  split at hc
  · cases hc
  split at hc
  · cases hc
  split at hc
  · cases hc; assumption
  · cases hc

theorem unexpanded_of_ofField? {f : Field} {c : Candidate} {text : Text} (h : ofField? f = some c)
    (hk : c.key = .unexpanded text) : Declaration.parse? f.1 = none ∧ text = f.1 := by
  have hc := (classify_of_ofField? h).trans hk
  rw [Key.classify] at hc
  split at hc
  · cases hc
  rename_i hd
  split at hc
  · cases hc
    exact ⟨hd, rfl⟩
  · split at hc <;> cases hc

end Candidate

theorem Sorted.candidates_ofFields (fields : List Field) :
    (ofFields fields).candidates = fields.filterMap Candidate.ofField? := by
  have h : ∀ sorted : Sorted, (fields.foldl add sorted).candidates =
      sorted.candidates ++ fields.filterMap Candidate.ofField? := by
    induction fields with
    | nil => intro sorted; exact (List.append_nil _).symm
    | cons f fields ih =>
      intro sorted
      rw [List.foldl_cons, ih, List.filterMap_cons, Candidate.ofField?, add]
      rcases Key.classify f.1 with d | t | text | _
      · rfl
      · exact List.append_assoc ..
      · exact List.append_assoc ..
      · rfl
  exact h ⟨.initial, []⟩

theorem Sorted.candidates_filter_of_parse? {q : Field → Bool}
    (h : ∀ f, Declaration.parse? f.1 = none → q f) (fields : List Field) :
    (ofFields (fields.filter q)).candidates = (ofFields fields).candidates := by
  rw [candidates_ofFields, candidates_ofFields, List.filterMap_filter]
  refine List.filterMap_congr fun f _ => ?_
  rcases hd : Declaration.parse? f.1 with _ | d
  · rw [if_pos (h f hd)]
  · rw [Candidate.ofField?_of_declaration hd, ite_self]

end FormEdits
