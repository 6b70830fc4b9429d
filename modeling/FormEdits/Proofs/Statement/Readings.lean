import FormEdits.Proofs.Form
import FormEdits.Proofs.Key.Template
import FormEdits.Proofs.Result

/-! # The statements that a form makes

The `readings` of a form are its statement templates, in order, with the values that each is used
with; all that its macros are replaced by is in them. The edits of a submission are those of its
readings one after another, up to the first error (`Candidate.edits_agree`). -/

namespace FormEdits

/-- A template with the values of its field, as they were submitted and as it is used with them. -/
structure Reading where
  template : Template
  raw : List Text
  values : List Text
deriving DecidableEq, Repr

namespace Template

/-- A reverse statement whose value would be a literal. -/
def isDropped (t : Template) : Bool := t.modifiers.reverse && !t.effectiveDesignator.isResource

/-- A template with its values: expanded if it asks for that, then trimmed, each once. -/
def read (t : Template) (m : Expansions) (raw : List Text) (supply : Supply) : Reading × Supply :=
  let (used, supply) :=
    if t.expandsValues && !t.isDropped then Macros.expandAll m raw supply else (raw, supply)
  (⟨t, raw, Statement.trimmedValues used⟩, supply)

def readAll (m : Expansions) (raw : List Text) : List Template → Supply → List Reading × Supply
  | [], supply => ([], supply)
  | t :: ts, supply =>
    let (r, supply) := t.read m raw supply
    let (rest, supply) := readAll m raw ts supply
    (r :: rest, supply)

end Template

/-- The readings of candidates, one after another. -/
def Candidate.readings (m : Expansions) : List Candidate → Supply → List Reading × Supply
  | [], supply => ([], supply)
  | c :: cs, supply =>
    let (templates, supply) := c.templates m supply
    let (here, supply) := Template.readAll m c.values templates supply
    let (rest, supply) := readings m cs supply
    (here ++ rest, supply)

/-- The readings of a form; a form that is refused has none. -/
def Session.readings (s : Session) (form : Submission) (supply : Supply) : List Reading :=
  match form.fields with
  | .error _ => []
  | .ok fields =>
    let sorted := Sorted.ofFields fields
    match Macros.resolve sorted.table supply with
    | (.error _, _) => []
    | (.ok m, supply) =>
      match s.applySpecials m Special.all supply with
      | (.error _, _) => []
      | (.ok _, supply) => (Candidate.readings m sorted.candidates supply).1

/-! ### The templates of readings -/

theorem Template.mem_of_mem_readAll {m : Expansions} {raw : List Text} {ts : List Template}
    {supply : Supply} {r : Reading} (h : r ∈ (readAll m raw ts supply).1) : r.template ∈ ts := by
  induction ts generalizing supply with
  | nil => cases h
  | cons t ts ih =>
    rcases List.mem_cons.1 h with rfl | h
    · exact List.mem_cons_self ..
    · exact List.mem_cons_of_mem _ (ih h)

theorem Candidate.isRenderable_of_mem_readings {m : Expansions} {cs : List Candidate}
    (hc : ∀ c ∈ cs, ∀ t, c.key = .statement t → t.IsRenderable) {supply : Supply} {r : Reading}
    (h : r ∈ (readings m cs supply).1) : r.template.IsRenderable := by
  induction cs generalizing supply with
  | nil => cases h
  | cons c cs ih =>
    rcases List.mem_append.1 h with h | h
    · have ht : r.template ∈ (c.templates m supply).1 := Template.mem_of_mem_readAll h
      rw [Candidate.templates.eq_def] at ht
      split at ht
      · rename_i t hk
        rw [List.mem_singleton.1 ht]
        exact hc c (List.mem_cons_self ..) t hk
      · obtain ⟨text, -, ht⟩ := List.mem_filterMap.1 ht
        exact Template.isRenderable_of_parse? ht
      all_goals cases ht
    · exact ih (fun c hc' => hc c (List.mem_cons_of_mem _ hc')) h

/-! ### The edits of readings -/

namespace Reading

variable {s : Session} {r : Reading} {rs rs' : List Reading}

def edits (s : Session) (r : Reading) : Except Error (List Edit) :=
  if r.template.isDropped then .ok []
  else do
    let st ← Statement.ofTemplate s r.template
    Statement.edits s st r.template.modifiers r.template.effectiveDesignator r.values

/-- The edits of readings one after another, up to the first error. -/
def allEdits (s : Session) (rs : List Reading) : Except Error (List Edit) :=
  (rs.mapM (edits s)).map List.flatten

theorem allEdits_cons : allEdits s (r :: rs) =
    (r.edits s).bind fun here => (allEdits s rs).map (here ++ ·) := by
  rw [allEdits, allEdits, List.mapM_cons]
  rcases r.edits s with e | here
  · rfl
  · rcases rs.mapM (edits s) with e | rest
    · rfl
    · rfl

theorem allEdits_singleton : allEdits s [r] = r.edits s := by
  rw [allEdits_cons]
  rcases r.edits s with e | here
  · rfl
  · exact congrArg Except.ok (List.append_nil here)

theorem allEdits_append : allEdits s (rs ++ rs') =
    (allEdits s rs).bind fun here => (allEdits s rs').map (here ++ ·) := by
  induction rs with
  | nil =>
    rw [List.nil_append, show allEdits s [] = .ok [] from rfl, Except.bind]
    rcases allEdits s rs' with e | rest
    · rfl
    · rfl
  | cons r rs ih =>
    rw [List.cons_append, allEdits_cons, allEdits_cons, ih]
    rcases r.edits s with e | here
    · rfl
    rcases allEdits s rs with e | rest
    · rfl
    rcases allEdits s rs' with e | rest'
    · rfl
    · exact congrArg Except.ok (List.append_assoc here rest rest').symm

theorem mem_allEdits {es : List Edit} (h : allEdits s rs = .ok es) :
    (∀ r ∈ rs, ∃ here, r.edits s = .ok here ∧ ∀ e ∈ here, e ∈ es) ∧
      ∀ e ∈ es, ∃ r ∈ rs, ∃ here, r.edits s = .ok here ∧ e ∈ here := by
  induction rs generalizing es with
  | nil => cases h; simp
  | cons r rs ih =>
    rw [allEdits_cons] at h
    obtain ⟨here, hr, h⟩ := exists_ok_of_bind h
    obtain ⟨rest, hrs, rfl⟩ := exists_ok_of_map h
    obtain ⟨hread, hmem⟩ := ih hrs
    constructor
    · intro r' hr'
      rcases List.mem_cons.1 hr' with rfl | hr'
      · exact ⟨here, hr, fun e he => List.mem_append_left _ he⟩
      · obtain ⟨here', h', hsub⟩ := hread r' hr'
        exact ⟨here', h', fun e he => List.mem_append_right _ (hsub e he)⟩
    · intro e he
      rcases List.mem_append.1 he with he | he
      · exact ⟨r, List.mem_cons_self .., here, hr, he⟩
      · obtain ⟨r', hr', h'⟩ := hmem e he
        exact ⟨r', List.mem_cons_of_mem _ hr', h'⟩

/-! ### Edits and readings side by side -/

/-- A computation of edits agrees with one of readings: it makes their edits and, unless it fails,
leaves the same supply. -/
def Agree (s : Session) (x : Except Error (List Edit) × Supply) (y : List Reading × Supply) :
    Prop :=
  x.1 = allEdits s y.1 ∧ ∀ es, x.1 = .ok es → x.2 = y.2

/-- Edits, and then further ones unless these fail. -/
def andThen (x : Except Error (List Edit) × Supply)
    (f : Supply → Except Error (List Edit) × Supply) : Except Error (List Edit) × Supply :=
  match x with
  | (.error e, supply) => (.error e, supply)
  | (.ok here, supply) => ((f supply).1.map (here ++ ·), (f supply).2)

theorem Agree.andThen {x : Except Error (List Edit) × Supply} {y : List Reading × Supply}
    {f : Supply → Except Error (List Edit) × Supply} {g : Supply → List Reading × Supply}
    (hx : Agree s x y) (hf : ∀ supply, Agree s (f supply) (g supply)) :
    Agree s (andThen x f) (y.1 ++ (g y.2).1, (g y.2).2) := by
  obtain ⟨hedits, hsupply⟩ := hx
  rw [Agree, allEdits_append, ← hedits]
  rcases x with ⟨e | here, supply⟩
  · exact ⟨rfl, fun es h => by cases h⟩
  · obtain rfl : supply = y.2 := hsupply here rfl
    obtain ⟨hrest, hleft⟩ := hf y.2
    refine ⟨congrArg (Except.map (here ++ ·)) hrest, fun es h => ?_⟩
    rcases hr : (f y.2).1 with e | rest
    · simp only [Reading.andThen, hr] at h; cases h
    · exact hleft rest hr

end Reading

open Reading (Agree)

variable {s : Session} {m : Expansions}

theorem Template.edits_agree (t : Template) (raw : List Text) (supply : Supply) :
    Agree s (t.edits s m raw supply)
      ([(t.read m raw supply).1], (t.read m raw supply).2) := by
  rw [Agree, Reading.allEdits_singleton]
  rcases hd : t.isDropped with _ | _
  · have hd' : (t.modifiers.reverse && !t.effectiveDesignator.isResource) = false := hd
    simp only [edits, read, Reading.edits, hd, hd', Bool.not_false, Bool.and_true,
      Bool.false_eq_true, if_false]
    rcases Statement.ofTemplate s t with e | st
    · exact ⟨rfl, fun es h => by cases h⟩
    · exact ⟨rfl, fun es h => rfl⟩
  · have hd' : (t.modifiers.reverse && !t.effectiveDesignator.isResource) = true := hd
    simp only [edits, read, Reading.edits, hd, hd', Bool.not_true, Bool.and_false,
      Bool.false_eq_true, if_false, if_true]
    exact ⟨trivial, fun _ _ => trivial⟩

namespace Candidate

theorem templateEdits_agree (raw : List Text) (ts : List Template) (supply : Supply) :
    Agree s (templateEdits s m raw ts supply) (Template.readAll m raw ts supply) := by
  induction ts generalizing supply with
  | nil => exact ⟨rfl, fun _ _ => rfl⟩
  | cons t ts ih => exact (t.edits_agree raw supply).andThen ih

theorem edits_agree (cs : List Candidate) (supply : Supply) :
    Agree s (edits s m cs supply) (readings m cs supply) := by
  induction cs generalizing supply with
  | nil => exact ⟨rfl, fun _ _ => rfl⟩
  | cons c cs ih => exact (templateEdits_agree c.values _ _).andThen ih

end Candidate

/-! ### Submissions -/

namespace Session

theorem submit_of_applySpecials {s' : Session} {form : Submission} {fields : List Field}
    {supply supply₁ supply₂ : Supply} (hf : form.fields = .ok fields)
    (hm : Macros.resolve (Sorted.ofFields fields).table supply = (.ok m, supply₁))
    (hs : s.applySpecials m Special.all supply₁ = (.ok s', supply₂)) :
    s.readings form supply = (Candidate.readings m (Sorted.ofFields fields).candidates supply₂).1 ∧
      (s.submit form supply).session = s' ∧
      (s.submit form supply).edits =
        (Reading.allEdits s' (s.readings form supply)).map EditSet.ofEdits := by
  have hr : s.readings form supply =
      (Candidate.readings m (Sorted.ofFields fields).candidates supply₂).1 := by
    simp only [readings, hf, hm, hs]
  refine ⟨hr, by simp only [submit, submitSorted, hf, hm, hs], ?_⟩
  rw [hr, ← (Candidate.edits_agree _ _).1]
  simp only [submit, submitSorted, hf, hm, hs]

/-- A submission fails before any statement is read, and then leaves the session; or its macros are
resolved and the special ones change the session. -/
theorem submit_stages (s : Session) (form : Submission) (supply : Supply) :
    ((∃ e, (s.submit form supply).edits = .error e) ∧ (s.submit form supply).session = s ∧
      s.readings form supply = []) ∨
    ∃ fields m supply₁ s' supply₂, form.fields = .ok fields ∧
      Macros.resolve (Sorted.ofFields fields).table supply = (.ok m, supply₁) ∧
      s.applySpecials m Special.all supply₁ = (.ok s', supply₂) := by
  rcases hf : form.fields with e | fields
  · refine .inl ⟨⟨e, ?_⟩, ?_, ?_⟩ <;> simp only [submit, readings, hf]
  rcases hm : Macros.resolve (Sorted.ofFields fields).table supply with ⟨e | m, supply₁⟩
  · refine .inl ⟨⟨e, ?_⟩, ?_, ?_⟩ <;> simp only [submit, submitSorted, readings, hf, hm]
  rcases hs : s.applySpecials m Special.all supply₁ with ⟨e | s', supply₂⟩
  · refine .inl ⟨⟨e, ?_⟩, ?_, ?_⟩ <;> simp only [submit, submitSorted, readings, hf, hm, hs]
  · exact .inr ⟨fields, m, supply₁, s', supply₂, rfl, hm, hs⟩

theorem isRenderable_of_mem_readings {form : Submission} {supply : Supply} {r : Reading}
    (h : r ∈ s.readings form supply) : r.template.IsRenderable := by
  rcases s.submit_stages form supply with ⟨-, -, hnil⟩ | ⟨fields, m, supply₁, s', supply₂, hf, hm, hs⟩
  · rw [hnil] at h; cases h
  rw [(submit_of_applySpecials hf hm hs).1] at h
  refine Candidate.isRenderable_of_mem_readings (fun c hc t hk => ?_) h
  rw [Sorted.candidates_ofFields] at hc
  obtain ⟨f, -, hf⟩ := List.mem_filterMap.1 hc
  exact Template.isRenderable_of_parse? (Candidate.parse?_of_ofField? hf hk)

theorem allEdits_of_submit {form : Submission} {supply : Supply} {set : EditSet}
    (h : (s.submit form supply).edits = .ok set) :
    ∃ es, Reading.allEdits (s.submit form supply).session (s.readings form supply) = .ok es ∧
      set = .ofEdits es := by
  rcases s.submit_stages form supply with ⟨⟨e, he⟩, -⟩ | ⟨fields, m, supply₁, s', supply₂, hf, hm, hs⟩
  · rw [he] at h; cases h
  obtain ⟨-, hsession, hedits⟩ := submit_of_applySpecials hf hm hs
  rw [hedits] at h
  rw [hsession]
  obtain ⟨es, hes, rfl⟩ := exists_ok_of_map h
  exact ⟨es, hes, rfl⟩

end Session

end FormEdits
