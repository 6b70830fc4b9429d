import FormEdits.Proofs.Session.Rearranged

/-! # The statements of a form one by one

The statements of a form share the session that its special macros leave and the values of its
macros, and nothing else. So a form makes the edits of the forms that have its declarations and one
of its statements each, one after another, or fails as the first of these that fails
(`Session.submit_separately`). No statement may draw a generated value, since the next one would then
find others. -/

namespace FormEdits

open MacroTable (ofDeclarations IsOrdinary RefersToOrdinary Closed)
open Macros (SameTexts names)

namespace EditSet

/-- The deletes of edit sets one after another, and their inserts. -/
def concat (sets : List EditSet) : EditSet := ⟨sets.flatMap deletes, sets.flatMap inserts⟩

theorem concat_cons (set : EditSet) (sets : List EditSet) : concat (set :: sets) =
    ⟨set.deletes ++ (concat sets).deletes, set.inserts ++ (concat sets).inserts⟩ := rfl

theorem ofEdits_append (es es' : List Edit) : ofEdits (es ++ es') =
    ⟨(ofEdits es).deletes ++ (ofEdits es').deletes,
      (ofEdits es).inserts ++ (ofEdits es').inserts⟩ := by
  simp only [ofEdits, List.filter_append]

end EditSet

/-! ### Readings field by field -/

theorem Reading.allEdits_flatten (s : Session) (rss : List (List Reading)) :
    (allEdits s rss.flatten).map EditSet.ofEdits =
      ((rss.map fun rs => (allEdits s rs).map EditSet.ofEdits).mapM id).map EditSet.concat := by
  induction rss with
  | nil => rfl
  | cons rs rss ih =>
    rw [List.flatten_cons, allEdits_append, List.map_cons, List.mapM_cons]
    rcases allEdits s rs with e | here
    · rfl
    rcases hparts : (rss.map fun rs => (allEdits s rs).map EditSet.ofEdits).mapM id with e | sets
    · rw [hparts] at ih
      rw [map_eq_error_iff.1 ih]
      rfl
    · rw [hparts] at ih
      obtain ⟨rest, hrest, hsets⟩ := exists_ok_of_map ih
      rw [hrest]
      show Except.ok (EditSet.ofEdits (here ++ rest)) =
        .ok (EditSet.concat (EditSet.ofEdits here :: sets))
      rw [EditSet.ofEdits_append, EditSet.concat_cons, hsets]

namespace Candidate

variable {m : Expansions}

theorem readings_append (m : Expansions) (cs cs' : List Candidate) (supply : Supply) :
    readings m (cs ++ cs') supply =
      ((readings m cs supply).1 ++ (readings m cs' (readings m cs supply).2).1,
        (readings m cs' (readings m cs supply).2).2) := by
  induction cs generalizing supply with
  | nil => rfl
  | cons c cs ih => simp only [List.cons_append, readings, ih, List.append_assoc]

theorem filterMap_ofField?_cons (f : Field) (fields : List Field) :
    (f :: fields).filterMap ofField? = (ofField? f).toList ++ fields.filterMap ofField? := by
  rcases hf : ofField? f with _ | c
  · exact List.filterMap_cons_none hf
  · exact List.filterMap_cons_some hf

/-- The readings of the candidate that a field is, if it is one. -/
def readingsOf (m : Expansions) (supply : Supply) (f : Field) : List Reading :=
  (readings m (ofField? f).toList supply).1

/-- If nothing is drawn, the candidates among the fields are read one by one, and with the same texts
of the macros each of them has the same readings by itself. -/
theorem readings_separately (fields : List Field) (supply : Supply)
    (hm : ∀ n, IsOrdinary (fun _ => true) n → SameTexts m m n)
    (hk : ∀ c ∈ fields.filterMap ofField?, ∀ text, c.key = .unexpanded text →
      RefersToOrdinary (fun _ => true) text)
    (hv : ∀ r ∈ (readings m (fields.filterMap ofField?) supply).1,
      (r.template.expandsValues && !r.template.isDropped) →
        ∀ v ∈ r.raw, RefersToOrdinary (fun _ => true) v) :
    ∀ m', (∀ n, IsOrdinary (fun _ => true) n → SameTexts m m' n) → ∀ s,
      (∀ f ∈ fields, readings m' (ofField? f).toList s = (readingsOf m supply f, s)) ∧
      readings m' (fields.filterMap ofField?) s = (fields.flatMap (readingsOf m supply), s) := by
  induction fields with
  | nil => exact fun m' _ s => ⟨fun f hf => (List.not_mem_nil hf).elim, rfl⟩
  | cons f fields ih =>
    rw [filterMap_ofField?_cons] at hk hv
    have hhere : ∀ m', (∀ n, IsOrdinary (fun _ => true) n → SameTexts m m' n) →
        ∀ s, readings m' (ofField? f).toList s = (readingsOf m supply f, s) := by
      intro m' hm'
      obtain ⟨rs, hrs, hrs'⟩ := readings_eq_of_sameTexts supply
        (fun c hc text ht x hx => hm' x (hk c (List.mem_append_left _ hc) text ht x hx))
        (fun r hr he v hmem x hx => hm' x (hv r
          (by rw [readings_append]; exact List.mem_append_left _ hr) he v hmem x hx))
      rw [readingsOf, hrs]
      exact hrs'
    have hrest := ih (fun c hc => hk c (List.mem_append_right _ hc))
      fun r hr => hv r (by rw [readings_append, hhere m hm]; exact List.mem_append_right _ hr)
    intro m' hm' s
    obtain ⟨heach, hall⟩ := hrest m' hm' s
    refine ⟨fun f' hf' => ?_, ?_⟩
    · rcases List.mem_cons.1 hf' with rfl | hf'
      · exact hhere m' hm' s
      · exact heach f' hf'
    · rw [filterMap_ofField?_cons, readings_append, hhere m' hm', hall, List.flatMap_cons]

end Candidate

/-! ### Forms with one statement each -/

/-- A form with the declarations `ds` in their order, of whose fields only `f` declares nothing. -/
def Submission.IsSingle (form : Submission) (ds : List (Text × List Text × Bool)) (f : Field) :
    Prop :=
  ∃ fields, form.fields = .ok fields ∧ declarations fields = ds ∧
    fields.filter declaresNothing = [f]

/-- The form with the declarations among some fields and one other field. -/
def Submission.alone (fields : List Field) (f : Field) : Submission :=
  .ofFields (fields.filter (!declaresNothing ·) ++ [f])

theorem Submission.isSingle_alone {f : Field} (hf : declaresNothing f) (fields : List Field) :
    (alone fields f).IsSingle (declarations fields) f := by
  refine ⟨_, fields_ofFields _, ?_, ?_⟩
  · have hkept : declarations (fields.filter (!declaresNothing ·)) =
        (declarations fields).filter fun _ => true :=
      declarations_filter_of_parse? (p := fun _ => true)
        (fun g d hd => by rw [declaresNothing, hd]; rfl) fields
    have hnone : declarations [f] = [] := by
      simp only [declarations, List.filterMap_cons, Option.isNone_iff_eq_none.1 hf, Option.map_none,
        List.filterMap_nil]
    rw [declarations, List.filterMap_append, ← declarations, ← declarations, hkept, hnone,
      List.filter_true, List.append_nil]
  · rw [List.filter_append, List.filter_filter, List.filter_cons_of_pos hf]
    simp

theorem EditSet.concat_eq_error {e : Error} {runs : List (Except Error EditSet)} (hne : runs ≠ [])
    (h : ∀ run ∈ runs, run = .error e) : (runs.mapM id).map concat = .error e := by
  obtain ⟨run, rest, rfl⟩ := List.exists_cons_of_ne_nil hne
  rw [List.mapM_cons, h run (List.mem_cons_self ..)]
  rfl

theorem Sorted.candidates_eq_filterMap (fields : List Field) : (ofFields fields).candidates =
    (fields.filter declaresNothing).filterMap Candidate.ofField? := by
  rw [← candidates_ofFields]
  refine (candidates_filter_of_parse? (fun f hd => ?_) fields).symm
  rw [declaresNothing, hd]
  rfl

namespace Session

variable {s : Session} {form : Submission} {fields : List Field} {supply : Supply}
  {single : Field → Submission}

/-- Once the macros of some fields are resolved, every form with the same declarations changes the
session in the same way, and makes the edits of its own readings. -/
theorem submit_of_declarations {form' : Submission} {fields' : List Field} {m : Expansions}
    {changed : Except Error Session} (hf' : form'.fields = .ok fields')
    (hd : declarations fields' = declarations fields)
    (hc : Closed (fun _ => true) (declarations fields))
    (hm : (Macros.resolve (ofDeclarations (declarations fields)) supply).1 = .ok m)
    (ha : ∀ supply, s.applySpecials m Special.all supply = (changed, supply)) (supply' : Supply) :
    ∃ m' supply₁, (∀ n, IsOrdinary (fun _ => true) n → SameTexts m m' n) ∧
      (s.submit form' supply').edits = changed.bind fun s' =>
        (Reading.allEdits s' (Candidate.readings m'
          ((fields'.filter declaresNothing).filterMap Candidate.ofField?) supply₁).1).map
            EditSet.ofEdits := by
  obtain ⟨m', hm'⟩ := Macros.exists_resolve_of_entries?_eq (fun _ => rfl) hm supply'
  have hsame : ∀ n, IsOrdinary (fun _ => true) n → SameTexts m m' n :=
    fun n hn => Macros.sameTexts_of_entries?_eq hc (fun _ => rfl) hm hm' hn
  obtain ⟨changed', hb, hb'⟩ :=
    s.applySpecials_of_sameTexts fun sp => hsame sp.name ⟨sp.ofName?_name, rfl⟩
  obtain rfl : changed = changed' := (Prod.mk.inj ((ha supply).symm.trans (hb supply))).1
  rw [← hd] at hm'
  obtain ⟨supply₁, hr⟩ : ∃ supply₁, Macros.resolve (ofDeclarations (declarations fields')) supply' =
      (.ok m', supply₁) := ⟨_, Prod.ext hm' rfl⟩
  refine ⟨m', supply₁, hsame, ?_⟩
  rcases changed with e | s'
  · exact (submit_of_applySpecials_error hf' hr (hb' supply₁)).2
  · rw [← Sorted.table_ofFields] at hr
    obtain ⟨hreadings, -, hedits⟩ := submit_of_applySpecials hf' hr (hb' supply₁)
    rw [hedits, hreadings, Sorted.candidates_eq_filterMap]
    rfl

/-- A form makes the edits of the forms with one of its statements each, and fails as they do. -/
theorem submit_eq_concat (hf : form.fields = .ok fields)
    (hne : fields.filter declaresNothing ≠ [])
    (hs : ∀ f ∈ fields.filter declaresNothing, (single f).IsSingle (declarations fields) f)
    (hu : s.DrawsNothing form fields supply) (supplies : Field → Supply) :
    (s.submit form supply).edits =
      (((fields.filter declaresNothing).map fun f =>
        (s.submit (single f) (supplies f)).edits).mapM id).map EditSet.concat := by
  -- an error before the statements are read is that of each of the forms
  have hfails : ∀ e, (s.submit form supply).edits = .error e →
      (∀ f ∈ fields.filter declaresNothing, (s.submit (single f) (supplies f)).edits = .error e) →
      (s.submit form supply).edits = (((fields.filter declaresNothing).map fun f =>
        (s.submit (single f) (supplies f)).edits).mapM id).map EditSet.concat := by
    intro e he hall
    have hruns : (fields.filter declaresNothing).map (fun f =>
        (s.submit (single f) (supplies f)).edits) ≠ [] := fun h => hne (List.map_eq_nil_iff.1 h)
    rw [he, EditSet.concat_eq_error hruns (List.forall_mem_map.2 hall)]
  rcases hm : (Macros.resolve (ofDeclarations (declarations fields)) supply).1 with e | m
  · refine hfails e (submit_of_resolve_error hf hm).2 fun f hmem => ?_
    obtain ⟨alone, halone, hds, -⟩ := hs f hmem
    refine (submit_of_resolve_error halone ?_).2
    rw [hds]
    exact Macros.resolve_eq_error hm _
  have hself : ∀ n, IsOrdinary (fun _ => true) n → SameTexts m m n :=
    fun n hn => Macros.sameTexts_of_entries?_eq hu.macros (fun _ => rfl) hm hm hn
  obtain ⟨changed, ha, -⟩ :=
    s.applySpecials_of_sameTexts fun sp => hself sp.name ⟨sp.ofName?_name, rfl⟩
  obtain ⟨m₁, supply₁, hm₁, hwhole⟩ := submit_of_declarations hf rfl hu.macros hm ha supply
  have hsingle : ∀ f ∈ fields.filter declaresNothing, ∃ m' supply',
      (∀ n, IsOrdinary (fun _ => true) n → SameTexts m m' n) ∧
      (s.submit (single f) (supplies f)).edits = changed.bind fun s' =>
        (Reading.allEdits s' (Candidate.readings m' (Candidate.ofField? f).toList supply').1).map
          EditSet.ofEdits := by
    intro f hmem
    obtain ⟨alone, halone, hds, hothers⟩ := hs f hmem
    obtain ⟨m', supply', hm', hedits⟩ :=
      submit_of_declarations halone hds hu.macros hm ha (supplies f)
    rw [hothers, Candidate.filterMap_ofField?_cons, List.filterMap_nil, List.append_nil] at hedits
    exact ⟨m', supply', hm', hedits⟩
  rcases changed with e | s'
  · refine hfails e hwhole fun f hmem => ?_
    obtain ⟨m', supply', -, hedits⟩ := hsingle f hmem
    exact hedits
  -- in the one session that they share, the statements are read one by one
  obtain ⟨supply₂, hr⟩ : ∃ supply₂, Macros.resolve (ofDeclarations (declarations fields)) supply =
      (.ok m, supply₂) := ⟨_, Prod.ext hm rfl⟩
  rw [← Sorted.table_ofFields] at hr
  obtain ⟨hreadings, -, -⟩ := submit_of_applySpecials hf hr (ha supply₂)
  rw [Sorted.candidates_eq_filterMap] at hreadings
  have hseparate := Candidate.readings_separately (fields.filter declaresNothing) supply₂ hself
    (fun c hc text hk => by
      obtain ⟨f, hmem, hof⟩ := List.mem_filterMap.1 hc
      obtain ⟨hd, rfl⟩ := Candidate.unexpanded_of_ofField? hof hk
      exact hu.keys f (List.mem_of_mem_filter hmem) hd)
    (fun r hmem he => hu.values r (hreadings ▸ hmem) he)
  have hruns : ∀ f ∈ fields.filter declaresNothing, (s.submit (single f) (supplies f)).edits =
      (Reading.allEdits s' (Candidate.readingsOf m supply₂ f)).map EditSet.ofEdits := by
    intro f hmem
    obtain ⟨m', supply', hm', hedits⟩ := hsingle f hmem
    rw [hedits, (hseparate m' hm' supply').1 f hmem]
    rfl
  rw [hwhole, (hseparate m₁ hm₁ supply₁).2, List.map_congr_left hruns]
  show (Reading.allEdits s' _).map EditSet.ofEdits = _
  rw [List.flatMap, Reading.allEdits_flatten, List.map_map]
  rfl

/-- The statements of a form do not touch each other: it has edits exactly if each of its statements
has, submitted with the declarations alone, and its inserts and its deletes are theirs, in the order
of the statements. Otherwise it fails as the first of them that does. No statement and no macro may
use a generated one; the clock and the identifiers may be others each time. -/
theorem submit_separately (s : Session) (form : Submission) (fields : List Field) (supply : Supply)
    (single : Field → Submission) (supplies : Field → Supply) (hf : form.fields = .ok fields)
    (hne : fields.filter declaresNothing ≠ [])
    (hs : ∀ f ∈ fields.filter declaresNothing, (single f).IsSingle (declarations fields) f)
    (hu : s.DrawsNothing form fields supply) :
    ((∃ set, (s.submit form supply).edits = .ok set) ↔
      ∀ f ∈ fields.filter declaresNothing, ∃ set, (s.submit (single f) (supplies f)).edits = .ok set) ∧
    (∀ set, (s.submit form supply).edits = .ok set → ∃ sets : List EditSet,
      List.Forall₂ (fun f set => (s.submit (single f) (supplies f)).edits = .ok set)
        (fields.filter declaresNothing) sets ∧
      set.inserts = sets.flatMap (·.inserts) ∧ set.deletes = sets.flatMap (·.deletes)) ∧
    ∀ before f after e, fields.filter declaresNothing = before ++ f :: after →
      (∀ f' ∈ before, ∃ set, (s.submit (single f') (supplies f')).edits = .ok set) →
      (s.submit (single f) (supplies f)).edits = .error e →
      (s.submit form supply).edits = .error e := by
  have hedits := submit_eq_concat hf hne hs hu supplies
  rw [List.mapM_map] at hedits
  refine ⟨⟨?_, ?_⟩, ?_, ?_⟩
  · rintro ⟨set, hset⟩ f hmem
    rw [hedits] at hset
    obtain ⟨sets, hsets, -⟩ := exists_ok_of_map hset
    obtain ⟨set', -, hset'⟩ := exists_ok_of_mapM hsets hmem
    exact ⟨set', hset'⟩
  · intro hall
    rw [hedits]
    refine Succeeds.exists_ok (ErrorsIn.map (.mapM fun f hmem => ?_))
    obtain ⟨set, hset⟩ := hall f hmem
    exact .of_eq_ok hset
  · intro set hset
    rw [hedits] at hset
    obtain ⟨sets, hsets, rfl⟩ := exists_ok_of_map hset
    exact ⟨sets, forall₂_of_mapM hsets, rfl, rfl⟩
  · intro before f after e hsplit hbefore he
    rw [hedits, hsplit, map_eq_error_iff]
    refine mapM_append_cons_eq_error (fun f' hmem => ?_) he
    obtain ⟨set, hset⟩ := hbefore f' hmem
    exact .of_eq_ok hset

/-- A profile with statements between its declarations, one of which has two keys in one. -/
def profile : List Field :=
  [("ex:$p : $", ["$v", "urn:c"]), ("$ p", ["knows", "likes"]), ("= ex:name @en", [" N "]),
    ("$ v $", ["urn:$p"]), ("$ PREFIX", ["ex: urn:ex:"]), ("- ex:old", ["x", ""]),
    ("$ SUBJECT", ["/doc"])]

/-- Statements that fail, each in its own way. -/
def failing : List Field := [("ex:size ^_:t", ["1"]), ("ex:page :", ["//["])]

def failingProfile : List Field := profile ++ failing

theorem submit_separately_profile : ∃ (s : Session) (supply : Supply) (set : EditSet)
    (sets : List EditSet) (e : Error),
    (s.submit (.ofFields profile) supply).edits = .ok set ∧
    List.Forall₂ (fun f set => (s.submit (.alone profile f) supply).edits = .ok set)
      (profile.filter declaresNothing) sets ∧
    set.inserts = sets.flatMap (·.inserts) ∧ set.inserts.length = 7 ∧ set.deletes.length = 2 ∧
    (s.submit (.ofFields failingProfile) supply).edits = .error e ∧
    (s.submit (.alone failingProfile ("ex:size ^_:t", ["1"])) supply).edits = .error e := by
  let s : Session := ⟨.iri "http://a.example/", none, Prefixes.default, none⟩
  let supply : Supply := .fresh id id
  have hsingle : ∀ fields : List Field, ∀ f ∈ fields.filter declaresNothing,
      (Submission.alone fields f).IsSingle (declarations fields) f :=
    fun fields f hf => Submission.isSingle_alone (List.mem_filter.1 hf).2 fields
  have hcount : (s.submit (.ofFields profile) supply).edits.toOption.map (fun set =>
      (set.inserts.length, set.deletes.length)) = some (7, 2) := by decide +kernel
  obtain ⟨set, hset, hcount⟩ := Option.map_eq_some_iff.1 hcount
  obtain ⟨hinserts, hdeletes⟩ := Prod.mk.inj hcount
  have hset : (s.submit (.ofFields profile) supply).edits = .ok set := eq_ok_of_toOption hset
  obtain ⟨-, hsets, -⟩ := submit_separately s (.ofFields profile) profile supply (.alone profile)
    (fun _ => supply) rfl (by decide +kernel) (hsingle profile)
    ⟨by decide +kernel, by decide +kernel, by decide +kernel⟩
  obtain ⟨sets, heach, hconcat, -⟩ := hsets set hset
  obtain ⟨-, -, hfirst⟩ := submit_separately s (.ofFields failingProfile) failingProfile supply
    (.alone failingProfile) (fun _ => supply) rfl (by decide +kernel) (hsingle failingProfile)
    ⟨by decide +kernel, by decide +kernel, by decide +kernel⟩
  have hfails : (s.submit (.alone failingProfile ("ex:size ^_:t", ["1"])) supply).edits.toBool =
      false := by decide +kernel
  have hbefore : ∀ f ∈ profile.filter declaresNothing,
      (s.submit (.alone failingProfile f) supply).edits.toOption.isSome := by decide +kernel
  rcases he : (s.submit (.alone failingProfile ("ex:size ^_:t", ["1"])) supply).edits with e | set'
  · refine ⟨s, supply, set, sets, e, hset, heach, hconcat, hinserts, hdeletes, ?_, he⟩
    exact hfirst (profile.filter declaresNothing) ("ex:size ^_:t", ["1"]) [("ex:page :", ["//["])] e
      (by decide +kernel) (fun f hf => ⟨_, eq_ok_getD (hbefore f hf) .empty⟩) he
  · rw [he] at hfails
    cases hfails

end Session

end FormEdits
