import Mathlib.Data.List.Forall2

/-! # Errors of a computation

`ErrorsIn P x` says that `x` fails with errors of `P` only. A computation made of such parts is one
itself. What `mapM` gives is related to its list element by element. -/

namespace FormEdits

def ErrorsIn {ε α : Type} (P : ε → Prop) (x : Except ε α) : Prop := ∀ e, x = .error e → P e

namespace ErrorsIn

variable {ε α β : Type} {P : ε → Prop} {x : Except ε α}

theorem ok (a : α) : ErrorsIn P (.ok a : Except ε α) := by
  intro e h; cases h

theorem of_eq_ok {a : α} (h : x = .ok a) : ErrorsIn P x := h ▸ ok a

theorem error {e : ε} (h : P e) : ErrorsIn P (.error e : Except ε α) := by
  intro e' h'; cases h'; exact h

theorem bind {f : α → Except ε β} (hx : ErrorsIn P x) (hf : ∀ a, ErrorsIn P (f a)) :
    ErrorsIn P (x >>= f) := by
  intro e h
  cases x with
  | error e' => cases h; exact hx _ rfl
  | ok a => exact hf a e h

theorem bind_of_ok {f : α → Except ε β} (hx : ErrorsIn P x) (hf : ∀ a, x = .ok a → ErrorsIn P (f a)) :
    ErrorsIn P (x >>= f) := by
  cases x with
  | error e => exact .error (hx e rfl)
  | ok a => exact hf a rfl

theorem map {f : α → β} (hx : ErrorsIn P x) : ErrorsIn P (x.map f) := by
  intro e h
  cases x with
  | error e' => cases h; exact hx _ rfl
  | ok a => cases h

theorem mapM {f : α → Except ε β} {as : List α} (hf : ∀ a ∈ as, ErrorsIn P (f a)) :
    ErrorsIn P (as.mapM f) := by
  induction as with
  | nil => rw [List.mapM_nil]; exact ok []
  | cons a as ih =>
    rw [List.mapM_cons]
    have ih := ih fun a ha => hf a (List.mem_cons_of_mem _ ha)
    exact (hf a (List.mem_cons_self ..)).bind fun b => ih.bind fun bs => ok (b :: bs)

theorem mapM_option {f : α → Except ε β} {a : Option α} (hf : ∀ b ∈ a, ErrorsIn P (f b)) :
    ErrorsIn P (a.mapM f) := by
  cases a with
  | none => exact ok none
  | some a => exact (hf a rfl).bind fun b => ok (some b)

end ErrorsIn

abbrev Succeeds {ε α : Type} (x : Except ε α) : Prop := ErrorsIn (fun _ => False) x

theorem Succeeds.exists_ok {ε α : Type} {x : Except ε α} (h : Succeeds x) : ∃ a, x = .ok a := by
  cases x with
  | error e => exact (h e rfl).elim
  | ok a => exact ⟨a, rfl⟩

/-- What a computation gives, unless it fails, satisfies `P`. -/
def Gives {ε α : Type} (P : α → Prop) (x : Except ε α) : Prop := ∀ a, x = .ok a → P a

namespace Gives

variable {ε α β : Type} {P : α → Prop} {Q : β → Prop} {x : Except ε α}

theorem ok {a : α} (h : P a) : Gives P (.ok a : Except ε α) := by
  intro a' h'; cases h'; exact h

theorem error (e : ε) : Gives P (.error e : Except ε α) := by
  intro a h; cases h

theorem bind {f : α → Except ε β} (hx : Gives P x) (hf : ∀ a, P a → Gives Q (f a)) :
    Gives Q (x >>= f) := by
  intro b h
  cases x with
  | error e => cases h
  | ok a => exact hf a (hx a rfl) b h

theorem map {f : α → β} (hx : Gives P x) (hf : ∀ a, P a → Q (f a)) : Gives Q (x.map f) := by
  intro b h
  cases x with
  | error e => cases h
  | ok a => cases h; exact hf a (hx a rfl)

end Gives

theorem eq_ok_of_toOption {ε α : Type} {x : Except ε α} {a : α} (h : x.toOption = some a) :
    x = .ok a := by
  cases x with
  | error e => cases h
  | ok b => cases h; rfl

theorem eq_ok_getD {ε α : Type} {x : Except ε α} (h : x.toOption.isSome) (a : α) :
    x = .ok (x.toOption.getD a) := by
  cases x with
  | error e => cases h
  | ok b => rfl

section

variable {ε α β : Type} {as : List α}

theorem exists_ok_of_bind {x : Except ε α} {f : α → Except ε β} {b : β}
    (h : (x >>= f) = .ok b) : ∃ a, x = .ok a ∧ f a = .ok b := by
  cases x with
  | error e => cases h
  | ok a => exact ⟨a, rfl, h⟩

theorem exists_ok_of_map {x : Except ε α} {f : α → β} {b : β} (h : x.map f = .ok b) :
    ∃ a, x = .ok a ∧ f a = b := by
  cases x with
  | error e => cases h
  | ok a => exact ⟨a, rfl, Except.ok.inj h⟩

theorem map_eq_error_iff {x : Except ε α} {f : α → β} {e : ε} :
    x.map f = .error e ↔ x = .error e := by
  cases x with
  | error e' => simp [Except.map]
  | ok a => simp [Except.map]

theorem bind_eq_error_iff {x : Except ε α} {f : α → Except ε β} {e : ε}
    (hf : ∀ a, Succeeds (f a)) : (x >>= f) = .error e ↔ x = .error e := by
  cases x with
  | error e' => simp [bind, Except.bind]
  | ok a =>
    constructor
    · intro h; exact (hf a e h).elim
    · intro h; cases h

theorem forall₂_of_mapM {f : α → Except ε β} {bs : List β} (h : as.mapM f = .ok bs) :
    List.Forall₂ (fun a b => f a = .ok b) as bs := by
  induction as generalizing bs with
  | nil => cases h; exact .nil
  | cons a as ih =>
    rw [List.mapM_cons] at h
    obtain ⟨b, ha, h⟩ := exists_ok_of_bind h
    obtain ⟨bs', has, h⟩ := exists_ok_of_bind h
    cases h
    exact .cons ha (ih has)

theorem mapM_eq_ok_of_forall₂ {f : α → Except ε β} {bs : List β}
    (h : List.Forall₂ (fun a b => f a = .ok b) as bs) : as.mapM f = .ok bs := by
  induction h with
  | nil => rfl
  | cons ha _ ih =>
    rw [List.mapM_cons, ha, ih]
    rfl

theorem exists_of_forall₂ {R : α → β → Prop} {bs : List β} (h : List.Forall₂ R as bs) {a : α}
    (ha : a ∈ as) : ∃ b ∈ bs, R a b := by
  induction h with
  | nil => cases ha
  | cons hab _ ih =>
    rcases List.mem_cons.1 ha with rfl | ha
    · exact ⟨_, List.mem_cons_self .., hab⟩
    · obtain ⟨b, hb, hr⟩ := ih ha
      exact ⟨b, List.mem_cons_of_mem _ hb, hr⟩

theorem exists_ok_of_mapM {f : α → Except ε β} {bs : List β} (h : as.mapM f = .ok bs) {a : α}
    (ha : a ∈ as) : ∃ b ∈ bs, f a = .ok b :=
  exists_of_forall₂ (forall₂_of_mapM h) ha

theorem exists_of_mem_mapM {f : α → Except ε β} {bs : List β} {b : β} (h : as.mapM f = .ok bs)
    (hb : b ∈ bs) : ∃ a ∈ as, f a = .ok b :=
  exists_of_forall₂ (R := fun b a => f a = .ok b) (forall₂_of_mapM h).flip hb

theorem mapM_append_cons_eq_error {f : α → Except ε β} {before after : List α} {a : α} {e : ε}
    (hb : ∀ b ∈ before, Succeeds (f b)) (ha : f a = .error e) :
    (before ++ a :: after).mapM f = .error e := by
  induction before with
  | nil => rw [List.nil_append, List.mapM_cons, ha]; rfl
  | cons b before ih =>
    obtain ⟨c, hc⟩ := (hb b (List.mem_cons_self ..)).exists_ok
    have hrest := ih fun b' hb' => hb b' (List.mem_cons_of_mem _ hb')
    rw [List.cons_append, List.mapM_cons, hc, hrest]
    rfl

/-- What `mapM` fails with is the error of the first element that fails. -/
theorem mapM_eq_error_iff {f : α → Except ε β} {e : ε} : as.mapM f = .error e ↔
    ∃ before a after, as = before ++ a :: after ∧ (∀ b ∈ before, Succeeds (f b)) ∧
      f a = .error e := by
  constructor
  · intro h
    induction as with
    | nil => cases h
    | cons a as ih =>
      rw [List.mapM_cons] at h
      rcases ha : f a with e' | b
      · rw [ha] at h
        cases h
        exact ⟨[], a, as, rfl, nofun, ha⟩
      · rw [ha] at h
        have hrest : as.mapM f = .error e := (bind_eq_error_iff fun bs => .ok (b :: bs)).1 h
        obtain ⟨before, a', after, rfl, hb, he⟩ := ih hrest
        refine ⟨a :: before, a', after, rfl, ?_, he⟩
        exact List.forall_mem_cons.2 ⟨.of_eq_ok ha, hb⟩
  · rintro ⟨before, a, after, rfl, hb, ha⟩
    exact mapM_append_cons_eq_error hb ha

theorem mapM_eq_error_congr {γ : Type} {f : α → Except ε β} {g : α → Except ε γ} {e : ε}
    (h : ∀ a ∈ as, ∀ e, f a = .error e ↔ g a = .error e) :
    as.mapM f = .error e ↔ as.mapM g = .error e := by
  have hsucceeds : ∀ {a : α}, a ∈ as → (Succeeds (f a) ↔ Succeeds (g a)) := fun ha =>
    forall_congr' fun e => by rw [h _ ha e]
  rw [mapM_eq_error_iff, mapM_eq_error_iff]
  refine exists_congr fun before => exists_congr fun a => exists_congr fun after =>
    and_congr_right fun hsplit => ?_
  have hbefore : ∀ b ∈ before, b ∈ as := fun b hb => by simp [hsplit, hb]
  rw [h a (by simp [hsplit]) e]
  exact and_congr_left fun _ => forall₂_congr fun b hb => hsucceeds (hbefore b hb)

theorem mapM_append_eq_error_iff {f : α → Except ε β} {bs : List α} {e : ε} :
    (as ++ bs).mapM f = .error e ↔
      as.mapM f = .error e ∨ Succeeds (as.mapM f) ∧ bs.mapM f = .error e := by
  rw [List.mapM_append]
  rcases as.mapM f with e' | cs
  · have hfails : ¬ Succeeds (Except.error e' : Except ε (List β)) := fun h => h e' rfl
    simp [bind, Except.bind, hfails]
  · have hok : Succeeds (Except.ok cs : Except ε (List β)) := .ok cs
    rcases bs.mapM f with e' | ds
    · simp [bind, Except.bind, hok]
    · simp [bind, Except.bind, pure, Except.pure]

theorem mapM_eq_some_map {f : α → Option β} {g : α → β} (h : ∀ a ∈ as, f a = some (g a)) :
    as.mapM f = some (as.map g) := by
  induction as with
  | nil => rfl
  | cons a as ih =>
    rw [List.forall_mem_cons] at h
    rw [List.mapM_cons, h.1, ih h.2]
    rfl

theorem exists_mapM_option {f : α → Option β} (h : ∀ a ∈ as, ∃ b, f a = some b) :
    ∃ bs, as.mapM f = some bs ∧ ∀ b, b ∈ bs ↔ ∃ a ∈ as, f a = some b := by
  induction as with
  | nil => exact ⟨[], rfl, by simp⟩
  | cons a as ih =>
    obtain ⟨b, hb⟩ := h a (List.mem_cons_self ..)
    obtain ⟨bs, hbs, hmem⟩ := ih fun a ha => h a (List.mem_cons_of_mem _ ha)
    refine ⟨b :: bs, by rw [List.mapM_cons, hb, hbs]; rfl, fun b' => ?_⟩
    simp only [List.mem_cons, hmem, exists_eq_or_imp, hb, Option.some.injEq, eq_comm (a := b')]

end

end FormEdits
