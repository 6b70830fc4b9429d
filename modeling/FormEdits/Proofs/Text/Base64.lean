import FormEdits.Text.Base64
import Mathlib.Data.Nat.Digits.Lemmas
import Mathlib.Tactic.Ring

/-! # Base 64 as groups of six bits

The digits of a text of bytes are the digits in base 64 of the number that the bytes are the digits
of in base 256 (`getElem_digits`). Bytes can be read back from their digits (`digits_injective`),
and any digit that lies wholly within the bytes can be put in the place of another
(`exists_digits_eq_set`). -/

namespace FormEdits

namespace Base64

/-- The number that the bytes write in base 256, the first byte highest. -/
def number (bs : List UInt8) : Nat := Nat.ofDigits 256 (bs.map UInt8.toNat).reverse

/-- How many bytes the last group lacks. -/
def lacking (bs : List UInt8) : Nat := (3 - bs.length % 3) % 3

section

variable {bs cs : List UInt8} {a b c : UInt8} {d : Nat}

theorem toNat_ofNat {n : Nat} (h : n < 256) : (UInt8.ofNat n).toNat = n :=
  UInt8.toNat_ofNat_of_lt' h

theorem number_cons : number (b :: bs) = number bs + 256 ^ bs.length * b.toNat := by
  simp [number, Nat.ofDigits_append]

theorem lacking_group : lacking (a :: b :: c :: bs) = lacking bs := by
  simp only [lacking, List.length_cons]
  omega

theorem lt_of_mem_digits (h : d ∈ digits bs) : d < 64 := by
  induction bs using digits.induct with
  | case1 a b c r ih =>
    have := a.toNat_lt
    have := b.toNat_lt
    have := c.toNat_lt
    simp only [digits, List.mem_cons] at h
    obtain rfl | rfl | rfl | rfl | h := h
    all_goals first | omega | exact ih h
  | case2 a b =>
    have := a.toNat_lt
    have := b.toNat_lt
    simp only [digits, List.mem_cons, List.not_mem_nil, or_false] at h
    omega
  | case3 a =>
    have := a.toNat_lt
    simp only [digits, List.mem_cons, List.not_mem_nil, or_false] at h
    omega
  | case4 => simp [digits] at h

theorem length_digits (bs : List UInt8) : (digits bs).length = (bs.length * 8 + 5) / 6 := by
  induction bs using digits.induct with
  | case1 a b c r ih =>
    simp only [digits, List.length_cons, ih]
    omega
  | case2 | case3 | case4 => simp [digits]

theorem digits_injective : Function.Injective digits := by
  intro bs cs h
  induction bs using digits.induct generalizing cs with
  | case1 a b c r ih =>
    match cs, h with
    | a' :: b' :: c' :: r', h =>
      have := a.toNat_lt
      have := b.toNat_lt
      have := a'.toNat_lt
      have := b'.toNat_lt
      have := c.toNat_lt
      have := c'.toNat_lt
      simp only [digits, List.cons.injEq] at h
      obtain ⟨h₁, h₂, h₃, h₄, h⟩ := h
      rw [ih h, UInt8.toNat_inj.1 (by omega : a.toNat = a'.toNat),
        UInt8.toNat_inj.1 (by omega : b.toNat = b'.toNat),
        UInt8.toNat_inj.1 (by omega : c.toNat = c'.toNat)]
    | [_, _], h | [_], h | [], h => simp [digits] at h
  | case2 a b =>
    match cs, h with
    | [a', b'], h =>
      have := b.toNat_lt
      have := b'.toNat_lt
      simp only [digits, List.cons.injEq, and_true] at h
      rw [UInt8.toNat_inj.1 (by omega : a.toNat = a'.toNat),
        UInt8.toNat_inj.1 (by omega : b.toNat = b'.toNat)]
    | _ :: _ :: _ :: _, h | [_], h | [], h => simp [digits] at h
  | case3 a =>
    match cs, h with
    | [a'], h =>
      simp only [digits, List.cons.injEq, and_true] at h
      rw [UInt8.toNat_inj.1 (by omega : a.toNat = a'.toNat)]
    | _ :: _ :: _ :: _, h | [_, _], h | [], h => simp [digits] at h
  | case4 =>
    match cs, h with
    | [], _ => rfl
    | _ :: _ :: _ :: _, h | [_, _], h | [_], h => simp [digits] at h

/-! ### The digits as a number -/

theorem pow_length_digits (bs : List UInt8) :
    64 ^ (digits bs).length = 256 ^ bs.length * 4 ^ lacking bs := by
  induction bs using digits.induct with
  | case1 a b c r ih =>
    simp only [digits, List.length_cons, lacking_group, pow_succ, ih]
    ring
  | case2 | case3 | case4 => simp [digits, lacking]

theorem ofDigits_digits (bs : List UInt8) :
    Nat.ofDigits 64 (digits bs).reverse = number bs * 4 ^ lacking bs := by
  induction bs using digits.induct with
  | case1 a b c r ih =>
    have hgroup : a.toNat / 4 * 64 ^ 3 + (a.toNat % 4 * 16 + b.toNat / 16) * 64 ^ 2 +
        (b.toNat % 16 * 4 + c.toNat / 64) * 64 + c.toNat % 64 =
        a.toNat * 256 ^ 2 + b.toNat * 256 + c.toNat := by omega
    have hr := pow_length_digits r
    simp only [digits, Nat.ofDigits_reverse_cons, List.length_cons, pow_succ, hr, ih, number_cons,
      lacking_group]
    calc
      _ = number r * 4 ^ lacking r + 256 ^ r.length * 4 ^ lacking r *
          (a.toNat / 4 * 64 ^ 3 + (a.toNat % 4 * 16 + b.toNat / 16) * 64 ^ 2 +
            (b.toNat % 16 * 4 + c.toNat / 64) * 64 + c.toNat % 64) := by ring
      _ = _ := by rw [hgroup]; ring
  | case2 a b =>
    simp [digits, number, lacking, Nat.ofDigits_cons]
    omega
  | case3 a =>
    simp [digits, number, lacking, Nat.ofDigits_cons]
    omega
  | case4 => simp [digits, number]

/-- A digit of a number that is written in base 64, the first digit highest. -/
theorem getElem_eq_of_ofDigits {ds : List Nat} (hds : ∀ d ∈ ds, d < 64) {k : Nat}
    (hk : k < ds.length) :
    ds[k] = Nat.ofDigits 64 ds.reverse / 64 ^ (ds.length - 1 - k) % 64 := by
  have hrev : ∀ d ∈ ds.reverse, d < 64 := fun d hd => hds d (List.mem_reverse.1 hd)
  rw [Nat.ofDigits_div_pow_eq_ofDigits_drop _ (by decide) _ hrev, Nat.ofDigits_mod_eq_head!]
  have hlt : ds.length - 1 - k < ds.reverse.length := by rw [List.length_reverse]; omega
  rw [List.drop_eq_getElem_cons hlt, List.head!_cons, List.getElem_reverse,
    Nat.mod_eq_of_lt (hds _ (List.getElem_mem _))]
  congr 1
  omega

theorem getElem_digits {k : Nat} (hk : k < (digits bs).length) :
    (digits bs)[k] = number bs * 4 ^ lacking bs / 64 ^ ((digits bs).length - 1 - k) % 64 := by
  rw [getElem_eq_of_ofDigits (fun _ => lt_of_mem_digits) hk, ofDigits_digits]

/-! ### Groups of three bytes -/

theorem drop_digits (bs : List UInt8) (q : Nat) :
    (digits bs).drop (4 * q) = digits (bs.drop (3 * q)) := by
  induction q generalizing bs with
  | zero => rfl
  | succ q ih =>
    match bs with
    | a :: b :: c :: r => exact ih r
    | [_, _] | [_] | [] =>
      rw [List.drop_of_length_le (by simp only [digits, List.length_cons, List.length_nil]; omega),
        List.drop_of_length_le (by simp only [List.length_cons, List.length_nil]; omega)]
      rfl

theorem exists_digits_eq_set {i : Nat} (hi : i < bs.length * 8 / 6) (hd : d < 64) :
    ∃ cs, cs.length = bs.length ∧ digits cs = (digits bs).set i d := by
  induction bs using digits.induct generalizing i with
  | case1 a b c r ih =>
    have := a.toNat_lt
    have := b.toNat_lt
    have := c.toNat_lt
    match i with
    | 0 =>
      refine ⟨UInt8.ofNat (d * 4 + a.toNat % 4) :: b :: c :: r, rfl, ?_⟩
      simp (disch := omega) only [digits, toNat_ofNat, List.set_cons_zero, List.cons.injEq,
        and_true]
      omega
    | 1 =>
      refine ⟨UInt8.ofNat (a.toNat / 4 * 4 + d / 16) ::
        UInt8.ofNat (d % 16 * 16 + b.toNat % 16) :: c :: r, rfl, ?_⟩
      simp (disch := omega) only [digits, toNat_ofNat, List.set_cons_succ, List.set_cons_zero,
        List.cons.injEq, and_true]
      omega
    | 2 =>
      refine ⟨a :: UInt8.ofNat (b.toNat / 16 * 16 + d / 4) ::
        UInt8.ofNat (d % 4 * 64 + c.toNat % 64) :: r, rfl, ?_⟩
      simp (disch := omega) only [digits, toNat_ofNat, List.set_cons_succ, List.set_cons_zero,
        List.cons.injEq, and_true, true_and]
      omega
    | 3 =>
      refine ⟨a :: b :: UInt8.ofNat (c.toNat / 64 * 64 + d) :: r, rfl, ?_⟩
      simp (disch := omega) only [digits, toNat_ofNat, List.set_cons_succ, List.set_cons_zero,
        List.cons.injEq, and_true, true_and]
      omega
    | i + 4 =>
      obtain ⟨cs, hlen, hcs⟩ := @ih i (by simp only [List.length_cons] at hi; omega)
      exact ⟨a :: b :: c :: cs, by simp [hlen], by simp [digits, hcs]⟩
  | case2 a b =>
    have := a.toNat_lt
    have := b.toNat_lt
    match i with
    | 0 =>
      refine ⟨[UInt8.ofNat (d * 4 + a.toNat % 4), b], rfl, ?_⟩
      simp (disch := omega) only [digits, toNat_ofNat, List.set_cons_zero, List.cons.injEq,
        and_true]
      omega
    | 1 =>
      refine ⟨[UInt8.ofNat (a.toNat / 4 * 4 + d / 16), UInt8.ofNat (d % 16 * 16 + b.toNat % 16)],
        rfl, ?_⟩
      simp (disch := omega) only [digits, toNat_ofNat, List.set_cons_succ, List.set_cons_zero,
        List.cons.injEq, and_true]
      omega
    | i + 2 => simp at hi
  | case3 a =>
    have := a.toNat_lt
    match i with
    | 0 =>
      refine ⟨[UInt8.ofNat (d * 4 + a.toNat % 4)], rfl, ?_⟩
      simp (disch := omega) only [digits, toNat_ofNat, List.set_cons_zero, List.cons.injEq,
        and_true]
      omega
    | i + 1 => simp at hi
  | case4 => simp at hi

end

/-! ### Letters -/

/-- With one letter for the last two digits, these are the only two that are written alike. -/
theorem letter_eq_letter_iff {d e : Nat} (hd : d < 64) (he : e < 64) :
    letter '_' '_' d = letter '_' '_' e ↔ d = e ∨ 62 ≤ d ∧ 62 ≤ e := by
  have all : ∀ d < 64, ∀ e < 64,
      (letter '_' '_' d = letter '_' '_' e ↔ d = e ∨ 62 ≤ d ∧ 62 ≤ e) := by decide +kernel
  exact all d hd e he

end Base64

end FormEdits
