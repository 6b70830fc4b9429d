import FormEdits.Text.Utf8
import Mathlib.Data.List.Basic

/-! # UTF-8 read back

The bytes of a character carry its number six bits at a time, and the first of them says how many
there are (`Utf8.front_encode`). So the UTF-8 form of a text reads back as that text, whatever
follows it (`Utf8.decodeLenient_encode_append`). -/

namespace FormEdits

namespace Utf8

variable {v : Nat}

theorem toNat_ofNat {n : Nat} (h : n < 256) : (UInt8.ofNat n).toNat = n := by
  rw [UInt8.toNat_ofNat']
  exact Nat.mod_eq_of_lt h

theorem continuation_cons {count value taken low high n : Nat} {bs : List UInt8} (hn : n < 64)
    (hlow : low ≤ n + 128) (hhigh : n + 128 ≤ high) :
    continuation (count + 1) value taken low high (UInt8.ofNat (n + 128) :: bs) =
      continuation count (value * 64 + n) (taken + 1) 0x80 0xBF bs := by
  have hmod : (n + 128) % 64 = n := by omega
  rw [continuation, toNat_ofNat (by omega), hmod, if_pos (by simp [hlow, hhigh])]

/-! ### Characters by the number of their bytes -/

theorem front_two (hfrom : 0x80 ≤ v) (hto : v < 0x800) (rest : List UInt8) :
    front (UInt8.ofNat (v / 64 % 32 + 192)) (UInt8.ofNat (v % 64 + 128) :: rest) =
      .char (Char.ofNat v) 2 := by
  have hlead : (v / 64 % 32 + 192) % 32 = v / 64 := by omega
  have hsum : v / 64 * 64 + v % 64 = v := by omega
  rw [front, toNat_ofNat (by omega), if_neg (by omega), if_neg (by omega), if_pos (by omega), hlead,
    continuation_cons (by omega) (by omega) (by omega), hsum, continuation]

/-- No character has the number of half a surrogate pair. -/
theorem front_three (hfrom : 0x800 ≤ v) (hto : v < 0xD800 ∨ 0xE000 ≤ v ∧ v < 0x10000)
    (rest : List UInt8) :
    front (UInt8.ofNat (v / 4096 % 16 + 224))
        (UInt8.ofNat (v / 64 % 64 + 128) :: UInt8.ofNat (v % 64 + 128) :: rest) =
      .char (Char.ofNat v) 3 := by
  have hlead : (v / 4096 % 16 + 224) % 16 = v / 4096 := by omega
  have hsum : (v / 4096 * 64 + v / 64 % 64) * 64 + v % 64 = v := by omega
  have hnext : ∀ low high, low ≤ v / 64 % 64 + 128 → v / 64 % 64 + 128 ≤ high →
      continuation 2 (v / 4096) 1 low high
        (UInt8.ofNat (v / 64 % 64 + 128) :: UInt8.ofNat (v % 64 + 128) :: rest) =
          .char (Char.ofNat v) 3 := by
    intro low high hlow hhigh
    rw [continuation_cons (by omega) hlow hhigh, continuation_cons (by omega) (by omega) (by omega),
      hsum, continuation]
  rw [front, toNat_ofNat (by omega), if_neg (by omega), if_neg (by omega), if_neg (by omega), hlead]
  -- after two of the leads the second byte has narrower bounds, and so have the numbers
  split
  · exact hnext _ _ (by omega) (by omega)
  split
  · exact hnext _ _ (by omega) (by omega)
  · rw [if_pos (by omega)]
    exact hnext _ _ (by omega) (by omega)

theorem front_four (hfrom : 0x10000 ≤ v) (hto : v < 0x110000) (rest : List UInt8) :
    front (UInt8.ofNat (v / 262144 % 8 + 240)) (UInt8.ofNat (v / 4096 % 64 + 128) ::
        UInt8.ofNat (v / 64 % 64 + 128) :: UInt8.ofNat (v % 64 + 128) :: rest) =
      .char (Char.ofNat v) 4 := by
  have hlead : (v / 262144 % 8 + 240) % 8 = v / 262144 := by omega
  have hsum : ((v / 262144 * 64 + v / 4096 % 64) * 64 + v / 64 % 64) * 64 + v % 64 = v := by omega
  have hnext : ∀ low high, low ≤ v / 4096 % 64 + 128 → v / 4096 % 64 + 128 ≤ high →
      continuation 3 (v / 262144) 1 low high (UInt8.ofNat (v / 4096 % 64 + 128) ::
        UInt8.ofNat (v / 64 % 64 + 128) :: UInt8.ofNat (v % 64 + 128) :: rest) =
          .char (Char.ofNat v) 4 := by
    intro low high hlow hhigh
    rw [continuation_cons (by omega) hlow hhigh, continuation_cons (by omega) (by omega) (by omega),
      continuation_cons (by omega) (by omega) (by omega), hsum, continuation]
  rw [front, toNat_ofNat (by omega), if_neg (by omega), if_neg (by omega), if_neg (by omega),
    if_neg (by omega), if_neg (by omega), if_neg (by omega), hlead]
  split
  · exact hnext _ _ (by omega) (by omega)
  split
  · exact hnext _ _ (by omega) (by omega)
  · rw [if_pos (by omega)]
    exact hnext _ _ (by omega) (by omega)

/-- The bytes of a character stand for it, whatever follows them. -/
theorem front_encode (c : Char) : ∃ b bs, String.utf8EncodeChar c = b :: bs ∧
    ∀ rest, front b (bs ++ rest) = .char c (bs.length + 1) := by
  have hvalid : c.toNat < 0xD800 ∨ 0xE000 ≤ c.toNat ∧ c.toNat < 0x110000 := c.valid
  have hval : c.val.toNat = c.toNat := rfl
  have hofNat : Char.ofNat c.toNat = c := Char.ofNat_toNat c
  rw [String.utf8EncodeChar, hval]
  split
  · refine ⟨_, _, rfl, fun rest => ?_⟩
    rw [front, toNat_ofNat (by omega), if_pos (by omega), hofNat]
    rfl
  split
  · refine ⟨_, _, rfl, fun rest => (front_two (by omega) (by omega) rest).trans ?_⟩
    rw [hofNat]
    rfl
  split
  · refine ⟨_, _, rfl, fun rest => (front_three (by omega) (by omega) rest).trans ?_⟩
    rw [hofNat]
    rfl
  · refine ⟨_, _, rfl, fun rest => (front_four (by omega) (by omega) rest).trans ?_⟩
    rw [hofNat]
    rfl

/-! ### Texts -/

theorem decodeLenientFrom_append (bs rest : List UInt8) :
    decodeLenientFrom bs.length (bs ++ rest) = decodeLenientFrom 0 rest := by
  induction bs with
  | nil => rfl
  | cons b bs ih => exact ih

theorem decodeLenient_encodeChar_append (c : Char) (rest : List UInt8) :
    decodeLenient (String.utf8EncodeChar c ++ rest) = c :: decodeLenient rest := by
  obtain ⟨b, bs, hbs, hfront⟩ := front_encode c
  rw [hbs, List.cons_append, decodeLenient, decodeLenientFrom]
  simp only [hfront, Nat.add_sub_cancel]
  rw [decodeLenientFrom_append]
  rfl

theorem decodeLenient_encode_append (t : Text) (rest : List UInt8) :
    decodeLenient (encode t ++ rest) = t ++ decodeLenient rest := by
  induction t with
  | nil => rfl
  | cons c t ih =>
    rw [encode, List.flatMap_cons, List.append_assoc, decodeLenient_encodeChar_append, ← encode, ih]
    rfl

end Utf8

end FormEdits
