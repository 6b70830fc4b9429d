import FormEdits.Macros.Supply
import FormEdits.Proofs.Text.Base64

/-! # Which identifiers name the same blank node

The label of a blank node writes the 128 bits of an identifier in 22 groups of six, and writes the
groups 62 and 63 alike. So two identifiers have one label exactly if their groups differ in nothing
but the last bit of groups that begin with five ones (`draw_blankNode_eq_iff`). The fixed bits keep
the ninth group below 62 and the eleventh from being 63, so an identifier shares its label with
another one exactly if some group besides the eleventh is 62 or 63. The hexadecimal forms of
identifiers are all different. -/

namespace FormEdits

namespace Uuid

/-- The group `k` of six bits of an identifier, from the front. Two bits are left for the last one,
which is filled up with zero bits. -/
def sixBits (bs : List UInt8) (k : Nat) : Nat := Base64.number bs * 16 / 64 ^ (21 - k) % 64

section

variable {bs cs : List UInt8} {k d : Nat}

theorem sixBits_lt : sixBits bs k < 64 := Nat.mod_lt _ (by decide)

theorem sixBits_last (bs : List UInt8) : sixBits bs 21 % 16 = 0 := by
  simp only [sixBits]
  omega

theorem digits_eq_map_sixBits (h : bs.length = 16) :
    Base64.digits bs = (List.range 22).map (sixBits bs) := by
  have hlen : (Base64.digits bs).length = 22 := by rw [Base64.length_digits, h]
  refine List.ext_getElem (by simp [hlen]) fun k hk _ => ?_
  rw [Base64.getElem_digits hk, List.getElem_map, List.getElem_range, sixBits, hlen,
    Base64.lacking, h]
  rfl

theorem getElem?_digits (h : bs.length = 16) (hk : k < 22) :
    (Base64.digits bs)[k]? = some (sixBits bs k) := by
  simp [digits_eq_map_sixBits h, hk]

theorem eq_of_sixBits_eq (hb : bs.length = 16) (hc : cs.length = 16)
    (h : ∀ k < 22, sixBits bs k = sixBits cs k) : bs = cs := by
  refine Base64.digits_injective ?_
  rw [digits_eq_map_sixBits hb, digits_eq_map_sixBits hc]
  exact List.map_congr_left fun k hk => h k (List.mem_range.1 hk)

theorem exists_sixBits_eq_set (h : bs.length = 16) (hk : k < 21) (hd : d < 64) :
    ∃ cs, cs.length = 16 ∧ sixBits cs k = d ∧ ∀ j < 22, j ≠ k → sixBits cs j = sixBits bs j := by
  have hwithin : k < bs.length * 8 / 6 := by rw [h]; exact hk
  obtain ⟨cs, hlen, hcs⟩ := Base64.exists_digits_eq_set hwithin hd
  rw [h] at hlen
  have hget : ∀ j < 22, some (sixBits cs j) = ((Base64.digits bs).set k d)[j]? := fun j hj => by
    rw [← hcs, getElem?_digits hlen hj]
  refine ⟨cs, hlen, ?_, fun j hj hne => ?_⟩
  · have hk22 : k < (Base64.digits bs).length := by rw [Base64.length_digits, h]; omega
    simpa [List.getElem?_set_self hk22] using hget k (by omega)
  · simpa [List.getElem?_set_ne (Ne.symm hne), getElem?_digits h hj] using hget j hj

/-! ### The fixed bits -/

theorem length_bytesOf (count n : Nat) : (bytesOf count n).length = count := by
  induction count generalizing n with
  | zero => rfl
  | succ count ih => simp [bytesOf, ih]

theorem bytesOf_number (bs : List UInt8) : bytesOf bs.length (Base64.number bs) = bs := by
  induction bs using List.reverseRecOn with
  | nil => rfl
  | append_singleton bs b ih =>
    have hnumber : Base64.number (bs ++ [b]) = b.toNat + 256 * Base64.number bs := by
      simp [Base64.number, Nat.ofDigits_cons]
    have := b.toNat_lt
    rw [hnumber, List.length_append, List.length_singleton, bytesOf,
      Nat.add_mul_div_left _ _ (by decide), Nat.div_eq_of_lt this, Nat.zero_add, ih]
    congr 2
    rw [← UInt8.toNat_inj, UInt8.toNat_ofNat']
    omega

/-- The version stands in the first four bits of group 8, the variant in the last two of
group 10. -/
theorem isRandom_iff_sixBits :
    IsRandom bs ↔ bs.length = 16 ∧ sixBits bs 8 / 4 = 4 ∧ sixBits bs 10 % 4 = 2 := by
  refine and_congr_right fun h => ?_
  match hdrop : bs.drop 6 with
  | a :: b :: c :: r =>
    have ha : bs[6]? = some a := by rw [← List.getElem?_drop (i := 6) (j := 0), hdrop]; rfl
    have hc : bs[8]? = some c := by rw [← List.getElem?_drop (i := 6) (j := 2), hdrop]; rfl
    have hdigits : (Base64.digits bs).drop 8 = Base64.digits (a :: b :: c :: r) := by
      rw [Base64.drop_digits bs 2, hdrop]
    have h8 : sixBits bs 8 = a.toNat / 4 := by
      have := getElem?_digits h (k := 8) (by decide)
      rw [← List.getElem?_drop (i := 8) (j := 0), hdigits] at this
      exact (Option.some.inj this).symm
    have h10 : sixBits bs 10 = b.toNat % 16 * 4 + c.toNat / 64 := by
      have := getElem?_digits h (k := 10) (by decide)
      rw [← List.getElem?_drop (i := 8) (j := 2), hdigits] at this
      exact (Option.some.inj this).symm
    have := c.toNat_lt
    simp only [ha, hc, Option.some.injEq, forall_eq']
    rw [← UInt8.toNat_inj, ← UInt8.toNat_inj, UInt8.toNat_div, UInt8.toNat_div, h8, h10]
    change a.toNat / 16 = 4 ∧ c.toNat / 64 = 2 ↔ _
    omega
  | [_, _] | [_] | [] =>
    have := congrArg List.length hdrop
    simp only [List.length_drop, h, List.length_cons, List.length_nil] at this
    omega

theorem isRandom_ofBits (n : Nat) : IsRandom (ofBits n) := by
  refine ⟨by simp [ofBits, length_bytesOf], fun b hb => ?_, fun b hb => ?_⟩
  · simp only [ofBits, List.getElem?_modify] at hb
    obtain ⟨b, -, rfl⟩ := Option.map_eq_some_iff.1 (by simpa using hb)
    rw [← UInt8.toNat_inj, UInt8.toNat_div, UInt8.toNat_add, UInt8.toNat_mod]
    change (b.toNat % 16 + 64) % 256 / 16 = 4
    omega
  · simp only [ofBits, List.getElem?_modify] at hb
    obtain ⟨b, -, rfl⟩ := Option.map_eq_some_iff.1 (by simpa using hb)
    rw [← UInt8.toNat_inj, UInt8.toNat_div, UInt8.toNat_add, UInt8.toNat_mod]
    change (b.toNat % 64 + 128) % 256 / 64 = 2
    omega

theorem ofBits_number (h : IsRandom bs) : ofBits (Base64.number bs) = bs := by
  obtain ⟨hlen, hversion, hvariant⟩ := h
  have hbytes := bytesOf_number bs
  rw [hlen] at hbytes
  rw [ofBits, hbytes]
  refine List.ext_getElem? fun i => ?_
  rw [List.getElem?_modify, List.getElem?_modify]
  cases hb : bs[i]? with
  | none => rfl
  | some b =>
    have := b.toNat_lt
    simp only [Option.map_eq_map, Option.map_some, Option.some.injEq]
    split_ifs with h8 h6 h6
    · omega
    · subst h8
      have hdiv := congrArg UInt8.toNat (hvariant b hb)
      rw [← UInt8.toNat_inj, UInt8.toNat_add, UInt8.toNat_mod]
      change b.toNat / 64 = 2 at hdiv
      change (b.toNat % 64 + 128) % 256 = b.toNat
      omega
    · subst h6
      have hdiv := congrArg UInt8.toNat (hversion b hb)
      rw [← UInt8.toNat_inj, UInt8.toNat_add, UInt8.toNat_mod]
      change b.toNat / 16 = 4 at hdiv
      change (b.toNat % 16 + 64) % 256 = b.toNat
      omega
    · rfl

/-! ### Hexadecimal form -/

theorem hexDigit_inj {d e : Nat} (hd : d < 16) (he : e < 16)
    (h : Quoted.hexDigit d = Quoted.hexDigit e) : d = e := by
  have all : ∀ d < 16, ∀ e < 16, Quoted.hexDigit d = Quoted.hexDigit e → d = e := by decide
  exact all d hd e he h

theorem hexDigit_ne_hyphen {d : Nat} (hd : d < 16) : Quoted.hexDigit d ≠ '-' := by
  have all : ∀ d < 16, Quoted.hexDigit d ≠ '-' := by decide
  exact all d hd

theorem hex_cons (b : UInt8) (bs : List UInt8) : hex (b :: bs) =
    Quoted.hexDigit (b.toNat / 16) :: Quoted.hexDigit (b.toNat % 16) :: hex bs := by
  have := b.toNat_lt
  simp [hex, Quoted.hex, Nat.mod_eq_of_lt (by omega : b.toNat / 16 < 16)]

theorem hex_append (bs cs : List UInt8) : hex (bs ++ cs) = hex bs ++ hex cs :=
  List.flatMap_append

theorem hex_injective : Function.Injective hex := by
  intro bs cs h
  induction bs generalizing cs with
  | nil =>
    cases cs with
    | nil => rfl
    | cons c cs => cases h.trans (hex_cons c cs)
  | cons b bs ih =>
    cases cs with
    | nil => cases (hex_cons b bs).symm.trans h
    | cons c cs =>
      have := b.toNat_lt
      have := c.toNat_lt
      simp only [hex_cons, List.cons.injEq] at h
      obtain ⟨hhigh, hlow, h⟩ := h
      have := hexDigit_inj (by omega) (by omega) hhigh
      have := hexDigit_inj (by omega) (by omega) hlow
      rw [ih h, UInt8.toNat_inj.1 (by omega : b.toNat = c.toNat)]

theorem filter_hex (bs : List UInt8) : (hex bs).filter (· ≠ '-') = hex bs := by
  induction bs with
  | nil => rfl
  | cons b bs ih =>
    have := b.toNat_lt
    rw [hex_cons, List.filter_cons_of_pos (by simpa using hexDigit_ne_hyphen (by omega)),
      List.filter_cons_of_pos (by simpa using hexDigit_ne_hyphen (by omega)), ih]

theorem filter_text (bs : List UInt8) : (text bs).filter (· ≠ '-') = hex bs := by
  have hhyphen : ("-" : Text).filter (· ≠ '-') = [] := rfl
  simp only [text, List.intercalate_cons_cons, List.intercalate_singleton, List.filter_append, filter_hex, hhyphen, List.append_nil,
    ← hex_append]
  have h6 : bs.drop 6 = (bs.drop 4).drop 2 := by rw [List.drop_drop]
  have h8 : bs.drop 8 = (bs.drop 6).drop 2 := by rw [List.drop_drop]
  have h10 : bs.drop 10 = (bs.drop 8).drop 2 := by rw [List.drop_drop]
  rw [h10, List.take_append_drop, h8, List.take_append_drop, h6, List.take_append_drop,
    List.take_append_drop]

theorem text_inj : text bs = text cs ↔ bs = cs :=
  ⟨fun h => hex_injective (by rw [← filter_text, h, filter_text]), congrArg text⟩

theorem urn_inj : urn bs = urn cs ↔ bs = cs := (List.append_right_inj _).trans text_inj

/-! ### Labels -/

theorem blankNode_eq_iff (hb : bs.length = 16) (hc : cs.length = 16) :
    blankNode bs = blankNode cs ↔
      ∀ k < 22, sixBits bs k = sixBits cs k ∨ 62 ≤ sixBits bs k ∧ 62 ≤ sixBits cs k := by
  rw [blankNode, blankNode, List.append_cancel_left_eq, digits_eq_map_sixBits hb,
    digits_eq_map_sixBits hc, List.map_map, List.map_map, List.map_inj_left]
  simp only [List.mem_range, Function.comp_apply,
    Base64.letter_eq_letter_iff sixBits_lt sixBits_lt]

/-- The other identifier has 62 for 63 in one group, or 63 for 62. -/
theorem exists_ne_of_sixBits (h : IsRandom bs) (hk : k < 22) (hge : 62 ≤ sixBits bs k)
    (hne : k ≠ 10) : ∃ cs, IsRandom cs ∧ blankNode cs = blankNode bs ∧ cs ≠ bs := by
  obtain ⟨hlen, hversion, hvariant⟩ := isRandom_iff_sixBits.1 h
  have hlt : sixBits bs k < 64 := sixBits_lt
  have h21 : k ≠ 21 := by
    rintro rfl
    have := sixBits_last bs
    omega
  have h8 : k ≠ 8 := by
    rintro rfl
    omega
  obtain ⟨cs, hcs, hset, hkeep⟩ :=
    exists_sixBits_eq_set hlen (by omega : k < 21) (by omega : 125 - sixBits bs k < 64)
  refine ⟨cs, isRandom_iff_sixBits.2 ⟨hcs, ?_, ?_⟩,
    (blankNode_eq_iff hcs hlen).2 fun j hj => ?_, ?_⟩
  · rwa [hkeep 8 (by decide) h8.symm]
  · rwa [hkeep 10 (by decide) hne.symm]
  · by_cases hjk : j = k
    · subst hjk
      exact .inr ⟨by omega, hge⟩
    · exact .inl (hkeep j hj hjk)
  · rintro rfl
    omega

theorem eq_of_blankNode_eq (hb : IsRandom bs) (hc : IsRandom cs)
    (hgroups : ∀ k < 22, 62 ≤ sixBits bs k → k = 10) (h : blankNode cs = blankNode bs) :
    cs = bs := by
  obtain ⟨hlen, -, hvariant⟩ := isRandom_iff_sixBits.1 hb
  obtain ⟨hlen', -, hvariant'⟩ := isRandom_iff_sixBits.1 hc
  refine eq_of_sixBits_eq hlen' hlen fun k hk => ?_
  obtain heq | ⟨hge', hge⟩ := (blankNode_eq_iff hlen' hlen).1 h k hk
  · exact heq
  · -- the variant leaves 62 as the only one of the two
    obtain rfl := hgroups k hk hge
    have hlt : sixBits bs 10 < 64 := sixBits_lt
    have hlt' : sixBits cs 10 < 64 := sixBits_lt
    omega

end

end Uuid

theorem Supply.takeIdentifier_fst (s : Supply) :
    s.takeIdentifier.1 = Uuid.ofBits (s.identifier s.identifiersUsed) := by
  simp only [takeIdentifier]

theorem Supply.isRandom_takeIdentifier (s : Supply) : Uuid.IsRandom s.takeIdentifier.1 := by
  rw [takeIdentifier_fst]
  exact Uuid.isRandom_ofBits _

theorem Supply.exists_takeIdentifier {bs : List UInt8} (h : Uuid.IsRandom bs) :
    ∃ s : Supply, s.takeIdentifier.1 = bs := by
  refine ⟨.fresh (fun _ => Base64.number bs) fun _ => 0, ?_⟩
  rw [takeIdentifier_fst]
  exact Uuid.ofBits_number h

namespace Generator

open Uuid

/-- Identifiers that are taken from supplies are exactly the random ones. The blank nodes of two of
them have one label exactly if each group of six bits is the same or neither is below 62; only an
identifier with no such group but the eleventh is told by its label from all others. In the
hexadecimal forms no two identifiers are confused. -/
theorem draw_blankNode_eq_iff (bs : List UInt8) (s s' : Supply) :
    (IsRandom bs ↔ ∃ s : Supply, s.takeIdentifier.1 = bs) ∧
    ((blankNode.draw s).1 = (blankNode.draw s').1 ↔
      ∀ k < 22, sixBits s.takeIdentifier.1 k = sixBits s'.takeIdentifier.1 k ∨
        62 ≤ sixBits s.takeIdentifier.1 k ∧ 62 ≤ sixBits s'.takeIdentifier.1 k) ∧
    ((∀ s' : Supply, (blankNode.draw s').1 = (blankNode.draw s).1 →
        s'.takeIdentifier.1 = s.takeIdentifier.1) ↔
      ∀ k < 22, 62 ≤ sixBits s.takeIdentifier.1 k → k = 10) ∧
    ((uuid.draw s).1 = (uuid.draw s').1 ↔ s.takeIdentifier.1 = s'.takeIdentifier.1) ∧
    ((uuidUrn.draw s).1 = (uuidUrn.draw s').1 ↔ s.takeIdentifier.1 = s'.takeIdentifier.1) := by
  refine ⟨⟨Supply.exists_takeIdentifier, ?_⟩, ?_, ⟨fun h k hk hge => ?_, fun h s' heq => ?_⟩,
    ?_, ?_⟩
  · rintro ⟨s, rfl⟩
    exact s.isRandom_takeIdentifier
  · exact blankNode_eq_iff s.isRandom_takeIdentifier.1 s'.isRandom_takeIdentifier.1
  · by_contra hne
    obtain ⟨cs, hcs, hlabel, hdiff⟩ := exists_ne_of_sixBits s.isRandom_takeIdentifier hk hge hne
    obtain ⟨s', rfl⟩ := Supply.exists_takeIdentifier hcs
    exact hdiff (h s' hlabel)
  · exact eq_of_blankNode_eq s.isRandom_takeIdentifier s'.isRandom_takeIdentifier h heq
  · rw [draw, draw, text_inj]
  · rw [draw, draw, urn_inj]

/-- The identifiers `b54cda58-fbbe-4883-b5ac-82422d92b13e` and
`b54cda58-fbbf-4883-b5ac-82422d92b13e` name one blank node. -/
theorem draw_blankNode_merges :
    ∃ s s' : Supply, text s.takeIdentifier.1 = "b54cda58-fbbe-4883-b5ac-82422d92b13e" ∧
      text s'.takeIdentifier.1 = "b54cda58-fbbf-4883-b5ac-82422d92b13e" ∧
      IsRandom s.takeIdentifier.1 ∧ IsRandom s'.takeIdentifier.1 ∧
      s.takeIdentifier.1 ≠ s'.takeIdentifier.1 ∧
      (blankNode.draw s).1 = "_:btUzaWPu_SIO1rIJCLZKxPg" ∧
      (blankNode.draw s').1 = "_:btUzaWPu_SIO1rIJCLZKxPg" :=
  ⟨.fresh (fun _ => 0xb54cda58fbbe4883b5ac82422d92b13e) fun _ => 0,
    .fresh (fun _ => 0xb54cda58fbbf4883b5ac82422d92b13e) fun _ => 0,
    by decide +kernel, by decide +kernel, Supply.isRandom_takeIdentifier _,
    Supply.isRandom_takeIdentifier _, by decide +kernel, by decide +kernel, by decide +kernel⟩

end Generator

end FormEdits
