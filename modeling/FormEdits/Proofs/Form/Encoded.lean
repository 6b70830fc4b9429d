import FormEdits.Form.Encoded
import FormEdits.Proofs.Assoc
import FormEdits.Proofs.Key.Template
import FormEdits.Proofs.Text.Utf8

/-! # Reading an encoded form

What is written for a key or a value holds neither `&` nor `=`, so the pairs of an encoded form and
their two halves are found again, and each half stands for the text that it was written for. A form
whose keys are distinct and have values each is read back from its encoding
(`Encoded.read_write`). -/

namespace FormEdits

/-! ### Cutting at separators -/

namespace Text

variable {sep : Char} {t u : Text}

theorem cut?_append (h : sep ∉ t) (u : Text) : cut? sep (t ++ sep :: u) = some (t, u) := by
  induction t with
  | nil => rw [List.nil_append, cut?, if_pos rfl]
  | cons c t ih =>
    obtain ⟨hc, ht⟩ := not_or.1 (mt List.mem_cons.2 h)
    rw [List.cons_append, cut?, if_neg (Ne.symm hc), ih ht]
    rfl

end Text

namespace Encoded

/-! ### Bytes -/

theorem hexDigit_cases {n : Nat} (h : n < 16) :
    isPlain (Quoted.hexDigit n).toUpper ∧ hexDigitValue? (Quoted.hexDigit n).toUpper = some n := by
  have hall : ∀ n < 16, isPlain (Quoted.hexDigit n).toUpper ∧
      hexDigitValue? (Quoted.hexDigit n).toUpper = some n := by decide
  exact hall n h

theorem escapeByte_eq (b : UInt8) :
    ∃ x y, escapeByte b = ['%', x, y] ∧ isPlain x ∧ isPlain y ∧ byte? x y = some b := by
  have hb : b.toNat < 256 := b.toNat_lt
  obtain ⟨hx, hhigh⟩ := hexDigit_cases (n := b.toNat / 16 % 16) (by omega)
  obtain ⟨hy, hlow⟩ := hexDigit_cases (n := b.toNat % 16) (by omega)
  refine ⟨_, _, rfl, hx, hy, ?_⟩
  have hsum : b.toNat / 16 % 16 * 16 + b.toNat % 16 = b.toNat := by omega
  simp only [byte?, hhigh, hlow, Option.bind_eq_bind, Option.bind_some, hsum]
  exact congrArg some (UInt8.ofNat_toNat)

theorem isPlain_bounds {c : Char} (h : isPlain c) :
    c.toNat < 0x80 ∧ c ≠ '%' ∧ c ≠ '+' ∧ c ≠ '&' ∧ c ≠ '=' := by
  have hascii : c.toNat < 0x80 := by
    simp only [isPlain, Bool.or_eq_true, decide_eq_true_eq] at h
    rcases h with ((((h | h) | rfl) | rfl) | rfl) | rfl
    · have := toNat_of_isAsciiLetter h
      omega
    · simp only [isAsciiDigit, Bool.and_eq_true, decide_eq_true_eq, Char.le_def,
        UInt32.le_iff_toNat_le] at h
      have h : 48 ≤ c.toNat ∧ c.toNat ≤ 57 := h
      omega
    all_goals decide
  refine ⟨hascii, ?_, ?_, ?_, ?_⟩ <;> rintro rfl <;> revert h <;> decide

theorem mem_escape {c d : Char} (h : d ∈ escape c) : isPlain d ∨ d = '+' ∨ d = '%' := by
  unfold escape at h
  split at h
  · rw [List.mem_singleton.1 h]
    exact .inl ‹_›
  split at h
  · exact .inr (.inl (List.mem_singleton.1 h))
  · obtain ⟨b, -, hd⟩ := List.mem_flatMap.1 h
    obtain ⟨x, y, hxy, hx, hy, -⟩ := escapeByte_eq b
    rw [hxy] at hd
    simp only [List.mem_cons, List.not_mem_nil, or_false] at hd
    rcases hd with rfl | rfl | rfl
    · exact .inr (.inr rfl)
    · exact .inl hx
    · exact .inl hy

theorem notMem_escape {sep : Char} (hs : sep = '&' ∨ sep = '=') (t : Text) :
    sep ∉ t.flatMap escape := by
  intro h
  obtain ⟨c, -, hc⟩ := List.mem_flatMap.1 h
  rcases mem_escape hc with hp | rfl | rfl
  · obtain ⟨-, -, -, hamp, heq⟩ := isPlain_bounds hp
    exact hs.elim hamp heq
  · rcases hs with hs | hs <;> cases hs
  · rcases hs with hs | hs <;> cases hs

/-! ### Characters and texts -/

/-- A plus sign stands for a space. -/
def space (c : Char) : Char := if c = '+' then ' ' else c

theorem unescapeFrom_escapeByte (b : UInt8) (r : Text) :
    unescapeFrom ((escapeByte b).map space ++ r) =
      (b :: (unescapeFrom r).1, (unescapeFrom r).2) := by
  obtain ⟨x, y, hxy, hx, hy, hb⟩ := escapeByte_eq b
  have hplain : ∀ {c}, isPlain c → space c = c := fun h => if_neg (isPlain_bounds h).2.2.1
  rw [hxy]
  simp only [List.map_cons, List.map_nil, hplain hx, hplain hy, List.cons_append, List.nil_append]
  rw [show space '%' = '%' from rfl, unescapeFrom]
  simp only [hb]

theorem unescapeFrom_bytes (bs : List UInt8) (r : Text) :
    unescapeFrom ((bs.flatMap escapeByte).map space ++ r) =
      (bs ++ (unescapeFrom r).1, (unescapeFrom r).2) := by
  induction bs with
  | nil => rfl
  | cons b bs ih =>
    rw [List.flatMap_cons, List.map_append, List.append_assoc, unescapeFrom_escapeByte, ih]
    rfl

theorem unescapeFrom_cons_ascii {c : Char} (hc : c.toNat < 0x80) (hp : c ≠ '%') (r : Text) :
    unescapeFrom (c :: r) =
      (String.utf8EncodeChar c ++ (unescapeFrom r).1, (unescapeFrom r).2) := by
  have hencode : String.utf8EncodeChar c = [UInt8.ofNat c.toNat] :=
    if_pos (show c.val.toNat ≤ 127 from Nat.le_of_lt_succ hc)
  rw [unescapeFrom, hencode]
  · simp only [hc, if_true]
    rfl
  · intro a b r' h
    exact absurd h hp

theorem unescapeFrom_escape (c : Char) (r : Text) :
    unescapeFrom ((escape c).map space ++ r) =
      (String.utf8EncodeChar c ++ (unescapeFrom r).1, (unescapeFrom r).2) := by
  unfold escape
  split
  · obtain ⟨hascii, hpercent, hplus, -⟩ := isPlain_bounds ‹_›
    rw [List.map_singleton, show space c = c from if_neg hplus]
    exact unescapeFrom_cons_ascii hascii hpercent r
  split
  · rename_i hc
    rw [hc]
    exact unescapeFrom_cons_ascii (by decide) (by decide) r
  · rw [unescapeFrom_bytes, Utf8.encode, List.flatMap_singleton]

theorem unescapeFrom_flatMap_escape (t : Text) :
    unescapeFrom ((t.flatMap escape).map space) = (Utf8.encode t, []) := by
  induction t with
  | nil => rfl
  | cons c t ih =>
    rw [List.flatMap_cons, List.map_append, unescapeFrom_escape, ih]
    rfl

theorem unescape_flatMap_escape (t : Text) : unescape (t.flatMap escape) = t := by
  have hfrom := unescapeFrom_flatMap_escape t
  have hdecode := Utf8.decodeLenient_encode_append t []
  rw [List.append_nil] at hdecode
  show Utf8.decodeLenient (unescapeFrom ((t.flatMap escape).map space)).1 ++
    (unescapeFrom ((t.flatMap escape).map space)).2 = t
  rw [hfrom, hdecode, List.append_nil]
  exact List.append_nil t

/-! ### Forms -/

/-- A key and a value as they are written. -/
def pairText (p : Text × Text) : Text := p.1.flatMap escape ++ '=' :: p.2.flatMap escape

theorem pair_pairText (p : Text × Text) : pair (pairText p) = p := by
  rw [pair, pairText, Text.cut?_append (notMem_escape (.inr rfl) p.1)]
  simp only [unescape_flatMap_escape]

theorem notMem_pairText (p : Text × Text) : '&' ∉ pairText p := by
  intro h
  rcases List.mem_append.1 h with h | h
  · exact notMem_escape (.inl rfl) _ h
  · rcases List.mem_cons.1 h with h | h
    · cases h
    · exact notMem_escape (.inl rfl) _ h

theorem write_eq (fields : List (Text × List Text)) :
    write fields = ['&'].intercalate ((Assoc.entries fields).map pairText) := by
  have hpair : ∀ p : Text × Text, p.1.flatMap escape ++ ['='] ++ p.2.flatMap escape = pairText p :=
    fun p => by rw [List.append_assoc, List.singleton_append, pairText]
  simp only [write, hpair]
  rfl

theorem read_intercalate {ps : List (Text × Text)} :
    read (['&'].intercalate (ps.map pairText)) = Assoc.collect ps := by
  rcases ps with _ | ⟨p, ps⟩
  · rfl
  · have hsplit : (['&'].intercalate ((p :: ps).map pairText)).splitOn '&' =
        (p :: ps).map pairText := by
      refine List.splitOn_intercalate '&' (fun w hw => ?_) (by simp)
      obtain ⟨q, -, rfl⟩ := List.mem_map.1 hw
      exact notMem_pairText q
    have hkept : ((p :: ps).map pairText).filter (!·.isEmpty) = (p :: ps).map pairText := by
      refine List.filter_eq_self.2 fun w hw => ?_
      obtain ⟨q, -, rfl⟩ := List.mem_map.1 hw
      simp [pairText]
    have hpairs : ((p :: ps).map pairText).map pair = p :: ps := by
      rw [List.map_map, Function.comp_def]
      simp only [pair_pairText, List.map_id']
    rw [read, hsplit, hkept, hpairs]

theorem read_write {fields : List (Text × List Text)} (hn : (Assoc.keys fields).Nodup)
    (hv : ∀ f ∈ fields, f.2 ≠ []) : read (write fields) = fields := by
  rw [write_eq, read_intercalate, Assoc.collect_entries hn hv]

end Encoded

end FormEdits
