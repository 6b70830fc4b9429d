import FormEdits.Proofs.Uri.Characters

/-! # References that cannot be resolved

A reference is refused for an authority: that of the base, or else its own. An authority is refused
for brackets that do not match, for what stands between them, or for a character that hides a
delimiter (`Uri.authorityFault?_eq_none_iff`), and its fault is the error of the join
(`Uri.join_eq_error_iff`). A relative reference thus fails against such a base however harmless it
is, and nothing fails against an empty one. -/

namespace FormEdits

namespace Uri

/-! ### Authorities -/

/-- An authority with which nothing is wrong. -/
structure IsAuthority (t : Text) : Prop where
  brackets : '[' ∈ t ↔ ']' ∈ t
  host : '[' ∈ t → hostFault? (bracketed t) = none
  characters : ∀ c ∈ t, hidesDelimiter c = false

theorem hasBalancedBrackets_iff {t : Text} : hasBalancedBrackets t ↔ ('[' ∈ t ↔ ']' ∈ t) := by
  rw [hasBalancedBrackets, beq_iff_eq, Bool.eq_iff_iff, List.contains_iff_mem, List.contains_iff_mem]

theorem authorityFault?_eq_none_iff {t : Text} : authorityFault? t = none ↔ IsAuthority t := by
  have hcharacters : t.any hidesDelimiter = false ↔ ∀ c ∈ t, hidesDelimiter c = false := by
    simp
  rw [authorityFault?]
  by_cases hb : hasBalancedBrackets t
  · rw [hb]
    have hbrackets := hasBalancedBrackets_iff.1 hb
    by_cases ho : '[' ∈ t
    · rw [if_neg (by simp)]
      simp only [List.contains_iff_mem.2 ho, if_true, Option.or_eq_none_iff]
      constructor
      · rintro ⟨hhost, hany⟩
        exact ⟨hbrackets, fun _ => hhost, hcharacters.1 (by simpa using hany)⟩
      · intro h
        exact ⟨h.host ho, by rw [hcharacters.2 h.characters]; rfl⟩
    · rw [if_neg (by simp)]
      simp only [List.contains_iff_mem, ho, if_false, Option.none_or]
      constructor
      · intro hany
        exact ⟨hbrackets, fun h => (ho h).elim, hcharacters.1 (by simpa using hany)⟩
      · intro h
        rw [hcharacters.2 h.characters]
        rfl
  · have hbalanced : hasBalancedBrackets t = false := by simpa using hb
    simp only [hbalanced, Bool.not_false, if_true, reduceCtorEq, false_iff]
    intro h
    exact hb (hasBalancedBrackets_iff.2 h.brackets)

instance (t : Text) : Decidable (IsAuthority t) := decidable_of_iff _ authorityFault?_eq_none_iff

/-! ### Joining -/

/-- What stands in the place of an authority, after the scheme and two slashes. -/
def authority (t : Text) : Text :=
  let t := (t.dropWhile (·.toNat ≤ 0x20)).filter fun c => !(c = '\t' || c = '\r' || c = '\n')
  (cutAuthority ((cutScheme? t).getD ([], t)).2).1

/-- The reference and the base are cut into parts, and one of them has no proper authority. -/
def IsMalformed (base reference : Text) : Prop :=
  base ≠ [] ∧ reference ≠ [] ∧ ¬ (IsAuthority (authority base) ∧ IsAuthority (authority reference))

instance (base reference : Text) : Decidable (IsMalformed base reference) :=
  inferInstanceAs (Decidable (_ ∧ _))

/-- The fault for which the reference is not resolved against the base. -/
def fault? (base reference : Text) : Option Fault :=
  if base.isEmpty || reference.isEmpty then none
  else (authorityFault? (authority base)).or (authorityFault? (authority reference))

variable {base reference t : Text} {fault : Fault}

theorem isMalformed_iff : IsMalformed base reference ↔ ∃ fault, fault? base reference = some fault := by
  rw [IsMalformed, fault?, ← authorityFault?_eq_none_iff, ← authorityFault?_eq_none_iff,
    ← Option.isSome_iff_exists]
  by_cases hb : base = []
  · simp [hb]
  by_cases hr : reference = []
  · simp [hr]
  rw [if_neg (by simp [hb, hr]), ← Option.or_eq_none_iff, ← Option.ne_none_iff_isSome]
  simp [hb, hr]

theorem Parts.read_eq_error_iff {scheme : Text} :
    read scheme t = .error fault ↔ authorityFault? (Uri.authority t) = some fault := by
  rw [read, Uri.authority]
  dsimp only
  generalize (t.dropWhile (·.toNat ≤ 0x20)).filter (fun c =>
    !(c = '\t' || c = '\r' || c = '\n')) = kept
  -- the scheme that is taken for a missing one has no effect on what follows it
  have hrest : ((cutScheme? kept).getD (scheme, kept)).2 = ((cutScheme? kept).getD ([], kept)).2 := by
    rcases cutScheme? kept with _ | s <;> rfl
  rw [← hrest]
  rcases authorityFault? (cutAuthority ((cutScheme? kept).getD (scheme, kept)).2).1 with _ | fault'
  · simp
  · simp

theorem resolve_eq_error_iff :
    resolve base reference = .error fault ↔ fault? base reference = some fault := by
  rw [resolve, fault?]
  by_cases hb : base = []
  · simp [hb]
  by_cases hr : reference = []
  · simp [hb, hr]
  rw [if_neg (by simpa using hb), if_neg (by simpa using hr), if_neg (by simp [hb, hr])]
  rcases hbase : Parts.read [] base with fault' | b
  · rw [Parts.read_eq_error_iff.1 hbase]
    simp [bind, Except.bind]
  have hnone : authorityFault? (authority base) = none := by
    rw [Option.eq_none_iff_forall_ne_some]
    intro fault' hfault
    rw [Parts.read_eq_error_iff.2 hfault] at hbase
    cases hbase
  have hread : Parts.read b.scheme reference = .error fault ↔ _ := Parts.read_eq_error_iff
  rw [hnone, Option.none_or, ← hread]
  rcases href : Parts.read b.scheme reference with fault' | r
  · simp [bind, Except.bind, href]
  · simp only [bind, Except.bind, href, reduceCtorEq, iff_false]
    split <;> simp

theorem join_eq_error_iff :
    join base reference = .error fault ↔ fault? base reference = some fault := by
  rw [join, map_eq_error_iff, resolve_eq_error_iff]

/-! ### Texts that are never refused -/

/-- The text has no square bracket and no character that hides a delimiter. -/
abbrev IsHarmless (t : Text) : Prop :=
  t.Within fun c => c ≠ '[' ∧ c ≠ ']' ∧ hidesDelimiter c = false

theorem hidesDelimiter_of_lt {c : Char} (h : c.toNat < 0x2047) : hidesDelimiter c = false := by
  simp [hidesDelimiter, hidingDelimiter]
  omega

theorem holdsInUris_isHarmless :
    HoldsInUris fun c => c ≠ '[' ∧ c ≠ ']' ∧ hidesDelimiter c = false where
  delimiter := fun c hc => by
    have hall : ("/:?#;" : Text).all fun c => c ≠ '[' ∧ c ≠ ']' ∧ hidesDelimiter c = false := by
      decide +kernel
    exact of_decide_eq_true (List.all_eq_true.1 hall c hc)
  lower := by
    intro c hc
    rcases toLower_cases c with hsame | hrange
    · rwa [hsame]
    · refine ⟨?_, ?_, hidesDelimiter_of_lt (by omega)⟩
      · intro h
        rw [h] at hrange
        exact absurd hrange (by decide)
      · intro h
        rw [h] at hrange
        exact absurd hrange (by decide)

theorem IsHarmless.isAuthority (h : IsHarmless t) : IsAuthority (authority t) := by
  have hkept : IsHarmless ((t.dropWhile (·.toNat ≤ 0x20)).filter fun c =>
      !(c = '\t' || c = '\r' || c = '\n')) :=
    (h.mono (List.dropWhile_subset _)).mono List.filter_sublist.subset
  have hauthority : IsHarmless (authority t) := by
    rw [authority]
    generalize (t.dropWhile (·.toNat ≤ 0x20)).filter (fun c =>
      !(c = '\t' || c = '\r' || c = '\n')) = kept at hkept
    refine (within_cutAuthority ?_).1
    rcases hs : cutScheme? kept with _ | s
    · exact hkept
    · exact (within_cutScheme? holdsInUris_isHarmless hkept hs).2
  have hopen : '[' ∉ authority t := fun hm => (hauthority _ hm).1 rfl
  have hclose : ']' ∉ authority t := fun hm => (hauthority _ hm).2.1 rfl
  exact ⟨by simp [hopen, hclose], fun hm => (hopen hm).elim, fun c hc => (hauthority c hc).2.2⟩

theorem not_isMalformed (hb : IsHarmless base) (hr : IsHarmless reference) :
    ¬ IsMalformed base reference :=
  fun h => h.2.2 ⟨hb.isAuthority, hr.isAuthority⟩

end Uri

end FormEdits
