import FormEdits.Json.Read
import FormEdits.Proofs.Assoc
import FormEdits.Proofs.Result

/-! # What reading a document gives

A document is malformed, or it holds an integer with too many digits. The second fault comes with
the number of digits, which really are too many (`Json.lt_of_tooManyDigits`). In the value of a
document that is read no key of a mapping is repeated (`Json.unambiguous_read`). -/

namespace FormEdits

namespace Json

/-! ### Faults -/

/-- A count of digits in a fault is one of more than there may be. -/
def Fault.IsHonest (f : Fault) : Prop := ∀ count, f = .tooManyDigits count → maxDigits < count

theorem honest_malformed {α : Type} (problem : Problem) (left : Nat) :
    ErrorsIn Fault.IsHonest (.error (.malformed problem left) : Except Fault α) :=
  .error nofun

theorem honest_failAt {α : Type} (problem : Problem) (t : Text) :
    ErrorsIn Fault.IsHonest (failAt problem t : Except Fault α) :=
  honest_malformed problem t.length

theorem honest_textFrom (start : Nat) (t : Text) : ErrorsIn Fault.IsHonest (textFrom start t) := by
  fun_induction textFrom start t with
  | case2 r => exact .ok ([], r)
  | case6 | case7 | case8 | case10 | case13 | case15 =>
    rename_i ih
    exact ih.map
  | case1 | case3 | case4 | case5 | case9 | case11 | case12 | case14 => exact honest_malformed _ _

theorem honest_number (t : Text) : ErrorsIn Fault.IsHonest (number t) := by
  unfold number
  dsimp only
  split
  · exact honest_failAt _ _
  · split
    · split
      · rename_i hmany
        refine .error fun count h => ?_
        cases h
        exact hmany
      · exact .ok _
    · exact .ok _

/-- Values, members and elements are read by one another, each with a smaller bound. -/
theorem honest_bounded (bound : Nat) :
    (∀ t, ErrorsIn Fault.IsHonest (value bound t)) ∧
    (∀ t, ErrorsIn Fault.IsHonest (members bound t)) ∧
    ∀ t, ErrorsIn Fault.IsHonest (elements bound t) := by
  induction bound with
  | zero => exact ⟨honest_failAt _, honest_failAt _, honest_failAt _⟩
  | succ bound ih =>
    obtain ⟨hvalue, hmembers, helements⟩ := ih
    refine ⟨fun t => ?_, fun t => ?_, fun t => ?_⟩
    · unfold value
      split
      · exact honest_failAt _ _
      · split
        · exact (honest_textFrom _ _).map
        split
        · split
          · exact .ok _
          · exact (hmembers _).map
        split
        · split
          · exact .ok _
          · exact (helements _).map
        split
        · exact .ok _
        · exact honest_number _
    · unfold members
      split
      · refine (honest_textFrom _ _).bind fun s => ?_
        dsimp only
        split
        · refine (hvalue _).bind fun s => ?_
          split
          · exact .ok _
          · exact (hmembers _).map
          · exact honest_failAt _ _
        · exact honest_failAt _ _
      · exact honest_failAt _ _
    · unfold elements
      refine (hvalue t).bind fun s => ?_
      dsimp only
      split
      · exact .ok _
      · exact (helements _).map
      · exact honest_failAt _ _

theorem lt_of_tooManyDigits {document : Text} {count : Nat}
    (h : read document = .error (.tooManyDigits count)) : maxDigits < count := by
  have hread : ErrorsIn Fault.IsHonest (read document) := by
    unfold read
    split
    · exact honest_failAt _ _
    · refine ((honest_bounded _).1 _).bind fun s => ?_
      dsimp only
      split
      · exact .ok _
      · exact honest_failAt _ _
  exact hread _ h count rfl

/-! ### Keys -/

/-- The mappings that are met on a way through mappings have texts for keys, each of them once. -/
inductive Unambiguous : Value → Prop
  | other {v : Value} (h : ∀ es, v ≠ .mapping es) : Unambiguous v
  | mapping {es : Assoc Text Value} (hk : es.keys.Nodup) (h : ∀ e ∈ es, Unambiguous e.2) :
    Unambiguous (.mapping (es.map fun e => (.text e.1, e.2)))

theorem unambiguous_empty : Unambiguous (.mapping []) :=
  @Unambiguous.mapping [] List.nodup_nil nofun

theorem unambiguous_objectOf {ms : List (Text × Value)} (h : ∀ e ∈ ms, Unambiguous e.2) :
    Unambiguous (objectOf ms) := by
  refine .mapping (Assoc.nodup_keys_overlay ms List.nodup_nil) fun e he => ?_
  rcases Assoc.mem_of_mem_overlay he with he | he
  · cases he
  · exact h e he

theorem unambiguous_word {t : Text} {s : Value × Text} (h : word? t = some s) :
    Unambiguous s.1 := by
  obtain ⟨w, hw, hs⟩ := List.exists_of_findSome?_eq_some h
  obtain ⟨r, -, rfl⟩ := Option.map_eq_some_iff.1 hs
  refine .other fun es hes => ?_
  simp only [words, List.mem_cons, List.not_mem_nil, or_false] at hw
  rcases hw with rfl | rfl | rfl | rfl | rfl | rfl <;> cases hes

theorem unambiguous_number (t : Text) : Gives (fun s => Unambiguous s.1) (number t) := by
  unfold number
  dsimp only
  split
  · exact .error _
  · split
    · split
      · exact .error _
      · exact .ok (.other nofun)
    · exact .ok (.other nofun)

theorem unambiguous_bounded (bound : Nat) :
    (∀ t, Gives (fun s => Unambiguous s.1) (value bound t)) ∧
    ∀ t, Gives (fun s => ∀ e ∈ s.1, Unambiguous e.2) (members bound t) := by
  induction bound with
  | zero => exact ⟨fun t => .error _, fun t => .error _⟩
  | succ bound ih =>
    obtain ⟨hvalue, hmembers⟩ := ih
    refine ⟨fun t => ?_, fun t => ?_⟩
    · unfold value
      split
      · exact .error _
      · split
        · exact Gives.map (P := fun _ => True) (fun _ _ => trivial) fun s _ => .other nofun
        split
        · split
          · exact .ok unambiguous_empty
          · exact (hmembers _).map fun s hs => unambiguous_objectOf hs
        split
        · split
          · exact .ok (.other nofun)
          · exact Gives.map (P := fun _ => True) (fun _ _ => trivial) fun s _ => .other nofun
        split
        · rename_i w hw
          exact .ok (unambiguous_word hw)
        · exact unambiguous_number _
    · unfold members
      split
      · refine Gives.bind (P := fun _ => True) (fun _ _ => trivial) fun s _ => ?_
        dsimp only
        split
        · refine (hvalue _).bind fun v hv => ?_
          split
          · exact .ok (by simpa using hv)
          · refine (hmembers _).map fun s hs e he => ?_
            rcases List.mem_cons.1 he with rfl | he
            · exact hv
            · exact hs e he
          · exact .error _
        · exact .error _
      · exact .error _

theorem unambiguous_read (document : Text) : Gives Unambiguous (read document) := by
  unfold read
  split
  · exact .error _
  · refine ((unambiguous_bounded _).1 _).bind fun s hs => ?_
    dsimp only
    split
    · exact .ok hs
    · exact .error _

end Json

end FormEdits
