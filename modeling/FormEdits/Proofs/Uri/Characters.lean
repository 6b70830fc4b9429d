import FormEdits.Proofs.Result
import FormEdits.Proofs.Text.Words
import FormEdits.Uri.Join

/-! # The characters of a resolved reference

To resolve a reference is to put parts of two texts together again with the delimiters of the
syntax; nothing else changes but the case of a scheme. So what holds of the characters of the base
and of the reference, and of the delimiters, holds of the characters of the result
(`Uri.within_join`). -/

namespace FormEdits

namespace Text

/-- All characters of the text satisfy `P`. -/
def Within (P : Char → Prop) (t : Text) : Prop := ∀ c ∈ t, P c

variable {P : Char → Prop} {t u r : Text} {s : Text × Text} {sep c : Char}

theorem within_nil : Within P [] := fun _ h => (List.not_mem_nil h).elim

@[simp] theorem within_cons : Within P (c :: t) ↔ P c ∧ Within P t := List.forall_mem_cons

@[simp] theorem within_append : Within P (t ++ u) ↔ Within P t ∧ Within P u :=
  List.forall_mem_append

theorem within_ite {b : Prop} [Decidable b] (ht : Within P t) (hu : Within P u) :
    Within P (if b then t else u) := by
  split
  · exact ht
  · exact hu

theorem Within.mono (h : Within P t) (hu : u ⊆ t) : Within P u := fun c hc => h c (hu hc)

theorem append_of_cut? (h : cut? sep t = some s) : s.1 ++ sep :: s.2 = t := by
  induction t generalizing s with
  | nil => cases h
  | cons c t ih =>
    rw [cut?] at h
    split at h
    · rename_i hc
      cases h
      rw [hc]
      rfl
    · obtain ⟨s', hs', rfl⟩ := Option.map_eq_some_iff.1 h
      exact congrArg (c :: ·) (ih hs')

theorem notMem_of_cut? (h : cut? sep t = some s) : sep ∉ s.1 := by
  induction t generalizing s with
  | nil => cases h
  | cons c t ih =>
    rw [cut?] at h
    split at h
    · cases h
      exact List.not_mem_nil
    · rename_i hc
      obtain ⟨s', hs', rfl⟩ := Option.map_eq_some_iff.1 h
      exact List.not_mem_cons_of_ne_of_not_mem (Ne.symm hc) (ih hs')

theorem append_of_cutLast? (h : cutLast? sep t = some s) : s.1 ++ sep :: s.2 = t := by
  induction t generalizing s with
  | nil => cases h
  | cons c t ih =>
    rw [cutLast?] at h
    rcases hs : cutLast? sep t with _ | s'
    · rw [hs] at h
      dsimp only at h
      split at h
      · rename_i hc
        cases h
        rw [hc]
        rfl
      · cases h
    · rw [hs] at h
      cases h
      exact congrArg (c :: ·) (ih hs)

theorem Within.cut? (h : Within P t) (hs : cut? sep t = some s) : Within P s.1 ∧ Within P s.2 := by
  rw [← append_of_cut? hs, within_append, within_cons] at h
  exact ⟨h.1, h.2.2⟩

theorem Within.cutLast? (h : Within P t) (hs : cutLast? sep t = some s) :
    Within P s.1 ∧ Within P s.2 := by
  rw [← append_of_cutLast? hs, within_append, within_cons] at h
  exact ⟨h.1, h.2.2⟩

theorem Within.after? {start : Text} (h : Within P t) (hr : after? start t = some r) :
    Within P r := by
  induction start generalizing t with
  | nil =>
    rw [Text.after?] at hr
    rwa [← Option.some.inj hr]
  | cons d start ih =>
    cases t with
    | nil => cases hr
    | cons c t =>
      rw [Text.after?] at hr
      split at hr
      · exact ih (within_cons.1 h).2 hr
      · cases hr

theorem within_intercalate {u : Text} {ws : List Text} (hu : Within P u)
    (h : ∀ w ∈ ws, Within P w) : Within P (u.intercalate ws) := by
  intro c hc
  rcases mem_intercalate hc with hc | ⟨w, hw, hc⟩
  · exact hu c hc
  · exact h w hw c hc

theorem Within.splitOn (sep : Char) (h : Within P t) : ∀ w ∈ t.splitOn sep, Within P w := by
  intro w hw c hc
  rw [← show [sep].intercalate (t.splitOn sep) = t from List.intercalate_splitOn sep] at h
  exact h c (mem_intercalate_of_mem hw hc)

theorem within_cutOff (sep : Char) (h : Within P t) :
    Within P (cutOff sep t).1 ∧ Within P (cutOff sep t).2 := by
  rw [cutOff]
  rcases hs : Text.cut? sep t with _ | s
  · exact ⟨h, within_nil⟩
  · exact h.cut? hs

end Text

open Text (Within)

namespace Uri

/-- What holds of the delimiters of a reference and is kept by lower case. -/
structure HoldsInUris (P : Char → Prop) : Prop where
  delimiter : ∀ c ∈ ("/:?#;" : Text), P c
  lower : ∀ c, P c → P c.toLower

theorem toLower_cases (c : Char) :
    c.toLower = c ∨ 97 ≤ c.toLower.toNat ∧ c.toLower.toNat ≤ 122 := by
  delta Char.toLower
  split
  · rename_i h
    have hfirst : 65 ≤ c.val.toNat := h.1
    have hlast : c.val.toNat ≤ 90 := h.2
    have hval : (c.val + ('a'.val - 'A'.val)).toNat = c.val.toNat + 32 := by
      rw [UInt32.toNat_add]
      show (c.val.toNat + 32) % 2 ^ 32 = _
      omega
    right
    show 97 ≤ (c.val + ('a'.val - 'A'.val)).toNat ∧ (c.val + ('a'.val - 'A'.val)).toNat ≤ 122
    omega
  · exact .inl rfl

variable {P : Char → Prop} {t base reference : Text}

theorem within_cutScheme? {s : Text × Text} (hP : HoldsInUris P) (h : Within P t)
    (hs : cutScheme? t = some s) : Within P s.1 ∧ Within P s.2 := by
  rw [cutScheme?] at hs
  split at hs
  · rename_i scheme rest hcut
    split at hs
    · cases hs
      obtain ⟨hscheme, hrest⟩ := h.cut? hcut
      refine ⟨fun c hc => ?_, hrest⟩
      obtain ⟨d, hd, rfl⟩ := List.mem_map.1 hc
      exact hP.lower d (hscheme d hd)
    · cases hs
  · cases hs

theorem within_cutAuthority (h : Within P t) :
    Within P (cutAuthority t).1 ∧ Within P (cutAuthority t).2 := by
  rw [cutAuthority]
  split
  · rename_i rest hrest
    have hr := h.after? hrest
    exact ⟨hr.mono (List.takeWhile_subset _), hr.mono (List.dropWhile_subset _)⟩
  · exact ⟨Text.within_nil, h⟩

theorem within_cutParams (hP : HoldsInUris P) (h : Within P t) :
    Within P (cutParams t).1 ∧ Within P (cutParams t).2 := by
  rw [cutParams]
  split
  · rename_i before last hcut
    obtain ⟨hbefore, hlast⟩ := h.cutLast? hcut
    obtain ⟨hsegment, hparams⟩ := Text.within_cutOff ';' hlast
    exact ⟨Text.within_append.2 ⟨hbefore, Text.within_cons.2 ⟨hP.delimiter _ (by decide), hsegment⟩⟩,
      hparams⟩
  · exact Text.within_cutOff ';' h

namespace Parts

/-- All parts are texts of characters that satisfy `P`. -/
structure Within (P : Char → Prop) (p : Parts) : Prop where
  scheme : Text.Within P p.scheme
  authority : Text.Within P p.authority
  path : Text.Within P p.path
  params : Text.Within P p.params
  query : Text.Within P p.query
  fragment : Text.Within P p.fragment

theorem within_read {scheme : Text} {p : Parts} (hP : HoldsInUris P)
    (hs : Text.Within P scheme) (h : Text.Within P t) (hp : read scheme t = .ok p) :
    p.Within P := by
  rw [read] at hp
  dsimp only at hp
  generalize hkept : ((t.dropWhile (·.toNat ≤ 0x20)).filter fun c =>
    !(c = '\t' || c = '\r' || c = '\n')) = kept at hp
  have h₁ : Text.Within P kept := by
    rw [← hkept]
    exact (h.mono (List.dropWhile_subset _)).mono List.filter_sublist.subset
  have hscheme : Text.Within P ((cutScheme? kept).getD (scheme, kept)).1 ∧
      Text.Within P ((cutScheme? kept).getD (scheme, kept)).2 := by
    rcases hcut : cutScheme? kept with _ | s
    · exact ⟨hs, h₁⟩
    · exact within_cutScheme? hP h₁ hcut
  generalize (cutScheme? kept).getD (scheme, kept) = s₁ at hp hscheme
  obtain ⟨scheme', t₁⟩ := s₁
  have hauthority := within_cutAuthority hscheme.2
  generalize cutAuthority t₁ = s₂ at hp hauthority
  obtain ⟨authority, t₂⟩ := s₂
  dsimp only at hp hscheme hauthority
  split at hp
  · cases hp
  · have hfragment := Text.within_cutOff '#' hauthority.2
    generalize Text.cutOff '#' t₂ = s₃ at hp hfragment
    obtain ⟨t₃, fragment⟩ := s₃
    have hquery := Text.within_cutOff '?' hfragment.1
    dsimp only at hp hfragment hquery
    generalize Text.cutOff '?' t₃ = s₄ at hp hquery
    obtain ⟨t₄, query⟩ := s₄
    have hpath : Text.Within P (if parameterSchemes.contains scheme' then cutParams t₄
          else (t₄, [])).1 ∧
        Text.Within P (if parameterSchemes.contains scheme' then cutParams t₄ else (t₄, [])).2 := by
      split
      · exact within_cutParams hP hquery.1
      · exact ⟨hquery.1, Text.within_nil⟩
    dsimp only at hp hquery
    generalize (if parameterSchemes.contains scheme' then cutParams t₄ else (t₄, [])) = s₅
      at hp hpath
    obtain ⟨path, params⟩ := s₅
    cases hp
    exact ⟨hscheme.1, hauthority.1, hpath.1, hpath.2, hquery.2, hfragment.2⟩

theorem Within.text {p : Parts} (hP : HoldsInUris P) (h : p.Within P) : Text.Within P p.text := by
  have hdelimiter : ∀ {c : Char} {u : Text}, c ∈ ("/:?#;" : Text) → Text.Within P u →
      Text.Within P (c :: u) := fun hc hu => Text.within_cons.2 ⟨hP.delimiter _ hc, hu⟩
  have hpath : Text.Within P (if p.params.isEmpty then p.path else p.path ++ ';' :: p.params) :=
    Text.within_ite h.path (Text.within_append.2 ⟨h.path, hdelimiter (by decide) h.params⟩)
  rw [Parts.text]
  refine Text.within_append.2 ⟨Text.within_append.2 ⟨Text.within_append.2 ⟨?_, ?_⟩, ?_⟩, ?_⟩
  · exact Text.within_ite Text.within_nil
      (Text.within_append.2 ⟨h.scheme, hdelimiter (by decide) Text.within_nil⟩)
  · refine Text.within_ite (Text.within_append.2 ⟨Text.within_append.2 ⟨?_, h.authority⟩, ?_⟩) hpath
    · exact hdelimiter (by decide) (hdelimiter (by decide) Text.within_nil)
    · exact Text.within_ite hpath (hdelimiter (by decide) hpath)
  · exact Text.within_ite Text.within_nil (hdelimiter (by decide) h.query)
  · exact Text.within_ite Text.within_nil (hdelimiter (by decide) h.fragment)

end Parts

/-! ### Resolving -/

theorem within_removeDots {kept ws : List Text} (hk : ∀ w ∈ kept, Within P w)
    (h : ∀ w ∈ ws, Within P w) : ∀ w ∈ removeDots kept ws, Within P w := by
  fun_induction removeDots kept ws with
  | case1 kept => exact fun w hw => hk w (List.mem_reverse.1 hw)
  | case2 kept ws ih =>
    exact ih (fun w hw => hk w (List.mem_of_mem_tail hw)) (List.forall_mem_cons.1 h).2
  | case3 kept ws _ ih => exact ih hk (List.forall_mem_cons.1 h).2
  | case4 kept w ws _ _ ih =>
    obtain ⟨hw, hws⟩ := List.forall_mem_cons.1 h
    exact ih (List.forall_mem_cons.2 ⟨hw, hk⟩) hws

theorem dropEmptyInner_subset (ws : List Text) : dropEmptyInner ws ⊆ ws := by
  intro w hw
  cases ws with
  | nil => exact hw
  | cons v ws =>
    rcases List.mem_cons.1 hw with rfl | hw
    · exact List.mem_cons_self ..
    rcases List.mem_append.1 hw with hw | hw
    · exact List.mem_cons_of_mem _ (List.dropLast_subset _ (List.mem_filter.1 hw).1)
    · exact List.mem_cons_of_mem _ (List.mem_of_getLast? (Option.mem_toList.1 hw))

theorem within_joinPath {path : Text} (hP : HoldsInUris P) (hb : Within P base)
    (hp : Within P path) : Within P (joinPath base path) := by
  have hslash : Within P ['/'] := Text.within_cons.2 ⟨hP.delimiter _ (by decide), Text.within_nil⟩
  have hbase := hb.splitOn '/'
  have hpath := hp.splitOn '/'
  rw [joinPath]
  generalize hdir : (if (base.splitOn '/').getLast? = some [] then base.splitOn '/'
    else (base.splitOn '/').dropLast) = directory
  have hdirectory : ∀ w ∈ directory, Within P w := by
    intro w hw
    rw [← hdir] at hw
    split at hw
    · exact hbase w hw
    · exact hbase w (List.dropLast_subset _ hw)
  generalize hseg : (if path.head? = some '/' then path.splitOn '/'
    else dropEmptyInner (directory ++ path.splitOn '/')) = segments
  have hsegments : ∀ w ∈ segments, Within P w := by
    intro w hw
    rw [← hseg] at hw
    split at hw
    · exact hpath w hw
    · rcases List.mem_append.1 (dropEmptyInner_subset _ hw) with hw | hw
      · exact hdirectory w hw
      · exact hpath w hw
  refine Text.within_ite hslash (Text.within_intercalate hslash fun w hw => ?_)
  rcases List.mem_append.1 hw with hw | hw
  · exact within_removeDots (fun w hw => (List.not_mem_nil hw).elim) hsegments w hw
  · split at hw
    · rw [List.mem_singleton.1 hw]
      exact Text.within_nil
    · cases hw

theorem within_joinParts {b r : Parts} (hP : HoldsInUris P) (hb : b.Within P) (hr : r.Within P) :
    (joinParts b r).Within P := by
  rw [joinParts]
  dsimp only
  split
  · exact hr
  · split
    · exact ⟨hr.scheme, Text.within_ite hb.authority hr.authority, hb.path, hb.params,
        Text.within_ite hb.query hr.query, hr.fragment⟩
    · exact ⟨hr.scheme, Text.within_ite hb.authority hr.authority,
        within_joinPath hP hb.path hr.path, hr.params, hr.query, hr.fragment⟩

theorem within_resolve (hP : HoldsInUris P) (hb : Within P base) (hr : Within P reference)
    (h : resolve base reference = .ok t) : Within P t := by
  rw [resolve] at h
  split at h
  · cases h; exact hr
  split at h
  · cases h; exact hb
  obtain ⟨b, hbase, h⟩ := exists_ok_of_bind h
  obtain ⟨r, href, h⟩ := exists_ok_of_bind h
  have hbparts := Parts.within_read hP Text.within_nil hb hbase
  have hrparts := Parts.within_read hP hbparts.scheme hr href
  split at h
  · cases h
    exact (within_joinParts hP hbparts hrparts).text hP
  · cases h; exact hr

/-- What holds of the characters of a base and of a reference holds of those of the reference when
it is resolved, if it holds in all URIs. -/
theorem within_join (hP : HoldsInUris P) (hb : Within P base) (hr : Within P reference)
    (h : join base reference = .ok t) : Within P t := by
  obtain ⟨u, hu, rfl⟩ := exists_ok_of_map h
  have hresolved := within_resolve hP hb hr hu
  exact Text.within_ite (Text.within_append.2 ⟨hresolved,
    Text.within_cons.2 ⟨hP.delimiter _ (by decide), Text.within_nil⟩⟩) hresolved

end Uri

end FormEdits
