import TestingPlatform.Assets.Verification
import TestingPlatform.Lib.Labels
import Mathlib.Data.List.DropRight

/-!
# Which names a proof covers

`_labels` and `covers` of `domains/assets/verification.py`. The code compares lists of labels from the right;
`Containment` says on the strings what that comes to.
-/

namespace TestingPlatform.Assets

/-- `str.lower`; outside ASCII it is left open. -/
structure StrLower where
  lower : List Char → List Char
  lower_ascii : ∀ s, (∀ c ∈ s, c.toNat < 128) → lower s = s.map Char.toLower

def StrLower.ascii : StrLower := ⟨List.map Char.toLower, fun _ _ => rfl⟩

/-- `str.strip`. -/
def strip (s : List Char) : List Char := (s.dropWhile Text.isSpace).rdropWhile Text.isSpace

/-- One trailing dot is the root label. -/
def dropRoot (s : List Char) : List Char := if s.getLast? = some '.' then s.dropLast else s

section Covers
variable (L : StrLower)

def cleaned (name : String) : List Char := L.lower (dropRoot (strip name.toList))

def labels (name : String) : List (List Char) :=
  if cleaned L name = [] then []
  else
    let parts := (cleaned L name).splitOn '.'
    if parts.any List.isEmpty then [] else parts

def covers (proofValue : String) (proofScope : VerificationScope) (target : String) : Bool :=
  let proofLabels := labels L proofValue
  let targetLabels := labels L target
  if proofLabels = [] ∨ targetLabels = [] then false
  else
    match proofScope with
    | .exact => proofLabels = targetLabels
    -- `target_labels[-n:]`: the whole list where it is shorter than `n`.
    | .zone => targetLabels.drop (targetLabels.length - proofLabels.length) = proofLabels

end Covers

/-- Not empty, and without an empty label. -/
def IsName (s : List Char) : Prop := s ≠ [] ∧ [] ∉ s.splitOn '.'

/-- What a scope asks of two names. -/
def Reaches : VerificationScope → List Char → List Char → Prop
  | .exact, p, t => t = p
  | .zone, p, t => Labels.Within '.' p t

/-- What may be put in front of a name. -/
structure IsLabel (l : String) : Prop where
  nonempty : l.toList ≠ []
  ascii : ∀ c ∈ l.toList, c.toNat < 128
  no_dot : '.' ∉ l.toList
  no_space : ∀ c ∈ l.toList, Text.isSpace c = false

/-- The target with labels in front. -/
def beneath (ls : List String) (target : String) : String := ls.foldr (fun l t => l ++ "." ++ t) target

/-! ### The labels of a name -/

section Labels
variable {L : StrLower} {p q t : String}

theorem labels_eq (name : String) (h : labels L name ≠ []) :
    IsName (cleaned L name) ∧ labels L name = (cleaned L name).splitOn '.' := by
  unfold labels at h ⊢
  split
  · next hnil => simp [hnil] at h
  · next hne =>
    dsimp only at h ⊢
    split
    · next hany => simp [hany] at h
    · next hany =>
      refine ⟨⟨hne, fun hmem => hany ?_⟩, rfl⟩
      exact List.any_eq_true.2 ⟨[], hmem, rfl⟩

theorem labels_of_isName (h : IsName (cleaned L p)) : labels L p = (cleaned L p).splitOn '.' := by
  have hany : ((cleaned L p).splitOn '.').any List.isEmpty = false := by
    rw [List.any_eq_false]
    intro part hpart hempty
    exact h.2 (List.isEmpty_iff.1 hempty ▸ hpart)
  rw [labels, if_neg h.1]
  simp [hany]

theorem labels_ne_nil_iff : labels L p ≠ [] ↔ IsName (cleaned L p) := by
  constructor
  · intro h
    exact (labels_eq p h).1
  · intro h
    rw [labels_of_isName h]
    exact List.splitOn_ne_nil _ _

theorem drop_eq_iff_suffix {l l' : List (List Char)} : l.drop (l.length - l'.length) = l' ↔ l' <:+ l := by
  constructor
  · intro h
    exact h ▸ List.drop_suffix _ _
  · rintro ⟨u, rfl⟩
    simp

/-- On two names the scopes compare as `Reaches` does; anything else is not covered. -/
theorem covers_iff (proofScope : VerificationScope) :
    covers L p proofScope t = true ↔
      IsName (cleaned L p) ∧ IsName (cleaned L t) ∧ Reaches proofScope (cleaned L p) (cleaned L t) := by
  have hp := labels_ne_nil_iff (L := L) (p := p)
  have ht := labels_ne_nil_iff (L := L) (p := t)
  by_cases h : IsName (cleaned L p) ∧ IsName (cleaned L t)
  · obtain ⟨hpn, htn⟩ := h
    simp only [covers, labels_of_isName hpn, labels_of_isName htn, List.splitOn_ne_nil, or_self, if_false, hpn, htn,
      true_and]
    cases proofScope with
    | exact =>
      rw [decide_eq_true_eq]
      exact ⟨fun he => (Labels.splitOn_inj he).symm, fun he => by rw [show cleaned L t = cleaned L p from he]⟩
    | zone =>
      rw [decide_eq_true_eq, drop_eq_iff_suffix]
      exact Labels.splitOn_suffix_iff
  · have hnil : labels L p = [] ∨ labels L t = [] := by
      by_contra hne
      rw [not_or] at hne
      exact h ⟨hp.1 hne.1, ht.1 hne.2⟩
    simp only [covers, if_pos hnil]
    constructor
    · intro hf
      cases hf
    · rintro ⟨hpn, htn, -⟩
      exact absurd ⟨hpn, htn⟩ h

end Labels

/-! ### Names beneath a canonical one -/

section Beneath
variable {L : StrLower} {p t : String} {s : List Char}

theorem strip_sublist (s : List Char) : (strip s).Sublist s := by
  have hend : strip s <+: s.dropWhile Text.isSpace := List.rdropWhile_prefix _ _
  exact hend.sublist.trans (List.dropWhile_sublist _)

theorem dropRoot_sublist (s : List Char) : (dropRoot s).Sublist s := by
  unfold dropRoot
  split
  · exact List.dropLast_sublist s
  · exact List.Sublist.refl s

/-- Nothing is stripped exactly where no end is blank. -/
theorem strip_eq_self_iff (hne : s ≠ []) :
    strip s = s ↔ Text.isSpace (s.head hne) = false ∧ Text.isSpace (s.getLast hne) = false := by
  have hdrop : s.dropWhile Text.isSpace = s ↔ Text.isSpace (s.head hne) = false := by
    rw [List.dropWhile_eq_self_iff]
    simp [List.head_eq_getElem, List.length_pos_iff.2 hne]
  constructor
  · intro h
    have hs : s.dropWhile Text.isSpace = s := by
      refine (List.dropWhile_sublist _).eq_of_length_le ?_
      have hend : strip s <+: s.dropWhile Text.isSpace := List.rdropWhile_prefix _ _
      rw [← congrArg List.length h]
      exact hend.length_le
    rw [strip, hs, List.rdropWhile_eq_self_iff] at h
    exact ⟨hdrop.1 hs, by simpa using h hne⟩
  · rintro ⟨hhead, hlast⟩
    rw [strip, hdrop.2 hhead, List.rdropWhile_eq_self_iff]
    intro _
    simp [hlast]

/-- What `_labels` leaves alone is trimmed, has no trailing dot and is in lower case. -/
theorem cleaned_eq_self (hascii : ∀ c ∈ t.toList, c.toNat < 128) (h : cleaned L t = t.toList) :
    strip t.toList = t.toList ∧ dropRoot t.toList = t.toList ∧ t.toList.map Char.toLower = t.toList := by
  have hroot := dropRoot_sublist (strip t.toList)
  have hstrip := strip_sublist t.toList
  have hlower : cleaned L t = (dropRoot (strip t.toList)).map Char.toLower :=
    L.lower_ascii _ fun c hc => hascii c (hstrip.subset (hroot.subset hc))
  have hlen : (dropRoot (strip t.toList)).length = t.toList.length := by
    rw [← List.length_map Char.toLower, ← hlower, h]
  have hs : strip t.toList = t.toList :=
    hstrip.eq_of_length (le_antisymm hstrip.length_le (hlen ▸ hroot.length_le))
  rw [hs] at hlower hlen hroot
  have hr : dropRoot t.toList = t.toList := hroot.eq_of_length hlen
  rw [hr] at hlower
  exact ⟨hs, hr, hlower.symm.trans h⟩

theorem toNat_toLower (c : Char) :
    c.toLower = c ∨ (65 ≤ c.toNat ∧ c.toNat ≤ 90 ∧ c.toLower.toNat = c.toNat + 32) := by
  unfold Char.toLower
  split
  · next h =>
    right
    simp only [Char.toNat, UInt32.le_iff_toNat_le, ge_iff_le, UInt32.toNat_add] at h ⊢
    have hA : ('A').val.toNat = 65 := rfl
    have hZ : ('Z').val.toNat = 90 := rfl
    have hs : (('a').val - ('A').val).toNat = 32 := rfl
    omega
  · exact .inl rfl

theorem toLower_eq_dot {c : Char} (h : c.toLower = '.') : c = '.' := by
  rcases toNat_toLower c with hc | ⟨hupper, -, hc⟩
  · exact hc.symm.trans h
  · have hdot : ('.').toNat = 46 := rfl
    rw [h, hdot] at hc
    omega

/-- Labels in front of a lower-case name give a name of which that is the end. -/
theorem beneath_within (ls : List String) (hls : ∀ l ∈ ls, IsLabel l)
    (hname : IsName (t.toList.map Char.toLower)) :
    IsName ((beneath ls t).toList.map Char.toLower) ∧
      Labels.Within '.' (t.toList.map Char.toLower) ((beneath ls t).toList.map Char.toLower) := by
  induction ls with
  | nil => exact ⟨hname, Labels.Within.refl _ _⟩
  | cons l ls ih =>
    obtain ⟨hn, hw⟩ := ih fun l' hl' => hls l' (List.mem_cons_of_mem _ hl')
    have hl := hls l List.mem_cons_self
    have heq : (beneath (l :: ls) t).toList.map Char.toLower =
        l.toList.map Char.toLower ++ '.' :: (beneath ls t).toList.map Char.toLower := by
      simp [beneath, String.toList_append]
    have hdot : '.' ∉ l.toList.map Char.toLower := by
      intro hmem
      obtain ⟨c, hc, hlow⟩ := List.mem_map.1 hmem
      exact hl.no_dot (toLower_eq_dot hlow ▸ hc)
    rw [heq]
    refine ⟨⟨by simp, ?_⟩, hw.trans (.inr (List.suffix_append _ _))⟩
    rw [List.splitOn_append_cons_self_of_not_mem hdot, List.mem_cons, not_or]
    refine ⟨?_, hn.2⟩
    intro hnil
    exact hl.nonempty (List.map_eq_nil_iff.1 hnil.symm)

theorem beneath_ends (ls : List String) (hls : ∀ l ∈ ls, IsLabel l) :
    ∃ u, (beneath ls t).toList = u ++ t.toList ∧ (∀ c ∈ u, c.toNat < 128) ∧
      ∀ hne : u ≠ [], Text.isSpace (u.head hne) = false := by
  induction ls with
  | nil => exact ⟨[], rfl, by simp, fun hne => absurd rfl hne⟩
  | cons l ls ih =>
    obtain ⟨u, hu, hascii, -⟩ := ih fun l' hl' => hls l' (List.mem_cons_of_mem _ hl')
    have hl := hls l List.mem_cons_self
    have heq : (beneath (l :: ls) t).toList = l.toList ++ '.' :: (beneath ls t).toList := by
      simp [beneath, String.toList_append]
    refine ⟨l.toList ++ '.' :: u, by rw [heq, hu]; simp, ?_, ?_⟩
    · intro c hc
      rcases List.mem_append.1 hc with hc | hc
      · exact hl.ascii c hc
      · rcases List.mem_cons.1 hc with rfl | hc
        · decide
        · exact hascii c hc
    · intro hne
      rw [List.head_append_of_ne_nil hl.nonempty]
      exact hl.no_space _ (List.head_mem hl.nonempty)

/-- Labels in front of a canonical target leave it trimmed. -/
theorem cleaned_beneath (ls : List String) (hls : ∀ l ∈ ls, IsLabel l) (hascii : ∀ c ∈ t.toList, c.toNat < 128)
    (hcanon : cleaned L t = t.toList) (hne : t.toList ≠ []) :
    cleaned L (beneath ls t) = (beneath ls t).toList.map Char.toLower := by
  obtain ⟨hstrip, hroot, -⟩ := cleaned_eq_self hascii hcanon
  obtain ⟨u, hu, huascii, hhead⟩ := beneath_ends (t := t) ls hls
  obtain ⟨hthead, htlast⟩ := (strip_eq_self_iff hne).1 hstrip
  have hne' : u ++ t.toList ≠ [] := List.append_ne_nil_of_right_ne_nil _ hne
  have hstrip' : strip (u ++ t.toList) = u ++ t.toList := by
    refine (strip_eq_self_iff hne').2 ⟨?_, ?_⟩
    · rcases eq_or_ne u [] with rfl | hu'
      · exact hthead
      · rw [List.head_append_of_ne_nil hu']
        exact hhead hu'
    · rw [List.getLast_append_of_ne_nil hne' hne]
      exact htlast
  have hroot' : dropRoot (u ++ t.toList) = u ++ t.toList := by
    have hdot : t.toList.getLast? ≠ some '.' := by
      intro hdot
      rw [dropRoot, if_pos hdot] at hroot
      have hlen := congrArg List.length hroot
      rw [List.length_dropLast] at hlen
      have := List.length_pos_iff.2 hne
      omega
    rw [dropRoot, if_neg]
    rwa [List.getLast?_append_of_ne_nil _ hne]
  rw [cleaned, hu, hstrip', hroot']
  refine L.lower_ascii _ fun c hc => ?_
  rcases List.mem_append.1 hc with hc | hc
  · exact huascii c hc
  · exact hascii c hc

end Beneath

/-! ### Coverage is containment -/

/-- What `covers` decides, and the order it puts on names. -/
structure Containment (L : StrLower) : Prop where
  zone : ∀ p t, covers L p .zone t = true ↔
    IsName (cleaned L p) ∧ IsName (cleaned L t) ∧
      (cleaned L t = cleaned L p ∨ ('.' :: cleaned L p) <:+ cleaned L t)
  exact : ∀ p t, covers L p .exact t = true ↔
    IsName (cleaned L p) ∧ IsName (cleaned L t) ∧ cleaned L t = cleaned L p
  widens : ∀ p t, covers L p .exact t = true → covers L p .zone t = true
  apex : ∀ p, IsName (cleaned L p) → covers L p .zone p = true
  trans : ∀ p q t, covers L p .zone q = true → covers L q .zone t = true → covers L p .zone t = true
  antisymm : ∀ p q, covers L p .zone q = true → covers L q .zone p = true → cleaned L p = cleaned L q
  /-- Everything beneath a canonical target is covered with it. -/
  beneath : ∀ p t ls, (∀ c ∈ t.toList, c.toNat < 128) → cleaned L t = t.toList → (∀ l ∈ ls, IsLabel l) →
    covers L p .zone t = true → covers L p .zone (Assets.beneath ls t) = true
  /-- Zones do not overlap otherwise. -/
  nested : ∀ p q t, covers L p .zone t = true → covers L q .zone t = true →
    covers L p .zone q = true ∨ covers L q .zone p = true

theorem covers_containment (L : StrLower) : Containment L where
  zone _ _ := covers_iff .zone
  exact _ _ := covers_iff .exact
  widens p t h := by
    obtain ⟨hp, ht, heq⟩ := (covers_iff .exact).1 h
    exact (covers_iff .zone).2 ⟨hp, ht, .inl heq⟩
  apex p hp := (covers_iff .zone).2 ⟨hp, hp, .refl _ _⟩
  trans p q t h h' := by
    obtain ⟨hp, -, hpq⟩ := (covers_iff .zone).1 h
    obtain ⟨-, ht, hqt⟩ := (covers_iff .zone).1 h'
    exact (covers_iff .zone).2 ⟨hp, ht, Labels.Within.trans hpq hqt⟩
  antisymm p q h h' := by
    obtain ⟨-, -, hpq⟩ := (covers_iff .zone).1 h
    obtain ⟨-, -, hqp⟩ := (covers_iff .zone).1 h'
    exact Labels.Within.antisymm hpq hqp
  beneath p t ls hascii hcanon hls h := by
    obtain ⟨hp, ht, hpt⟩ := (covers_iff .zone).1 h
    obtain ⟨-, -, hlow⟩ := cleaned_eq_self hascii hcanon
    rw [hcanon] at ht hpt
    obtain ⟨hname, hw⟩ := beneath_within ls hls (hlow.symm ▸ ht)
    rw [← cleaned_beneath ls hls hascii hcanon ht.1] at hname hw
    rw [hlow] at hw
    exact (covers_iff .zone).2 ⟨hp, hname, Labels.Within.trans hpt hw⟩
  nested p q t h h' := by
    obtain ⟨hp, -, hpt⟩ := (covers_iff .zone).1 h
    obtain ⟨hq, -, hqt⟩ := (covers_iff .zone).1 h'
    rcases Labels.Within.comparable hpt hqt with hpq | hqp
    · exact .inl ((covers_iff .zone).2 ⟨hp, hq, hpq⟩)
    · exact .inr ((covers_iff .zone).2 ⟨hq, hp, hqp⟩)

example : covers .ascii "Example.lu." .zone " deeper.example.lu" = true ∧
    covers .ascii "example.lu" .zone "evil-example.lu" = false := by decide +kernel

end TestingPlatform.Assets
