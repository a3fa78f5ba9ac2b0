import TestingPlatform.Assets.Names
import TestingPlatform.Assets.Quorum
import TestingPlatform.Assets.Service
import TestingPlatform.Modules.Contract

/-!
# The name of the challenge record

`_parse_domain_name` of `core/schemas.py` bounds a domain by what DNS allows for a name; `verification_record_name` of
`core/config.py` puts one more label in front of it. The record name is legal exactly where the domain leaves room for that
label (`record_name_legal_iff`). A name that the resolver library refuses is never resolved, and every check of it answers
that no resolver is available (`refused_name_unavailable`).
-/

namespace TestingPlatform.Assets

open ReadCommitted

/-- What `_parse_domain_name` takes from the library `idna`. -/
structure Idna where
  /-- `idna.encode(value, uts46=True).decode("ascii")`, or the text of its `IDNAError`. -/
  encode : String → Except String String
  /-- Up to a dot at the end these are labels of 1 to 63 ASCII characters. -/
  labels : ∀ {value name}, encode value = .ok name → ∀ label ∈ (dropRoot name.toList).splitOn '.',
    label ≠ [] ∧ label.length ≤ 63 ∧ ∀ c ∈ label, c.toNat < 128

def parseDomainName (I : Idna) (value : String) : Except PyException String :=
  match I.encode value with
  | .error error => .error (.valueError ("Not a valid domain name: " ++ error))
  | .ok name =>
    -- `removesuffix(".")`
    let canonical := String.ofList (dropRoot name.toList)
    if canonical.toList.contains '.' = false then .error (.valueError "A domain name needs at least two labels.")
    else if 253 < canonical.length then
      .error (.valueError "A domain name is at most 253 characters in A-label form.")
    else .ok canonical

/-- The octets of a label. -/
def octets (label : List Char) : Nat := (label.map Char.utf8Size).sum

def legalLabel (label : List Char) : Bool := 1 ≤ octets label && octets label ≤ 63

/-- A name that DNS can carry. -/
def legalName (name : String) : Bool := (name.toList.splitOn '.').all legalLabel && name.length ≤ 253

/-- The label, or labels, in front of the domain. -/
def Settings.recordLabel (s : Settings) : String := "_" ++ s.verificationRecordPrefix ++ "-verify"

/-- The prefix makes legal labels, and the domain leaves room for them. -/
def Settings.roomFor (s : Settings) (canonical : String) : Bool :=
  (s.recordLabel.toList.splitOn '.').all legalLabel && s.recordLabel.length + 1 + canonical.length ≤ 253

section Parsed
variable {I : Idna} {value canonical : String}

theorem octets_ascii {label : List Char} (h : ∀ c ∈ label, c.toNat < 128) : octets label = label.length := by
  induction label with
  | nil => rfl
  | cons c label ih =>
    have hc : c.utf8Size = 1 := by
      have hlt : c.val.toNat < 128 := h c List.mem_cons_self
      rw [Char.utf8Size_eq_one_iff, UInt32.le_iff_toNat_le]
      exact Nat.le_of_lt_succ hlt
    have hrest := ih fun c' hc' => h c' (List.mem_cons_of_mem _ hc')
    simp only [octets, List.map_cons, List.sum_cons, List.length_cons, hc] at hrest ⊢
    omega

theorem parseDomainName_eq_ok (h : parseDomainName I value = .ok canonical) :
    (canonical.toList.splitOn '.').all legalLabel = true ∧ canonical.length ≤ 253 := by
  unfold parseDomainName at h
  split at h
  · cases h
  next name hname =>
    dsimp only at h
    split at h
    · cases h
    · split at h
      · cases h
      next hlength =>
        obtain rfl := Except.ok.inj h
        refine ⟨List.all_eq_true.2 fun label hlabel => ?_, not_lt.1 hlength⟩
        rw [String.toList_ofList] at hlabel
        obtain ⟨hne, hlong, hascii⟩ := I.labels hname label hlabel
        have hpos := List.length_pos_iff.2 hne
        simp only [legalLabel, octets_ascii hascii, Bool.and_eq_true, decide_eq_true_eq]
        omega

end Parsed

section RecordName
variable (s : Settings) (canonical : String)

theorem Settings.verificationRecordName_toList :
    (s.verificationRecordName canonical).toList = s.recordLabel.toList ++ '.' :: canonical.toList := by
  simp [verificationRecordName, recordLabel]

theorem Settings.length_verificationRecordName :
    (s.verificationRecordName canonical).length = s.recordLabel.length + 1 + canonical.length := by
  have hlist := congrArg List.length (s.verificationRecordName_toList canonical)
  simp only [List.length_append, List.length_cons, String.length_toList] at hlist
  omega

end RecordName

/-- A record name is legal exactly where there is room for it. -/
theorem record_name_legal_iff (I : Idna) (s : Settings) {value canonical : String}
    (h : parseDomainName I value = .ok canonical) :
    legalName (s.verificationRecordName canonical) = true ↔ s.roomFor canonical = true := by
  obtain ⟨hlabels, -⟩ := parseDomainName_eq_ok h
  rw [legalName, Settings.roomFor, s.verificationRecordName_toList, List.splitOn_append_cons_self, List.all_append, hlabels,
    Bool.and_true, s.length_verificationRecordName]

/-- A lowercase A-label as `idna` takes it. -/
def plainLabel (label : List Char) : Bool :=
  !label.isEmpty && decide (label.length ≤ 63) && label.all fun c => ('a' ≤ c && c ≤ 'z') || ('0' ≤ c && c ≤ '9') || c = '-'

theorem plainLabel_spec {label : List Char} (h : plainLabel label = true) :
    label ≠ [] ∧ label.length ≤ 63 ∧ ∀ c ∈ label, c.toNat < 128 := by
  simp only [plainLabel, Bool.and_eq_true, Bool.not_eq_true', List.isEmpty_eq_false_iff, decide_eq_true_eq, List.all_eq_true,
    Bool.or_eq_true] at h
  obtain ⟨⟨hne, hlong⟩, hplain⟩ := h
  refine ⟨hne, hlong, fun c hc => ?_⟩
  have hle : ∀ {d : Char}, c ≤ d → c.toNat ≤ d.toNat := fun hcd => UInt32.le_iff_toNat_le.1 hcd
  rcases hplain c hc with (⟨-, hz⟩ | ⟨-, hnine⟩) | hhyphen
  · exact (hle hz).trans_lt (by decide)
  · exact (hle hnine).trans_lt (by decide)
  · subst hhyphen
    decide

/-- `idna.encode` where it has nothing to encode. -/
def Idna.plain : Idna where
  encode value := if ((dropRoot value.toList).splitOn '.').all plainLabel then .ok value else .error "not an A-label"
  labels := by
    intro value name h label hlabel
    split at h
    next hall =>
      obtain rfl := Except.ok.inj h
      exact plainLabel_spec (List.all_eq_true.1 hall label hlabel)
    · cases h

theorem parseDomainName_plain {name : List Char} (hplain : ((dropRoot name).splitOn '.').all plainLabel = true)
    (hroot : dropRoot name = name) (hdot : name.contains '.' = true) (hlength : name.length ≤ 253) :
    parseDomainName .plain (String.ofList name) = .ok (String.ofList name) := by
  have hencode : Idna.plain.encode (String.ofList name) = .ok (String.ofList name) := by
    simp only [Idna.plain, String.toList_ofList]
    exact if_pos hplain
  simp [parseDomainName, hencode, hroot, hlength, List.contains_iff_mem.1 hdot]

/-- 242 characters, three labels of 63 and one of 50. -/
def longName : List Char :=
  List.replicate 63 'a' ++ '.' :: List.replicate 63 'b' ++ '.' :: List.replicate 63 'c' ++ '.' :: List.replicate 50 'd'

@[simp] theorem length_longName : longName.length = 242 := by
  simp only [longName, List.length_append, List.length_cons, List.length_replicate]

theorem parseDomainName_long : parseDomainName .plain (String.ofList longName) = .ok (String.ofList longName) :=
  parseDomainName_plain (by decide +kernel) (by decide +kernel) (by decide +kernel) (by simp)

/-- A domain with room for the label, and one without. -/
theorem record_name_legal_iff_of_parsed :
    (Settings.shipped.roomFor "www.example.lu" = true ∧
      (legalName (Settings.shipped.verificationRecordName "www.example.lu") = true ↔
        Settings.shipped.roomFor "www.example.lu" = true)) ∧
    Settings.shipped.roomFor (String.ofList longName) = false ∧
      (legalName (Settings.shipped.verificationRecordName (String.ofList longName)) = true ↔
        Settings.shipped.roomFor (String.ofList longName) = true) := by
  have hshort : parseDomainName .plain (String.ofList "www.example.lu".toList) = .ok (String.ofList "www.example.lu".toList) :=
    parseDomainName_plain (by decide) (by decide) (by decide) (by decide)
  rw [String.ofList_toList] at hshort
  refine ⟨⟨by decide, record_name_legal_iff .plain Settings.shipped hshort⟩, ?_,
    record_name_legal_iff .plain Settings.shipped parseDomainName_long⟩
  have hlength : ¬ Settings.shipped.recordLabel.length + 1 + (String.ofList longName).length ≤ 253 := by
    rw [String.length_ofList, length_longName]
    decide
  rw [Settings.roomFor, decide_eq_false hlength, Bool.and_false]

theorem long_domain_not_challengeable : parseDomainName .plain (String.ofList longName) = .ok (String.ofList longName) ∧
    legalName (Settings.shipped.verificationRecordName (String.ofList longName)) = false := by
  refine ⟨parseDomainName_long, ?_⟩
  have hlength : ¬ (Settings.shipped.verificationRecordName (String.ofList longName)).length ≤ 253 := by
    rw [Settings.shipped.length_verificationRecordName, String.length_ofList, length_longName]
    decide
  rw [legalName, decide_eq_false hlength, Bool.and_false]

/-! ### What a check of such a name answers -/

/-- Nobody has made a statement about the name. -/
def Unanswered (outcomes : List ResolverOutcome) : Prop := outcomes ≠ [] ∧ ∀ o ∈ outcomes, o.outcome ∈ platformOutcomes

theorem Unanswered.decideCheck {outcomes : List ResolverOutcome} (h : Unanswered outcomes) (s : Settings) (c : RunCheck) (a : Attempt) :
    decideCheck s c a outcomes = .refuse .resolverUnavailable := by
  have hnone : (outcomes.filter fun o => o.outcome = .answered) = [] := by
    refine List.filter_eq_nil_iff.2 fun o ho hanswered => ?_
    have hmem := h.2 o ho
    rw [of_decide_eq_true hanswered] at hmem
    exact absurd hmem (by decide)
  have hevaluate : evaluate outcomes a.token a.requestedScope s.verificationResolverQuorum =
      { verified := false, failureCode := some .resolverUnavailable } := by
    unfold evaluate
    dsimp only
    rw [if_pos hnone]
    exact if_pos h
  rw [Assets.decideCheck, hevaluate]
  rfl

section Refused
variable {π : Type} {S : Dns.Settings}

/-- Where a call is all of whose queries end before a name is looked up. -/
def NeverResolved (S : Dns.Settings) : Dns.Proc π → Prop
  | .called .. => True
  | .admission _ c | .spending _ c | .charged _ c => c.configured S ≠ []
  | .looping _ _ _ outcomes rest => (∀ o ∈ outcomes, o.outcome ∈ platformOutcomes) ∧ (outcomes ≠ [] ∨ rest ≠ [])
  | .querying _ _ _ outcomes .. => ∀ o ∈ outcomes, o.outcome ∈ platformOutcomes
  | .leaving _ result | .returned _ result => ∀ outcomes, result = .ok outcomes → Unanswered outcomes

theorem NeverResolved.step {d : Dns.Shared} {ch : Dns.Choice} {p : Dns.Proc π} {m : Dns.Step π} (h : NeverResolved S p)
    (hm : Dns.Leads S d ch p m) (hending : ch.ending = .dnsException) : NeverResolved S m.next := by
  have hsnoc : ∀ {outcomes : List ResolverOutcome} {o}, (∀ o ∈ outcomes, o.outcome ∈ platformOutcomes) →
      o.outcome ∈ platformOutcomes → ∀ o' ∈ outcomes ++ [o], o'.outcome ∈ platformOutcomes := by
    intro outcomes o hall ho o' ho'
    rcases List.mem_append.1 ho' with ho' | ho'
    · exact hall o' ho'
    · rwa [List.mem_singleton.1 ho']
  cases hm with
  | configured hsome => exact hsome
  | acquired | spent | released => exact h
  | started => exact ⟨fun o ho => absurd ho List.not_mem_nil, .inr h⟩
  | finished =>
    intro outcomes hok
    obtain rfl := Except.ok.inj hok
    exact ⟨h.2.resolve_right fun hne => hne rfl, h.1⟩
  | skipped => exact ⟨hsnoc h.1 (by simp [platformOutcomes, Dns.notAttempted]), .inl (by simp)⟩
  | asks => exact h.1
  | answered ho =>
    rw [hending] at ho
    obtain rfl := Except.ok.inj ho
    exact ⟨hsnoc h (by simp [platformOutcomes]), .inl (by simp)⟩
  | unconfigured | full | refused | unbuilt | escaped | overflowed => exact fun outcomes hok => by cases hok

/-- However often a name is checked that the library refuses to look up, the answer is that no resolver is available. -/
theorem refused_name_unavailable [DecidableEq π] {calls : π → Dns.Call} {i : π} {t : ℚ} {w : Dns.Calls π}
    (hrun : (Dns.process S π).Run (fun _ a => a.1 = i → a.2.ending = .dnsException) (Dns.Calls.start S t calls) w)
    {outcomes : List ResolverOutcome} (hreturned : w.proc i = .returned i (.ok outcomes)) (s : Settings) (c : RunCheck) (a : Attempt) :
    decideCheck s c a outcomes = .refuse .resolverUnavailable := by
  have hnever : NeverResolved S (w.proc i) := by
    refine hrun.invariant (I := fun w => NeverResolved S (w.proc i)) trivial fun w j ch m h hC hm => ?_
    by_cases hj : i = j
    · subst hj
      rw [System.proc_after_self]
      exact h.step (Dns.fires_leads hm).2 (hC rfl)
    · rwa [System.proc_after_of_ne hj]
  rw [hreturned] at hnever
  exact (hnever outcomes rfl).decideCheck s c a

end Refused

end TestingPlatform.Assets
