import TestingPlatform.Core.Basic

/-!
# Deciding a verification check

The pure half of `domains/assets/verification.py`: which answers of the resolvers prove control of a name.
Coverage `exact` needs every answer with the token validated or a quorum of such answers; `zone` needs
validation.
-/

namespace TestingPlatform

inductive VerificationScope where
  | exact | zone
  deriving DecidableEq, Repr

inductive VerificationFailureCode where
  | recordNotFound | nameNotFound | tokenMismatch | resolverFailure | corroborationNotReached | challengeExpired
  | challengeSuperseded | zoneRequiresDnssec | resolverUnavailable | capacityExhausted | claimLost
  deriving DecidableEq, Repr

/-- The text that is stored and answered. -/
def VerificationFailureCode.value : VerificationFailureCode → String
  | recordNotFound => "dns.record-not-found"
  | nameNotFound => "dns.name-not-found"
  | tokenMismatch => "dns.token-mismatch"
  | resolverFailure => "dns.resolver-failure"
  | corroborationNotReached => "dns.corroboration-not-reached"
  | challengeExpired => "challenge.expired"
  | challengeSuperseded => "challenge.superseded"
  | zoneRequiresDnssec => "policy.zone-requires-dnssec"
  | resolverUnavailable => "platform.resolver-unavailable"
  | capacityExhausted => "platform.capacity-exhausted"
  | claimLost => "claim.lost"

/-- `_PLATFORM_FAULTS`: refused without a record. -/
def VerificationFailureCode.platformFault : VerificationFailureCode → Bool
  | resolverUnavailable | capacityExhausted => true
  | _ => false

namespace Assets

inductive DnsOutcome where
  | answered | noRecord | nameNotFound | timeout | serverFailure | transportFailure | notAttempted
  deriving DecidableEq, Repr

/-- What one resolver said. Each entry of `strings` is one RR with its character-strings. -/
structure ResolverOutcome where
  resolverId : String
  outcome : DnsOutcome
  authenticated : Bool := false
  strings : List (List (List UInt8)) := []
  deriving DecidableEq, Repr

/-- `token_matches`: some RR is the token, its strings joined; a token that is not ASCII matches nothing. -/
def tokenMatches (token : String) (rrset : List (List (List UInt8))) : Bool :=
  token.toList.all (fun c => c.toNat < 128) &&
    rrset.any fun strings => strings.flatten = token.toList.map fun c => UInt8.ofNat c.toNat

/-- What the answers mean; a check fails exactly with a code. -/
structure CheckVerdict where
  verified : Bool
  failureCode : Option VerificationFailureCode
  dnssecValidated : Bool := false
  resolvers : List String := []
  corroboratingAnswers : Nat := 0
  fails_with_code : verified = false ↔ failureCode.isSome := by simp

def platformOutcomes : List DnsOutcome := [.timeout, .transportFailure, .notAttempted]

def noAnswerCodes : List (DnsOutcome × VerificationFailureCode) :=
  [(.noRecord, .recordNotFound), (.nameNotFound, .nameNotFound), (.serverFailure, .resolverFailure),
    (.transportFailure, .resolverFailure)]

/-- The answers that carry the token. -/
def carrying (outcomes : List ResolverOutcome) (token : String) : List ResolverOutcome :=
  (outcomes.filter fun o => o.outcome = .answered).filter fun o => tokenMatches token o.strings

def evaluate (outcomes : List ResolverOutcome) (token : String) (requestedScope : VerificationScope) (quorum : Nat) :
    CheckVerdict :=
  let answered := outcomes.filter fun o => o.outcome = .answered
  if answered = [] then
    if outcomes ≠ [] ∧ ∀ o ∈ outcomes, o.outcome ∈ platformOutcomes then
      { verified := false, failureCode := some .resolverUnavailable }
    else
      let code := (noAnswerCodes.find? fun p => outcomes.any fun o => o.outcome = p.1).map (·.2)
      { verified := false, failureCode := some (code.getD .resolverFailure) }
  else
    let carrying := carrying outcomes token
    if carrying = [] then
      let empty := answered.all fun o => o.strings = []
      { verified := false, failureCode := some (if empty then .recordNotFound else .tokenMismatch) }
    else
      let resolvers := carrying.map ResolverOutcome.resolverId
      let validated := carrying.all ResolverOutcome.authenticated
      if requestedScope = .zone ∧ validated = false then
        { verified := false, failureCode := some .zoneRequiresDnssec, resolvers
          corroboratingAnswers := carrying.length }
      else if validated ∨ quorum ≤ carrying.length then
        { verified := true, failureCode := none, dnssecValidated := validated, resolvers
          corroboratingAnswers := carrying.length }
      else
        { verified := false, failureCode := some .corroborationNotReached, resolvers
          corroboratingAnswers := carrying.length }

/-- What a verified check rests on. -/
structure Proven (outcomes : List ResolverOutcome) (token : String) (requestedScope : VerificationScope) (quorum : Nat)
    (v : CheckVerdict) : Prop where
  carried : carrying outcomes token ≠ []
  /-- `zone` is never granted without validation, `exact` not without validation or quorum. -/
  bar : (∀ o ∈ carrying outcomes token, o.authenticated = true) ∨
    (requestedScope = .exact ∧ quorum ≤ (carrying outcomes token).length)
  dnssec : v.dnssecValidated = true ↔ ∀ o ∈ carrying outcomes token, o.authenticated = true
  resolvers : v.resolvers = (carrying outcomes token).map ResolverOutcome.resolverId
  corroborating : v.corroboratingAnswers = (carrying outcomes token).length

/-- `evaluate` verifies exactly what is proven. -/
theorem evaluate_verified {outcomes : List ResolverOutcome} {token : String} {requestedScope : VerificationScope}
    {quorum : Nat} (h : (evaluate outcomes token requestedScope quorum).verified = true) :
    Proven outcomes token requestedScope quorum (evaluate outcomes token requestedScope quorum) := by
  have hall : (carrying outcomes token).all ResolverOutcome.authenticated = true ↔
      ∀ o ∈ carrying outcomes token, o.authenticated = true := List.all_eq_true
  unfold evaluate at h ⊢
  dsimp only at h ⊢
  split at h
  · split at h <;> cases h
  split at h
  · cases h
  split at h
  · cases h
  split at h
  · next hans hcar hzone hbar =>
    rw [if_neg hans, if_neg hcar, if_neg hzone, if_pos hbar]
    refine ⟨hcar, ?_, hall, rfl, rfl⟩
    rcases hbar with hval | hq
    · exact .inl (hall.1 hval)
    · cases hs : requestedScope with
      | exact => exact .inr ⟨rfl, hq⟩
      | zone =>
        left
        refine hall.1 ?_
        by_contra hne
        exact hzone ⟨hs, by simpa using hne⟩
  · cases h

/-! ### The two bars -/

/-- An answer one of whose RRs is the token, byte for byte. -/
def Carries (token : String) (o : ResolverOutcome) : Prop :=
  o.outcome = .answered ∧ (∀ c ∈ token.toList, c.toNat < 128) ∧
    ∃ strings ∈ o.strings, strings.flatten = token.toList.map fun c => UInt8.ofNat c.toNat

instance (token : String) : DecidablePred (Carries token) := fun _ => inferInstanceAs (Decidable (_ ∧ _ ∧ _))

/-- The same verdict, its resolvers in any order. -/
structure CheckVerdict.Same (v v' : CheckVerdict) : Prop where
  verified : v.verified = v'.verified
  failureCode : v.failureCode = v'.failureCode
  dnssecValidated : v.dnssecValidated = v'.dnssecValidated
  resolvers : v.resolvers.Perm v'.resolvers
  corroboratingAnswers : v.corroboratingAnswers = v'.corroboratingAnswers

section Bars
variable {outcomes outcomes' : List ResolverOutcome} {token : String} {requestedScope : VerificationScope} {quorum : Nat}

theorem carrying_eq_filter (outcomes : List ResolverOutcome) (token : String) :
    carrying outcomes token = outcomes.filter fun o => Carries token o := by
  rw [carrying, List.filter_filter]
  refine List.filter_congr fun o _ => ?_
  have hcarries : decide (Carries token o) = true ↔ Carries token o := decide_eq_true_iff
  rw [Bool.eq_iff_iff, hcarries, Bool.and_comm]
  simp only [tokenMatches, Carries, decide_eq_true_eq, Bool.and_eq_true, List.all_eq_true, List.any_eq_true]

theorem mem_carrying {o : ResolverOutcome} : o ∈ carrying outcomes token ↔ o ∈ outcomes ∧ Carries token o := by
  rw [carrying_eq_filter, List.mem_filter, decide_eq_true_eq]

theorem carrying_append (l l' : List ResolverOutcome) :
    carrying (l ++ l') token = carrying l token ++ carrying l' token := by
  simp only [carrying, List.filter_append]

theorem carrying_perm (h : outcomes.Perm outcomes') : (carrying outcomes token).Perm (carrying outcomes' token) :=
  (h.filter _).filter _

theorem answered_of_carrying (h : carrying outcomes token ≠ []) : (outcomes.filter fun o => o.outcome = .answered) ≠ [] := by
  intro hnil
  exact h (by rw [carrying, hnil, List.filter_nil])

/-- The decision reads nothing but the answers that carry the token. -/
theorem evaluate_verified_iff :
    (evaluate outcomes token requestedScope quorum).verified = true ↔
      carrying outcomes token ≠ [] ∧ ((∀ o ∈ carrying outcomes token, o.authenticated = true) ∨
        (requestedScope = .exact ∧ quorum ≤ (carrying outcomes token).length)) := by
  constructor
  · intro h
    have hproven := evaluate_verified h
    exact ⟨hproven.carried, hproven.bar⟩
  · rintro ⟨hcar, hbar⟩
    have hzone : ¬ (requestedScope = .zone ∧ (carrying outcomes token).all ResolverOutcome.authenticated = false) := by
      rintro ⟨hs, hval⟩
      rcases hbar with hall | ⟨hexact, -⟩
      · rw [List.all_eq_true.2 hall] at hval
        cases hval
      · rw [hs] at hexact
        cases hexact
    have hpass : (carrying outcomes token).all ResolverOutcome.authenticated = true ∨
        quorum ≤ (carrying outcomes token).length :=
      hbar.imp List.all_eq_true.2 And.right
    unfold evaluate
    dsimp only
    rw [if_neg (answered_of_carrying hcar), if_neg hcar, if_neg hzone, if_pos hpass]

theorem evaluate_perm (h : outcomes.Perm outcomes') :
    (evaluate outcomes token requestedScope quorum).Same (evaluate outcomes' token requestedScope quorum) := by
  have hans := h.filter fun o => o.outcome = .answered
  have hcar : (carrying outcomes token).Perm (carrying outcomes' token) := carrying_perm h
  have hnil : ∀ {l l' : List ResolverOutcome}, l.Perm l' → (l = [] ↔ l' = []) := fun hp =>
    ⟨fun he => (he ▸ hp).nil_eq.symm, fun he => (he ▸ hp.symm).nil_eq.symm⟩
  have hany : ∀ f : ResolverOutcome → Bool, outcomes.any f = outcomes'.any f := fun f => by
    rw [Bool.eq_iff_iff, List.any_eq_true, List.any_eq_true]
    simp only [h.mem_iff]
  have hempty : (outcomes.filter fun o => o.outcome = .answered).all (fun o => o.strings = []) =
      (outcomes'.filter fun o => o.outcome = .answered).all (fun o => o.strings = []) := by
    rw [Bool.eq_iff_iff, List.all_eq_true, List.all_eq_true]
    simp only [hans.mem_iff]
  have hval : (carrying outcomes token).all ResolverOutcome.authenticated =
      (carrying outcomes' token).all ResolverOutcome.authenticated := by
    rw [Bool.eq_iff_iff, List.all_eq_true, List.all_eq_true]
    simp only [hcar.mem_iff]
  unfold evaluate
  simp only [hnil hans, hnil hcar, hnil h, hany, hempty, hval, hcar.length_eq, h.mem_iff, ne_eq]
  split
  · split <;> exact ⟨rfl, rfl, rfl, .refl _, rfl⟩
  split
  · exact ⟨rfl, rfl, rfl, .refl _, rfl⟩
  split
  · exact ⟨rfl, rfl, rfl, hcar.map _, rfl⟩
  split <;> exact ⟨rfl, rfl, rfl, hcar.map _, rfl⟩

/-- The verdict rests on the carrying answers alone, so answers of another kind do not move it. -/
theorem verified_congr_carrying (h : (carrying outcomes token).Perm (carrying outcomes' token)) :
    (evaluate outcomes token requestedScope quorum).verified = (evaluate outcomes' token requestedScope quorum).verified := by
  have hne : carrying outcomes token ≠ [] ↔ carrying outcomes' token ≠ [] := by
    rw [← List.length_pos_iff, h.length_eq, List.length_pos_iff]
  rw [Bool.eq_iff_iff, evaluate_verified_iff, evaluate_verified_iff, hne, h.length_eq]
  simp only [h.mem_iff]

theorem carrying_eq_nil (h : ∀ o ∈ outcomes, ¬ Carries token o) : carrying outcomes token = [] :=
  List.eq_nil_iff_forall_not_mem.2 fun o ho => h o (mem_carrying.1 ho).1 (mem_carrying.1 ho).2

theorem carrying_cons {o : ResolverOutcome} (h : Carries token o) :
    carrying (o :: outcomes) token = o :: carrying outcomes token := by
  rw [carrying_eq_filter, carrying_eq_filter, List.filter_cons_of_pos (by simpa using h)]

/-- Validating an answer that carries the token takes nothing away. -/
theorem verified_of_authenticated {l r : List ResolverOutcome} {o : ResolverOutcome} (ho : Carries token o)
    (h : (evaluate (l ++ o :: r) token requestedScope quorum).verified = true) :
    (evaluate (l ++ { o with authenticated := true } :: r) token requestedScope quorum).verified = true := by
  have ho' : Carries token { o with authenticated := true } := ho
  rw [evaluate_verified_iff, carrying_append, carrying_cons ho] at h
  rw [evaluate_verified_iff, carrying_append, carrying_cons ho']
  obtain ⟨-, hbar⟩ := h
  refine ⟨by simp, ?_⟩
  rcases hbar with hall | ⟨hexact, hq⟩
  · left
    intro x hx
    rcases List.mem_append.1 hx with hx | hx
    · exact hall x (List.mem_append_left _ hx)
    · rcases List.mem_cons.1 hx with rfl | hx
      · rfl
      · exact hall x (List.mem_append_right _ (List.mem_cons_of_mem _ hx))
  · right
    rw [List.length_append, List.length_cons] at hq ⊢
    exact ⟨hexact, hq⟩

theorem evaluate_unavailable_iff (hne : outcomes ≠ []) :
    (evaluate outcomes token requestedScope quorum).failureCode = some .resolverUnavailable ↔
      ∀ o ∈ outcomes, o.outcome ∈ platformOutcomes := by
  unfold evaluate
  dsimp only
  by_cases hans : (outcomes.filter fun o => o.outcome = .answered) = []
  · rw [if_pos hans]
    by_cases hall : ∀ o ∈ outcomes, o.outcome ∈ platformOutcomes
    · rw [if_pos ⟨hne, hall⟩]
      exact iff_of_true rfl hall
    · rw [if_neg fun h => hall h.2]
      refine iff_of_false ?_ hall
      -- None of the codes for a missing answer is the platform's.
      have hcode : ∀ p ∈ noAnswerCodes, p.2 ≠ .resolverUnavailable := by decide
      rw [Option.some_inj]
      cases hf : noAnswerCodes.find? fun p => outcomes.any fun o => o.outcome = p.1 with
      | none => simp
      | some p => simpa using hcode p (List.mem_of_find?_eq_some hf)
  · rw [if_neg hans]
    have hsome : ¬ ∀ o ∈ outcomes, o.outcome ∈ platformOutcomes := by
      intro hall
      refine hans (List.filter_eq_nil_iff.2 fun o ho heq => ?_)
      rw [decide_eq_true_eq] at heq
      have hplatform := hall o ho
      rw [heq] at hplatform
      exact absurd hplatform (by decide)
    refine iff_of_false ?_ hsome
    split
    · split <;> simp
    split
    · simp
    split <;> simp

end Bars

/-- What `evaluate` decides over the outcomes of a check. -/
structure TwoBars (token : String) (requestedScope : VerificationScope) (quorum : Nat) : Prop where
  verified : ∀ outcomes, (evaluate outcomes token requestedScope quorum).verified = true ↔
    carrying outcomes token ≠ [] ∧ ((∀ o ∈ carrying outcomes token, o.authenticated = true) ∨
      (requestedScope = .exact ∧ quorum ≤ (carrying outcomes token).length))
  carries : ∀ outcomes, carrying outcomes token = outcomes.filter fun o => Carries token o
  code : ∀ outcomes, (evaluate outcomes token requestedScope quorum).verified = true ↔
    (evaluate outcomes token requestedScope quorum).failureCode = none
  describes : ∀ outcomes, (evaluate outcomes token requestedScope quorum).verified = true →
    Proven outcomes token requestedScope quorum (evaluate outcomes token requestedScope quorum)
  perm : ∀ outcomes outcomes', outcomes.Perm outcomes' →
    (evaluate outcomes token requestedScope quorum).Same (evaluate outcomes' token requestedScope quorum)
  /-- Whatever else is said about the name changes nothing. -/
  silent : ∀ outcomes extra outcomes', (∀ o ∈ extra, ¬ Carries token o) → outcomes'.Perm (outcomes ++ extra) →
    (evaluate outcomes' token requestedScope quorum).verified = (evaluate outcomes token requestedScope quorum).verified
  authenticated : ∀ l o r, Carries token o → (evaluate (l ++ o :: r) token requestedScope quorum).verified = true →
    (evaluate (l ++ { o with authenticated := true } :: r) token requestedScope quorum).verified = true
  unavailable : ∀ outcomes, outcomes ≠ [] →
    ((evaluate outcomes token requestedScope quorum).failureCode = some .resolverUnavailable ↔
      ∀ o ∈ outcomes, o.outcome = .timeout ∨ o.outcome = .transportFailure ∨ o.outcome = .notAttempted)

theorem evaluate_twoBars (token : String) (requestedScope : VerificationScope) (quorum : Nat) :
    TwoBars token requestedScope quorum where
  verified _ := evaluate_verified_iff
  carries outcomes := carrying_eq_filter outcomes token
  code outcomes := by
    have hcode := (evaluate outcomes token requestedScope quorum).fails_with_code
    rw [← Option.not_isSome_iff_eq_none, ← hcode, Bool.not_eq_false]
  describes _ := evaluate_verified
  perm _ _ := evaluate_perm
  silent outcomes extra outcomes' hextra hperm := by
    refine verified_congr_carrying ((carrying_perm hperm).trans ?_)
    rw [carrying_append, carrying_eq_nil hextra, List.append_nil]
  authenticated _ _ _ := verified_of_authenticated
  unavailable outcomes hne := by
    rw [evaluate_unavailable_iff hne]
    simp [platformOutcomes]

end Assets

end TestingPlatform
