import TestingPlatform.Assets.Service

/-!
# What one statement leads to

`Stamps` lists the statements that stamp a challenge, with what they stamp and answer; `Leads` lists all statements of a
request, with what they have found out when they go on.
-/

namespace TestingPlatform.Assets

open ReadCommitted

/-- The statement stamps the challenge of its asset and answers once that is committed. -/
inductive Stamps (c : RunCheck) : Proc → CheckRecord → Answer → Prop
  | superseded {a : Attempt} :
      Stamps c (.stampSuperseded c a) ⟨a.assetId, c.checkedAt, some .challengeSuperseded, none, none⟩ .superseded
  | failed {a : Attempt} {code : Option VerificationFailureCode} :
      Stamps c (.stampVerdict c a code) ⟨a.assetId, c.checkedAt, code, none, none⟩ (.failed code)
  | claimLost {a : Attempt} :
      Stamps c (.stampClaimLost c a) ⟨a.assetId, c.checkedAt, some .claimLost, none, none⟩ (.refused .domainClaimLost)
  | verified {a : Attempt} {row : DomainVerification} {named : Bool} :
      Stamps c (.stampVerified c a row named)
        ⟨a.assetId, c.checkedAt, none, some row, if named then some (c.organizationId, a.value) else none⟩ (.verified row)

/-- What one statement of a request leads to. -/
inductive Leads (s : Settings) (d : Db) : Proc → Step → Prop
  | refused {p : Proc} {op : Op Lock Write} {r : Refusal} (hr : r ≠ .domainClaimLost) (hop : op = .read ∨ ∃ ks, op = .lock ks) :
      Leads s d p { op, next := .refuse r }
  | started {c : StartChallenge} {asset : Asset} (hasset : c.assetFor d c.assetId = some asset) :
      Leads s d (.startChallenge c)
        { op := .read, next := .upsertChallenge c.toCaller (issue s c.toCaller asset c.requestedScope c.token c.now) }
  | chosen {c : RegenerateToken} {asset : Asset} (hasset : c.assetFor d c.assetId = some asset) :
      Leads s d (.regenerateToken c) { op := .read, next := .regenerateProof c asset }
  | unproved {c : RegenerateToken} {asset : Asset} (hproof : c.proofFor d asset.id = none) :
      Leads s d (.regenerateProof c asset) { op := .read, next := .regenerateExisting c asset }
  | reissued {c : RegenerateToken} {asset : Asset} {existing : Challenge} (hexisting : c.challengeFor d asset.id = some existing) :
      Leads s d (.regenerateExisting c asset)
        { op := .read, next := .upsertChallenge c.toCaller (issue s c.toCaller asset existing.requestedScope c.token c.now) }
  | upserted {c : Caller} {row : Challenge} :
      Leads s d (.upsertChallenge c row) { op := .lock [.challenge row.assetId], next := .commitChallenge row }
  | issued {row : Challenge} :
      Leads s d (.commitChallenge row) { op := .commit [.challenge row], next := .done, emit := [.issued row] }
  | found {c : RunCheck} {asset : Asset} (hasset : c.assetFor d c.assetId = some asset) :
      Leads s d (.runCheck c) { op := .read, next := .checkChallenge c asset }
  | pending {c : RunCheck} {asset : Asset} {challenge : Challenge} (hchallenge : c.challengeFor d asset.id = some challenge)
      (hpending : c.readAt < challenge.tokenExpiresAt) :
      Leads s d (.checkChallenge c asset) { op := .read, next := .endRead c (.of asset challenge) }
  | ended {c : RunCheck} {a : Attempt} : Leads s d (.endRead c a) { op := .commit [], next := .resolve c a }
  | resolved {c : RunCheck} {a : Attempt} {outcomes : List ResolverOutcome} (houtcomes : c.resolveTxt a.recordName = some outcomes) :
      Leads s d (.resolve c a) { op := .read, next := .credentials c a outcomes }
  | refreshed {c : RunCheck} {a : Attempt} {outcomes : List ResolverOutcome} {fresh : Challenge}
      (hfresh : c.challengeFor d a.assetId = some fresh) (hpending : c.checkedAt < fresh.tokenExpiresAt) :
      Leads s d (.credentials c a outcomes) { op := .read, next := .reread c a outcomes fresh.verificationToken }
  | superseded {c : RunCheck} {a : Attempt} {outcomes : List ResolverOutcome} {currentToken : String} (htoken : currentToken ≠ a.token) :
      Leads s d (.reread c a outcomes currentToken) { op := .read, next := .stampSuperseded c a }
  | verified {c : RunCheck} {a : Attempt} {outcomes : List ResolverOutcome} {v : CheckVerdict}
      (hv : v = evaluate outcomes a.token a.requestedScope s.verificationResolverQuorum) (hverified : v.verified = true) :
      Leads s d (.reread c a outcomes a.token) { op := .read, next := .upsertProof c a v }
  | failed {c : RunCheck} {a : Attempt} {outcomes : List ResolverOutcome} {v : CheckVerdict}
      (hv : v = evaluate outcomes a.token a.requestedScope s.verificationResolverQuorum) (hfailed : v.verified = false)
      (hfault : ¬ v.failureCode.any VerificationFailureCode.platformFault = true) :
      Leads s d (.reread c a outcomes a.token) { op := .read, next := .stampVerdict c a v.failureCode }
  | proved {c : RunCheck} {a : Attempt} {v : CheckVerdict}
      (hfree : ¬ (d.proofs.rows.any fun x => x.value = a.value ∧ x.assetId ≠ a.assetId) = true) :
      Leads s d (.upsertProof c a v)
        { op := .lock [.proof a.assetId, .claim a.value], next := .nameOrganization c a (prove c a v) }
  | lost {c : RunCheck} {a : Attempt} {v : CheckVerdict} :
      Leads s d (.upsertProof c a v) { op := .lock [.proof a.assetId, .claim a.value], next := .lostClaim c a }
  | names {c : RunCheck} {a : Attempt} {row : DomainVerification} {o : Organization}
      (ho : d.organizations.find c.organizationId = some o) (hnone : o.namedAt = none) :
      Leads s d (.nameOrganization c a row) { op := .lock [.organization c.organizationId], next := .stampVerified c a row true }
  | named {c : RunCheck} {a : Attempt} {row : DomainVerification}
      (hnamed : ∀ o, d.organizations.find c.organizationId = some o → o.namedAt ≠ none) :
      Leads s d (.nameOrganization c a row) { op := .read, next := .stampVerified c a row false }
  | undone {c : RunCheck} {a : Attempt} :
      Leads s d (.lostClaim c a) { op := .unlock [.proof a.assetId, .claim a.value], next := .stampClaimLost c a }
  | stamped {c : RunCheck} {p : Proc} {r : CheckRecord} {answer : Answer} (hstamps : Stamps c p r answer)
      (hfound : (c.challengeFor d r.assetId).isSome = true) :
      Leads s d p { op := .lock [.challenge r.assetId], next := .commitCheck r answer }
  | recorded {r : CheckRecord} {answer : Answer} :
      Leads s d (.commitCheck r answer) { op := .commit r.writes, next := .done, emit := [answer] }
  | refuses {r : Refusal} : Leads s d (.refuse r) { op := .rollback, next := .done, emit := [.refused r] }

section Leads
variable {s : Settings} {d : Db}

theorem Stamps.leads {c : RunCheck} {p : Proc} {r : CheckRecord} {answer : Answer} (h : Stamps c p r answer) :
    Leads s d p (stamp c d r answer) := by
  unfold stamp
  split
  next hfound => exact .stamped h hfound
  · exact .refused (by simp) (.inr ⟨_, rfl⟩)

theorem leads_decideCheck {c : RunCheck} {a : Attempt} {outcomes : List ResolverOutcome} :
    Leads s d (.reread c a outcomes a.token) { op := .read, next := decideCheck s c a outcomes } := by
  unfold decideCheck
  dsimp only
  split
  next hverified => exact .verified rfl hverified
  next hfailed =>
    split
    · exact .refused (by simp) (.inl rfl)
    next hfault => exact .failed rfl (by simpa using hfailed) hfault

theorem go_leads {p : Proc} {m : Step} (h : go s d p = some m) : Leads s d p m := by
  cases p with
  | startChallenge c =>
    cases h
    split
    · exact .refused (by simp) (.inl rfl)
    next asset hasset =>
      split
      · exact .refused (by simp) (.inl rfl)
      · exact .started hasset
  | regenerateToken c =>
    cases h
    split
    · exact .refused (by simp) (.inl rfl)
    next asset hasset => exact .chosen hasset
  | regenerateProof c asset =>
    cases h
    split
    · exact .refused (by simp) (.inl rfl)
    next hproof => exact .unproved (by simpa using hproof)
  | regenerateExisting c asset =>
    cases h
    split
    · exact .refused (by simp) (.inl rfl)
    next existing hexisting => exact .reissued hexisting
  | upsertChallenge c row =>
    cases h
    split
    · exact .upserted
    · exact .refused (by simp) (.inr ⟨_, rfl⟩)
  | runCheck c =>
    cases h
    split
    · exact .refused (by simp) (.inl rfl)
    next asset hasset =>
      split
      · exact .refused (by simp) (.inl rfl)
      · exact .found hasset
  | checkChallenge c asset =>
    cases h
    split
    · exact .refused (by simp) (.inl rfl)
    next challenge hchallenge =>
      split
      · exact .refused (by simp) (.inl rfl)
      next hpending => exact .pending hchallenge (Int.not_le.1 hpending)
  | resolve c a =>
    cases h
    split
    · exact .refused (by simp) (.inl rfl)
    next houtcomes => exact .resolved houtcomes
  | credentials c a outcomes =>
    cases h
    split
    · exact .refused (by simp) (.inl rfl)
    next fresh hfresh =>
      split
      · exact .refused (by simp) (.inl rfl)
      next hpending => exact .refreshed hfresh (Int.not_le.1 hpending)
  | reread c a outcomes currentToken =>
    cases h
    split
    · exact .refused (by simp) (.inl rfl)
    split
    next htoken => exact .superseded htoken
    next htoken =>
      obtain rfl : currentToken = a.token := by simpa using htoken
      exact leads_decideCheck
  | stampSuperseded c a =>
    cases h
    exact Stamps.superseded.leads
  | stampVerdict c a code =>
    cases h
    exact Stamps.failed.leads
  | upsertProof c a v =>
    cases h
    split
    · exact .refused (by simp) (.inr ⟨_, rfl⟩)
    split
    · exact .lost
    next hfree => exact .proved hfree
  | nameOrganization c a row =>
    simp only [go] at h
    split at h <;> cases h
    next hany =>
      obtain ⟨o, ho, hnone⟩ := (Option.any_eq_true ..).1 hany
      exact .names ho (of_decide_eq_true hnone)
    next hany =>
      refine .named fun o ho hnone => hany ?_
      rw [ho, Option.any_some, hnone]
      rfl
  | stampClaimLost c a =>
    cases h
    exact Stamps.claimLost.leads
  | stampVerified c a row named =>
    cases h
    exact Stamps.verified.leads
  | commitChallenge | endRead | lostClaim | commitCheck | refuse =>
    cases h
    constructor
  | done => cases h

end Leads

end TestingPlatform.Assets
