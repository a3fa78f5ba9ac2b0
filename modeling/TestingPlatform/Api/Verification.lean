import TestingPlatform.Api.Dependencies
import TestingPlatform.Assets.States

/-!
# The verification routes

`domains/assets/service.py` behind `domains/assets/router.py`, with every statement and every end of a transaction.
A function that commits in the middle of a request leaves a session without a context; `run_check` and the router
assert it again before the next tenant table is read.
-/

namespace TestingPlatform.Api

open Dialogue Assets

/-! ### The service -/

section Service
variable (settings : Assets.Settings) (c : Assets.Caller) (assetId : Uuid)

def readState : Program VerificationState := do
  match ← exec .app (.assetFor assetId) with
  | none => throw (.verification .assetNotFound)
  | some _ => do
    let proof ← exec .app (.proofFor assetId)
    let challenge ← exec .app (.challengeFor assetId)
    if proof.isNone && challenge.isNone then throw (.verification .verificationNotStarted)
    else do
      let now ← exec .app .dbNow
      pure (.of now proof challenge)

def startChallenge (requestedScope : VerificationScope) (token : String) : Program VerificationState := do
  match ← exec .app (.assetFor assetId) with
  | none => throw (.verification .assetNotFound)
  | some asset =>
    if asset.assetType ≠ .domain then throw (.verification .notADomainAsset)
    else do
      let challenge ← exec .app (.upsertChallenge assetId c.organizationId requestedScope
        (settings.verificationRecordName asset.value) token settings.verificationTokenTtl c.userId)
      let proof ← exec .app (.proofFor assetId)
      exec .app .commit
      let now ← exec .app .dbNow
      pure (.of now proof (some challenge))

def regenerateToken (token : String) : Program VerificationState := do
  match ← exec .app (.assetFor assetId) with
  | none => throw (.verification .assetNotFound)
  | some asset => do
    let proof ← exec .app (.proofFor assetId)
    if proof.isSome then throw (.verification .alreadyVerified)
    else match ← exec .app (.challengeFor assetId) with
      | none => throw (.verification .verificationNotStarted)
      | some existing => do
        let challenge ← exec .app (.upsertChallenge assetId c.organizationId existing.requestedScope
          (settings.verificationRecordName asset.value) token settings.verificationTokenTtl c.userId)
        let now ← exec .app .dbNow
        exec .app .commit
        pure (.of now none (some challenge))

/-- `_stamp`. -/
def stamp (code : Option VerificationFailureCode) : Program Unit := do
  let stamped ← exec .app (.stampCheck assetId code)
  if stamped ≠ 1 then throw (.verification .stampMatchedNoRow) else pure ()

/-- The savepoint of `run_check`; nothing where the claim is lost. -/
def claim (value : String) (requestedScope : VerificationScope) (verdict : CheckVerdict) : Program (Option DomainVerification) :=
  tryCatch (do
    let proof ← beginNested .app do
      let proof ← exec .app (.upsertProof assetId c.organizationId value requestedScope c.userId verdict)
      let _ ← exec .app (.nameOrganizationIfUnnamed c.organizationId value)
      pure proof
    pure (some proof)) fun
    | .db .claimConflict => pure none
    | e => throw e

/-- The part of `run_check` after the lookup. The flag says that the stamp has expired attributes of the challenge, which
are loaded when the response is made. -/
def decideCheck (asset : Asset) (challenge : Challenge) (outcomes : List ResolverOutcome) : Program (VerificationState × Bool) := do
  exec .app (.setOrgContext c.organizationId c.userId)
  match ← exec .app (.challengeCredentialsFor assetId) with
  | none => throw (.verification .verificationNotStarted)
  | some (currentToken, currentExpiry) => do
    let checkedAt ← exec .app .dbNow
    if currentExpiry ≤ checkedAt then throw (.verification .challengeExpired)
    else match ← exec .app (.challengeFor assetId) with
      | none => throw (.verification .verificationNotStarted)
      | some fresh =>
        if currentToken ≠ challenge.verificationToken then do
          stamp assetId (some .challengeSuperseded)
          exec .app .commit
          exec .app (.setOrgContext c.organizationId c.userId)
          let now ← exec .app .dbNow
          let proof ← exec .app (.proofFor assetId)
          pure (.of now proof (some fresh), true)
        else
          let verdict := evaluate outcomes challenge.verificationToken challenge.requestedScope
            settings.verificationResolverQuorum
          if !verdict.verified then
            if verdict.failureCode.any VerificationFailureCode.platformFault then throw (.verification .resolverUnavailable)
            else do
              stamp assetId verdict.failureCode
              let now ← exec .app .dbNow
              exec .app .commit
              exec .app (.setOrgContext c.organizationId c.userId)
              let proof ← exec .app (.proofFor assetId)
              pure (.of now proof (some fresh), true)
          else do
            match ← claim c assetId asset.value challenge.requestedScope verdict with
            | none => do
              stamp assetId (some .claimLost)
              exec .app .commit
              throw (.verification .domainClaimLost)
            | some proof => do
              stamp assetId none
              let now ← exec .app .dbNow
              exec .app .commit
              exec .app (.setOrgContext c.organizationId c.userId)
              let challenge ← exec .app (.challengeFor assetId)
              pure (.of now (some proof) challenge, false)

def runCheck (resolveTxt : String → Option (List ResolverOutcome)) : Program (VerificationState × Bool) := do
  match ← exec .app (.assetFor assetId) with
  | none => throw (.verification .assetNotFound)
  | some asset =>
    if asset.assetType ≠ .domain then throw (.verification .notADomainAsset)
    else match ← exec .app (.challengeFor assetId) with
      | none => throw (.verification .verificationNotStarted)
      | some challenge => do
        let readAt ← exec .app .dbNow
        if challenge.tokenExpiresAt ≤ readAt then throw (.verification .challengeExpired)
        else do
          exec .app .commit
          match resolveTxt challenge.recordName with
          | none => throw (.verification .resolverUnavailable)
          | some outcomes => decideCheck settings c assetId asset challenge outcomes

end Service

/-! ### The router -/

/-- The answer to a refusal; `RuntimeError` and violated policies are nobody's. -/
def refusalStatus : Assets.Refusal → Nat
  | .assetNotFound | .verificationNotStarted => 404
  | .notADomainAsset | .alreadyVerified | .challengeExpired | .domainClaimLost => 409
  | .resolverUnavailable => 503
  | .stampMatchedNoRow | .policyViolation => 500

def asHttp {α : Type} (x : Program α) : Program α :=
  tryCatch x fun
    | .verification r => throw (.http (refusalStatus r))
    | e => throw e

def AuthenticatedSession.caller (current : AuthenticatedSession) : Assets.Caller := ⟨current.organizationId, some current.userId⟩

section Router
variable (P : Auth.Primitives) (auth : Auth.Settings) (settings : Assets.Settings)

/-- A route behind the cookie with an org-scoped session. -/
def orgScoped {α : Type} (token : String) (gates : AuthenticatedSession → Program Unit)
    (handler : AuthenticatedSession → Program α) : Program Unit :=
  unitOfWork .auth do
    let current ← resolveSession P auth token false
    gates current
    unitOfWork .app do
      orgScopedAppSession current
      let _ ← handler current
      pure ()

def getVerification (token : String) (assetId : Uuid) : Program Unit :=
  orgScoped P auth token (fun _ => pure ()) fun _ => asHttp (readState assetId)

/-- `OrgAdminRequired`, `MfaAssuranceRequired` and the windows behind them. -/
def verificationGates (allowed : Bool) (current : AuthenticatedSession) : Program Unit := do
  requireOrgRole .organizationAdmin current
  requireCurrentMfaAssurance auth current
  rateLimited allowed

def createVerification (token : String) (allowed : Bool) (assetId : Uuid) (requestedScope : VerificationScope) (draws : String) :
    Program Unit :=
  orgScoped P auth token (verificationGates auth allowed) fun current => do
    let state ← asHttp (startChallenge settings current.caller assetId requestedScope draws)
    exec .app (.setOrgContext current.organizationId (some current.userId))
    pure state

def regenerateVerificationToken (token : String) (allowed : Bool) (assetId : Uuid) (draws : String) : Program Unit :=
  orgScoped P auth token (verificationGates auth allowed) fun current => do
    let state ← asHttp (regenerateToken settings current.caller assetId draws)
    exec .app (.setOrgContext current.organizationId (some current.userId))
    pure state

def checkVerification (token : String) (allowed : Bool) (assetId : Uuid) (resolveTxt : String → Option (List ResolverOutcome)) :
    Program Unit :=
  orgScoped P auth token (verificationGates auth allowed) fun current => do
    let (_, stamped) ← asHttp <| tryCatch (runCheck settings current.caller assetId resolveTxt) fun
      | .verification .domainClaimLost => do
        exec .app (.setOrgContext current.organizationId (some current.userId))
        throw (.verification .domainClaimLost)
      | e => throw e
    -- `_as_response` reads the attributes that the stamp has expired
    if stamped then do
      let _ ← exec .app (.refreshChallenge assetId)
      pure ()
    else pure ()

end Router

/-! ### What is in force -/

section Contexts
variable {s : State} {who : Caller} {settings : Assets.Settings} {c : Assets.Caller} {assetId : Uuid}

theorem safe_readState (h : InForce who .app s) : Safe s (readState assetId) := by
  refine h.ask rfl fun asset => ?_
  cases asset with
  | none => exact .throw trivial
  | some asset =>
    refine h.ask rfl fun proof => h.ask rfl fun challenge => ?_
    split
    · exact .throw trivial
    · exact still_dbNow.bind fun _ => .pure trivial

theorem runs_startChallenge {requestedScope : VerificationScope} {token : String} (h : InForce who .app s) :
    Runs s (startChallenge settings c assetId requestedScope token) (fun _ => Known who) fun _ _ => True := by
  refine h.ask rfl fun asset => ?_
  cases asset with
  | none => exact .throw trivial
  | some asset =>
    dsimp only
    split
    · exact .throw trivial
    refine h.ask rfl fun challenge => h.ask rfl fun proof => ?_
    exact h.known.ask rfl rfl fun _ _ hk => still_dbNow.bind fun _ => .pure hk

theorem runs_regenerateToken {token : String} (h : InForce who .app s) :
    Runs s (regenerateToken settings c assetId token) (fun _ => Known who) fun _ _ => True := by
  refine h.ask rfl fun asset => ?_
  cases asset with
  | none => exact .throw trivial
  | some asset =>
    refine h.ask rfl fun proof => ?_
    split
    · exact .throw trivial
    refine h.ask rfl fun existing => ?_
    cases existing with
    | none => exact .throw trivial
    | some existing =>
      refine h.ask rfl fun challenge => ?_
      exact still_dbNow.bind fun now => h.known.ask rfl rfl fun _ _ hk => .pure hk

theorem still_stamp {code : Option VerificationFailureCode} (h : InForce who .app s) : Still s (stamp assetId code) := by
  refine h.ask rfl fun stamped => ?_
  split
  · exact .throw trivial
  · exact .pure rfl

/-- The savepoint keeps the context, also where the claim is lost. -/
theorem runs_claim {value : String} {requestedScope : VerificationScope} {verdict : CheckVerdict} (h : InForce who .app s) :
    Runs s (claim c assetId value requestedScope verdict) (fun _ => InForce who .app) fun _ _ => True := by
  refine Leads.tryCatch (C := fun _ => InForce who .app)
    (Leads.bind (h.beginNested fun s' h' => ?_) fun _ _ h' => .pure h') fun e s' h' => ?_
  · refine Leads.bind (h'.tenant rfl) fun proof s'' hs => ?_
    subst hs
    refine Leads.bind (h'.tenant rfl) fun named s'' hs => ?_
    subst hs
    exact .pure rfl
  · split
    · exact .pure h'
    · exact .throw trivial

theorem runs_decideCheck {asset : Asset} {challenge : Challenge} {outcomes : List ResolverOutcome} (h : Known who s)
    (hwho : who.context .app = some { org := some c.organizationId, user := c.userId }) :
    Runs s (decideCheck settings c assetId asset challenge outcomes) (fun _ => InForce who .app) fun _ _ => True := by
  refine h.inOrg hwho fun s h => h.ask rfl fun credentials => ?_
  cases credentials with
  | none => exact .throw trivial
  | some credentials =>
    refine still_dbNow.bind fun checkedAt => ?_
    split
    · exact .throw trivial
    refine h.ask rfl fun fresh => ?_
    cases fresh with
    | none => exact .throw trivial
    | some fresh =>
      dsimp only
      split
      · -- superseded
        refine (still_stamp h).bind fun _ => h.known.ask rfl rfl fun _ s hk => ?_
        exact hk.inOrg hwho fun s h => still_dbNow.bind fun now => h.ask rfl fun proof => .pure h
      split
      · split
        · exact .throw trivial
        · -- not verified
          refine (still_stamp h).bind fun _ => still_dbNow.bind fun now => h.known.ask rfl rfl fun _ s hk => ?_
          exact hk.inOrg hwho fun s h => h.ask rfl fun proof => .pure h
      refine Leads.bind (runs_claim h) fun proof s h => ?_
      cases proof with
      | none => exact (still_stamp h).bind fun _ => h.known.ask rfl rfl fun _ s _ => .throw trivial
      | some proof =>
        refine (still_stamp h).bind fun _ => still_dbNow.bind fun now => h.known.ask rfl rfl fun _ s hk => ?_
        exact hk.inOrg hwho fun s h => h.ask rfl fun challenge => .pure h

theorem runs_runCheck {resolveTxt : String → Option (List ResolverOutcome)} (h : InForce who .app s)
    (hwho : who.context .app = some { org := some c.organizationId, user := c.userId }) :
    Runs s (runCheck settings c assetId resolveTxt) (fun _ => InForce who .app) fun _ _ => True := by
  refine h.ask rfl fun asset => ?_
  cases asset with
  | none => exact .throw trivial
  | some asset =>
    dsimp only
    split
    · exact .throw trivial
    refine h.ask rfl fun challenge => ?_
    cases challenge with
    | none => exact .throw trivial
    | some challenge =>
      refine still_dbNow.bind fun readAt => ?_
      split
      · exact .throw trivial
      refine h.known.ask rfl rfl fun _ s hk => ?_
      split
      · exact .throw trivial
      · exact runs_decideCheck hk hwho

theorem Runs.asHttp {α : Type} {x : Program α} {post : α → State → Prop} (h : Runs s x post fun _ _ => True) :
    Runs s (asHttp x) post fun _ _ => True :=
  Leads.tryCatch h fun e s _ => by
    split
    · exact .throw trivial
    · exact .throw trivial

section Router
variable {P : Auth.Primitives} {auth : Auth.Settings} {token : String} {allowed : Bool}

theorem still_verificationGates (current : AuthenticatedSession) : Still s (verificationGates auth allowed current) := by
  unfold verificationGates requireOrgRole requireCurrentMfaAssurance rateLimited
  split
  · exact .throw trivial
  split
  · exact .throw trivial
  split
  · split
    · exact .pure rfl
    · exact .throw trivial
  · exact .throw trivial

theorem safe_orgScoped {α : Type} {gates : AuthenticatedSession → Program Unit} {handler : AuthenticatedSession → Program α}
    (hgates : ∀ current s, Still s (gates current))
    (hhandler : ∀ current s, InForce (.member current.organizationId current.userId) .app s → Safe s (handler current)) :
    Safe s (orgScoped P auth token gates handler) := by
  refine Safe.unitOfWork (Leads.bind runs_resolveSession fun current s h => ?_)
  refine (hgates current s).bind fun _ => Safe.unitOfWork ?_
  exact h.known.inOrg rfl fun s h => Leads.bind (hhandler current s h) fun _ _ _ => .pure trivial

theorem safe_getVerification : Safe s (getVerification P auth token assetId) :=
  safe_orgScoped (fun _ _ => .pure rfl) fun _ _ h => (safe_readState h).asHttp

theorem safe_createVerification {requestedScope : VerificationScope} {draws : String} :
    Safe s (createVerification P auth settings token allowed assetId requestedScope draws) :=
  safe_orgScoped (fun current _ => still_verificationGates current) fun _ _ h =>
    Leads.bind (runs_startChallenge h).asHttp fun _ _ hk => hk.inOrg rfl fun _ _ => .pure trivial

theorem safe_regenerateVerificationToken {draws : String} :
    Safe s (regenerateVerificationToken P auth settings token allowed assetId draws) :=
  safe_orgScoped (fun current _ => still_verificationGates current) fun _ _ h =>
    Leads.bind (runs_regenerateToken h).asHttp fun _ _ hk => hk.inOrg rfl fun _ _ => .pure trivial

theorem safe_checkVerification {resolveTxt : String → Option (List ResolverOutcome)} :
    Safe s (checkVerification P auth settings token allowed assetId resolveTxt) := by
  refine safe_orgScoped (fun current _ => still_verificationGates current) fun current s h => ?_
  refine Leads.bind (Runs.asHttp (Leads.tryCatch (runs_runCheck h rfl) fun e s _ => ?_)) fun result s h => ?_
  · split
    · exact Leads.bind (safe_exec rfl) fun _ _ _ => .throw trivial
    · exact .throw trivial
  · dsimp only
    split
    · exact h.ask rfl fun _ => .pure trivial
    · exact .pure trivial

end Router

end Contexts

end TestingPlatform.Api
