import TestingPlatform.Assets.Models
import TestingPlatform.Lib.Outline
import TestingPlatform.Rls.Policies

/-!
# The verification requests, one database statement at a time

`start_challenge`, `regenerate_token` and `run_check` of `domains/assets/service.py` with the statements
of `domains/assets/repository.py`. What a request gets from outside the database is in its call: the
token it draws, the instants its transactions begin (the value of `now()` in each), and what the resolvers
answer. Reads whose rows only go into the response are left out.

`run_check` is two transactions. The first ends before the lookup; the second reads the stored token
again, and neither read locks the challenge.
-/

namespace TestingPlatform.Assets

open ReadCommitted

/-! ### Requests -/

structure Settings where
  verificationResolverQuorum : Nat
  verificationTokenTtl : Time
  verificationRecordPrefix : String

/-- The defaults of `settings.py`. -/
def Settings.shipped : Settings := ⟨1, Time.days 7, "nc3"⟩

def Settings.verificationRecordName (s : Settings) (domain : String) : String :=
  "_" ++ s.verificationRecordPrefix ++ "-verify." ++ domain

/-- Whose context the session asserts, before each of its transactions. -/
structure Caller where
  organizationId : Uuid
  userId : Option Uuid

namespace Caller
variable (c : Caller)

def gucs : Rls.Gucs := (({} : Rls.Session).setOrgContext c.organizationId c.userId).gucs

/-- The policy of the assets domain. -/
def sees (organizationId : Uuid) : Bool := decide (c.gucs.orgArm (some organizationId)).Holds

theorem sees_iff {organizationId : Uuid} : c.sees organizationId = true ↔ organizationId = c.organizationId := by
  rw [sees, decide_eq_true_eq, Rls.Gucs.holds_orgArm]
  simp [gucs, eq_comm]

/-- `asset_for`, `challenge_for` and `proof_for`. -/
def assetFor (d : Db) (id : Uuid) : Option Asset := (d.assets.find id).filter fun x => c.sees x.organizationId

def challengeFor (d : Db) (assetId : Uuid) : Option Challenge :=
  (d.challenges.find assetId).filter fun x => c.sees x.organizationId

def proofFor (d : Db) (assetId : Uuid) : Option DomainVerification :=
  (d.proofs.find assetId).filter fun x => c.sees x.organizationId

end Caller

structure StartChallenge extends Caller where
  assetId : Uuid
  requestedScope : VerificationScope
  /-- What `generate_token` draws. -/
  token : String
  now : Time

structure RegenerateToken extends Caller where
  assetId : Uuid
  token : String
  now : Time

structure RunCheck extends Caller where
  assetId : Uuid
  /-- `now()` before the lookup and after it. -/
  readAt : Time
  checkedAt : Time
  /-- `none` where no resolver is configured or the capacity is exhausted. -/
  resolveTxt : String → Option (List ResolverOutcome)

/-- What `run_check` keeps from its first transaction. -/
structure Attempt where
  assetId : Uuid
  value : String
  recordName : String
  token : String
  requestedScope : VerificationScope
  deriving DecidableEq, Repr

def Attempt.of (asset : Asset) (challenge : Challenge) : Attempt where
  assetId := asset.id
  value := asset.value
  recordName := challenge.recordName
  token := challenge.verificationToken
  requestedScope := challenge.requestedScope

/-- The values of `upsert_challenge`. -/
def issue (s : Settings) (c : Caller) (asset : Asset) (requestedScope : VerificationScope) (token : String) (now : Time) :
    Challenge where
  assetId := asset.id
  organizationId := c.organizationId
  requestedScope
  recordName := s.verificationRecordName asset.value
  verificationToken := token
  tokenExpiresAt := now + s.verificationTokenTtl
  requestedByUserId := c.userId
  requestedAt := now

/-- The values of `upsert_proof`. -/
def prove (c : RunCheck) (a : Attempt) (v : CheckVerdict) : DomainVerification where
  assetId := a.assetId
  organizationId := c.organizationId
  verifiedScope := a.requestedScope
  value := a.value
  verifiedAt := c.checkedAt
  verifiedByUserId := c.userId
  dnssecValidated := v.dnssecValidated
  resolvers := v.resolvers
  corroboratingAnswers := v.corroboratingAnswers

/-! ### Answers -/

inductive Refusal where
  | assetNotFound | notADomainAsset | verificationNotStarted | alreadyVerified | challengeExpired | domainClaimLost
  | resolverUnavailable
  /-- The `RuntimeError` of `_stamp`. -/
  | stampMatchedNoRow
  /-- An upsert that would update a row of another organization. -/
  | policyViolation
  deriving DecidableEq, Repr

inductive Answer where
  | issued (row : Challenge)
  | superseded
  | failed (code : Option VerificationFailureCode)
  | verified (row : DomainVerification)
  | refused (r : Refusal)
  deriving DecidableEq

/-! ### Control states -/

/-- What the second transaction of a check records: the stamp, and for a success the proof. -/
structure CheckRecord where
  assetId : Uuid
  checkedAt : Time
  failureCode : Option VerificationFailureCode
  proof : Option DomainVerification := none
  /-- The organization that the proof names, and the name. -/
  naming : Option (Uuid × String) := none

def CheckRecord.writes (r : CheckRecord) : List Write :=
  r.proof.toList.map .proof ++ r.naming.toList.map (fun n => .nameOrganization n.1 n.2 r.checkedAt) ++
    [.stampCheck r.assetId r.checkedAt r.failureCode]

inductive Proc where
  | startChallenge (c : StartChallenge)
  | regenerateToken (c : RegenerateToken)
  | regenerateProof (c : RegenerateToken) (asset : Asset)
  | regenerateExisting (c : RegenerateToken) (asset : Asset)
  | upsertChallenge (c : Caller) (row : Challenge)
  | commitChallenge (row : Challenge)
  | runCheck (c : RunCheck)
  | checkChallenge (c : RunCheck) (asset : Asset)
  | endRead (c : RunCheck) (a : Attempt)
  | resolve (c : RunCheck) (a : Attempt)
  | credentials (c : RunCheck) (a : Attempt) (outcomes : List ResolverOutcome)
  | reread (c : RunCheck) (a : Attempt) (outcomes : List ResolverOutcome) (currentToken : String)
  | stampSuperseded (c : RunCheck) (a : Attempt)
  | stampVerdict (c : RunCheck) (a : Attempt) (code : Option VerificationFailureCode)
  | upsertProof (c : RunCheck) (a : Attempt) (v : CheckVerdict)
  | nameOrganization (c : RunCheck) (a : Attempt) (row : DomainVerification)
  /-- The savepoint is rolled back. -/
  | lostClaim (c : RunCheck) (a : Attempt)
  | stampClaimLost (c : RunCheck) (a : Attempt)
  | stampVerified (c : RunCheck) (a : Attempt) (row : DomainVerification) (named : Bool)
  | commitCheck (r : CheckRecord) (answer : Answer)
  | refuse (r : Refusal)
  | done

abbrev Step := Move Lock Write Proc Answer

/-- `_stamp` and the commit that follows it. -/
def stamp (c : RunCheck) (d : Db) (r : CheckRecord) (answer : Answer) : Step where
  op := .lock [.challenge r.assetId]
  next := if (c.challengeFor d r.assetId).isSome then .commitCheck r answer else .refuse .stampMatchedNoRow

section Program
variable (s : Settings)

/-- The verdict on the answers, once the token is found to stand. -/
def decideCheck (c : RunCheck) (a : Attempt) (outcomes : List ResolverOutcome) : Proc :=
  let v := evaluate outcomes a.token a.requestedScope s.verificationResolverQuorum
  if v.verified then .upsertProof c a v
  else if v.failureCode.any VerificationFailureCode.platformFault then .refuse .resolverUnavailable
  else .stampVerdict c a v.failureCode

/-- The next statement of a request that is not aborted. -/
def go (d : Db) : Proc → Option Step
  | .startChallenge c =>
    some { op := .read,
           next := match c.assetFor d c.assetId with
             | none => .refuse .assetNotFound
             | some asset =>
               if asset.assetType ≠ .domain then .refuse .notADomainAsset
               else .upsertChallenge c.toCaller (issue s c.toCaller asset c.requestedScope c.token c.now) }
  | .regenerateToken c =>
    some { op := .read,
           next := match c.assetFor d c.assetId with
             | none => .refuse .assetNotFound
             | some asset => .regenerateProof c asset }
  | .regenerateProof c asset =>
    some { op := .read,
           next := if (c.proofFor d asset.id).isSome then .refuse .alreadyVerified else .regenerateExisting c asset }
  | .regenerateExisting c asset =>
    some { op := .read,
           next := match c.challengeFor d asset.id with
             | none => .refuse .verificationNotStarted
             | some existing =>
               .upsertChallenge c.toCaller (issue s c.toCaller asset existing.requestedScope c.token c.now) }
  | .upsertChallenge c row =>
    some { op := .lock [.challenge row.assetId],
           next := if (d.challenges.find row.assetId).all fun x => c.sees x.organizationId then .commitChallenge row
             else .refuse .policyViolation }
  | .commitChallenge row => some { op := .commit [.challenge row], next := .done, emit := [.issued row] }
  | .runCheck c =>
    some { op := .read,
           next := match c.assetFor d c.assetId with
             | none => .refuse .assetNotFound
             | some asset => if asset.assetType ≠ .domain then .refuse .notADomainAsset else .checkChallenge c asset }
  | .checkChallenge c asset =>
    some { op := .read,
           next := match c.challengeFor d asset.id with
             | none => .refuse .verificationNotStarted
             | some challenge =>
               if challenge.tokenExpiresAt ≤ c.readAt then .refuse .challengeExpired
               else .endRead c (.of asset challenge) }
  | .endRead c a => some { op := .commit [], next := .resolve c a }
  | .resolve c a =>
    some { op := .read,
           next := match c.resolveTxt a.recordName with
             | none => .refuse .resolverUnavailable
             | some outcomes => .credentials c a outcomes }
  | .credentials c a outcomes =>
    some { op := .read,
           next := match c.challengeFor d a.assetId with
             | none => .refuse .verificationNotStarted
             | some fresh =>
               if fresh.tokenExpiresAt ≤ c.checkedAt then .refuse .challengeExpired
               else .reread c a outcomes fresh.verificationToken }
  | .reread c a outcomes currentToken =>
    some { op := .read,
           next := match c.challengeFor d a.assetId with
             | none => .refuse .verificationNotStarted
             | some _ => if currentToken ≠ a.token then .stampSuperseded c a else decideCheck s c a outcomes }
  | .stampSuperseded c a => some (stamp c d ⟨a.assetId, c.checkedAt, some .challengeSuperseded, none, none⟩ .superseded)
  | .stampVerdict c a code => some (stamp c d ⟨a.assetId, c.checkedAt, code, none, none⟩ (.failed code))
  | .upsertProof c a v =>
    some { op := .lock [.proof a.assetId, .claim a.value],
           next := if (d.proofs.find a.assetId).any fun x => !c.sees x.organizationId then .refuse .policyViolation
             else if d.proofs.rows.any fun x => x.value = a.value ∧ x.assetId ≠ a.assetId then .lostClaim c a
             else .nameOrganization c a (prove c a v) }
  | .nameOrganization c a row =>
    if (d.organizations.find c.organizationId).any fun o => o.namedAt = none then
      some { op := .lock [.organization c.organizationId], next := .stampVerified c a row true }
    else some { op := .read, next := .stampVerified c a row false }
  | .lostClaim c a => some { op := .unlock [.proof a.assetId, .claim a.value], next := .stampClaimLost c a }
  | .stampClaimLost c a =>
    some (stamp c d ⟨a.assetId, c.checkedAt, some .claimLost, none, none⟩ (.refused .domainClaimLost))
  | .stampVerified c a row named =>
    let naming := if named then some (c.organizationId, a.value) else none
    some (stamp c d ⟨a.assetId, c.checkedAt, none, some row, naming⟩ (.verified row))
  | .commitCheck r answer => some { op := .commit r.writes, next := .done, emit := [answer] }
  | .refuse r => some { op := .rollback, next := .done, emit := [.refused r] }
  | .done => none

/-- Any number of requests over one database; each may be aborted at any statement. -/
def verification : System Lock Write Db Proc Choice Answer := System.abortable Db.write (go s) .done

end Program

/-! ### Commits -/

section Commits
variable {s : Settings} {d : Db} {p : Proc} {c : Choice} {m : Step} {ws : List Write}

theorem commit_cases (h : go s d p = some m) (hop : m.op = .commit ws) :
    (∃ row, p = .commitChallenge row ∧ ws = [.challenge row]) ∨ (∃ c a, p = .endRead c a ∧ ws = []) ∨
      ∃ r answer, p = .commitCheck r answer ∧ ws = r.writes := by
  cases p with
  | commitChallenge row =>
    cases h; cases hop
    exact .inl ⟨row, rfl, rfl⟩
  | endRead c a =>
    cases h; cases hop
    exact .inr (.inl ⟨c, a, rfl, rfl⟩)
  | commitCheck r answer =>
    cases h; cases hop
    exact .inr (.inr ⟨r, answer, rfl, rfl⟩)
  | nameOrganization c a row =>
    simp only [go] at h
    split at h <;> cases h <;> cases hop
  | done => cases h
  | _ => cases h; cases hop

theorem CheckRecord.not_challenge (r : CheckRecord) : ∀ u ∈ r.writes, ∀ row, u ≠ .challenge row := by
  intro u hu row
  simp only [writes, List.mem_append, List.mem_map, List.mem_singleton] at hu
  rcases hu with (⟨p, -, rfl⟩ | ⟨n, -, rfl⟩) | rfl <;> simp

end Commits

section Worlds
variable {π : Type}

/-- The worlds of the verification requests. -/
abbrev Requests (π : Type) := World π Lock Db Proc Answer

def Proc.Entry : Proc → Prop
  | .startChallenge _ | .regenerateToken _ | .runCheck _ | .done => True
  | _ => False

/-- Requests that have not begun, over proofs that claim different values. -/
structure Start (w : Requests π) : Prop where
  entry : ∀ i, (w.proc i).Entry
  unlocked : ∀ k, w.owner k = none
  claims : ∀ p ∈ w.db.proofs.rows, ∀ p' ∈ w.db.proofs.rows, p.value = p'.value → p = p'

theorem Start.cases {w : Requests π} (h : Start w) (i : π) : (∃ c, w.proc i = .startChallenge c) ∨
    (∃ c, w.proc i = .regenerateToken c) ∨ (∃ c, w.proc i = .runCheck c) ∨ w.proc i = .done := by
  have he := h.entry i
  generalize w.proc i = p at he
  cases p with
  | startChallenge c => exact .inl ⟨c, rfl⟩
  | regenerateToken c => exact .inr (.inl ⟨c, rfl⟩)
  | runCheck c => exact .inr (.inr (.inl ⟨c, rfl⟩))
  | done => exact .inr (.inr (.inr rfl))
  | _ => exact he.elim

variable [DecidableEq π] {s : Settings} {w : Requests π} {i : π} {c : Choice} {m : Step}

/-- The terms of a challenge change only through the commit of a new one. -/
theorem terms_after (hm : (verification s).Fires w i c m) (assetId : Uuid) :
    ((verification s).after w i m).db.terms assetId = w.db.terms assetId ∨
      ∃ row, w.proc i = .commitChallenge row ∧ c = .go ∧ row.assetId = assetId ∧
        ((verification s).after w i m).db.terms assetId = some row.terms := by
  rw [System.db_after]
  cases hop : m.op with
  | read | lock | unlock | rollback => exact .inl rfl
  | commit ws =>
    cases c with
    | fail | crash => cases hm.1; cases hop
    | go =>
      rcases commit_cases hm.1 hop with ⟨row, hp, rfl⟩ | ⟨_, _, -, rfl⟩ | ⟨r, answer, -, rfl⟩
      · by_cases ha : row.assetId = assetId
        · refine .inr ⟨row, hp, rfl, ha, ?_⟩
          exact (terms_challenge w.db row assetId).trans (if_pos ha)
        · exact .inl ((terms_challenge w.db row assetId).trans (if_neg ha))
      · exact .inl rfl
      · exact .inl (terms_foldl w.db r.not_challenge assetId)

end Worlds

end TestingPlatform.Assets
