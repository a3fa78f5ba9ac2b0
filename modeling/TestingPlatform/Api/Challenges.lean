import TestingPlatform.Api.Served
import TestingPlatform.Assets.Service

/-!
# The verification routes as requests

A function of `Api.Verification` asks for its statements; a request of `Assets.Service` is the same function as a state machine
over the rows, without the reads whose rows only go into the response. Over any database the function by itself leaves what the
request leaves, and answers an error where the request does, with its status.
-/

namespace TestingPlatform.Api.Challenges

open Dialogue Assets ReadCommitted

/-! ### A server -/

/-- The database, what the open transaction has written, and what it had at its savepoints. -/
structure Transaction where
  db : Db
  writes : List Write := []
  savepoints : List (List Write) := []
  /-- The transaction begins after a commit. -/
  later : Bool := false

instance : Transactional Transaction Db where
  committed t := t.writes.foldl Db.write t.db
  kept := Transaction.db

section Serve
variable (c : Assets.Caller) (readAt checkedAt : Time)

/-- `now()`. -/
def Transaction.now (t : Transaction) : Time := if t.later then checkedAt else readAt

def Transaction.written (t : Transaction) (u : Write) : Transaction := { t with writes := t.writes ++ [u] }

/-- A row that no check has stamped has no failure. -/
theorem unchecked : (none : Option String).isSome = true → (none : Option Time).isSome = true := id

/-- The statements of the verification requests, under the context of the caller. A statement reads the committed rows, for none of
the requests reads a row that it has written before it commits. -/
def serve : (q : Question) → Transaction → Answer q × Transaction
  | ⟨_, .commit⟩, t => (.ok (), { db := t.writes.foldl Db.write t.db, later := true })
  | ⟨_, .rollback⟩, t | ⟨_, .close⟩, t => (.ok (), { db := t.db, later := true })
  | ⟨_, .setOrgContext ..⟩, t => (.ok (), t)
  | ⟨_, .savepoint⟩, t => (.ok (), { t with savepoints := t.writes :: t.savepoints })
  | ⟨_, .releaseSavepoint⟩, t => (.ok (), { t with savepoints := t.savepoints.tail })
  | ⟨_, .rollbackToSavepoint⟩, t =>
    (.ok (), { t with writes := t.savepoints.headD t.writes, savepoints := t.savepoints.tail })
  | ⟨_, .dbNow⟩, t => (.ok (t.now readAt checkedAt), t)
  | ⟨_, .assetFor assetId⟩, t => (.ok (c.assetFor t.db assetId), t)
  | ⟨_, .challengeFor assetId⟩, t => (.ok (c.challengeFor t.db assetId), t)
  | ⟨_, .proofFor assetId⟩, t => (.ok (c.proofFor t.db assetId), t)
  | ⟨_, .challengeCredentialsFor assetId⟩, t =>
    (.ok ((c.challengeFor t.db assetId).map fun x => (x.verificationToken, x.tokenExpiresAt)), t)
  | ⟨_, .upsertChallenge assetId organizationId requestedScope recordName token ttl requestedByUserId⟩, t =>
    let now := t.now readAt checkedAt
    let row : Challenge :=
      { assetId, organizationId, requestedScope, recordName, verificationToken := token, tokenExpiresAt := now + ttl,
        requestedByUserId, requestedAt := now, failure_follows_recheck := unchecked }
    if (t.db.challenges.find assetId).all fun x => c.sees x.organizationId then (.ok row, t.written (.challenge row))
    else (.error .other, t)
  | ⟨_, .upsertProof assetId organizationId value verifiedScope verifiedByUserId verdict⟩, t =>
    let row : DomainVerification :=
      { assetId, organizationId, verifiedScope, value, verifiedAt := t.now readAt checkedAt, verifiedByUserId,
        dnssecValidated := verdict.dnssecValidated, resolvers := verdict.resolvers,
        corroboratingAnswers := verdict.corroboratingAnswers }
    if (t.db.proofs.find assetId).any fun x => !c.sees x.organizationId then (.error .other, t)
    else if t.db.proofs.rows.any fun x => x.value = value ∧ x.assetId ≠ assetId then (.error .claimConflict, t)
    else (.ok row, t.written (.proof row))
  | ⟨_, .nameOrganizationIfUnnamed organizationId value⟩, t =>
    if (t.db.organizations.find organizationId).any fun o => o.namedAt = none then
      (.ok true, t.written (.nameOrganization organizationId value (t.now readAt checkedAt)))
    else (.ok false, t)
  | ⟨_, .stampCheck assetId code⟩, t =>
    if (c.challengeFor t.db assetId).isSome then (.ok 1, t.written (.stampCheck assetId (t.now readAt checkedAt) code))
    else (.ok 0, t)
  | _, t => (.error .other, t)

def server : Server Transaction where
  answer := serve c readAt checkedAt
  commits _ _ := ⟨_, rfl, rfl, rfl⟩
  rollsBack _ _ := ⟨_, rfl, rfl, rfl⟩
  closes _ _ := ⟨_, rfl, rfl, rfl⟩

end Serve

/-! ### Agreement -/

/-- The status of a request that ends in an error. -/
def errorStatus : Assets.Answer → Option Nat
  | .refused r => some (refusalStatus r)
  | _ => none

section Agreement
variable {s : Assets.Settings} {d : Db} {p : Proc} {r : Db × Option Nat}

variable (s d) in
/-- What the process leaves and answers by itself. -/
abbrev Agrees (p : Proc) (r : Db × Option Nat) : Prop := Leaves (verification s) .done errorStatus d p r

/-- A statement that changes nothing. -/
theorem Agrees.step {m : Step} (hgo : go s d p = some m) (hop : m.op.effect Db.write d = d) (h : Agrees s d m.next r) :
    Agrees s d p r :=
  Leaves.step hgo hop h

theorem Agrees.refuse {refusal : Assets.Refusal} (h : r = (d, some (refusalStatus refusal))) : Agrees s d (.refuse refusal) r :=
  ⟨_, _, .refl, rfl, fun _ => trivial, rfl, .refused refusal, List.mem_singleton_self _, h⟩

theorem Agrees.commitChallenge {row : Challenge} (h : r = (d.write (.challenge row), none)) : Agrees s d (.commitChallenge row) r :=
  ⟨_, _, .refl, rfl, fun _ => trivial, rfl, .issued row, List.mem_singleton_self _, h⟩

theorem Agrees.commitCheck {x : CheckRecord} {answer : Assets.Answer} (h : r = (x.writes.foldl Db.write d, errorStatus answer)) :
    Agrees s d (.commitCheck x answer) r :=
  ⟨_, _, .refl, rfl, fun _ => trivial, rfl, answer, List.mem_singleton_self _, h⟩

end Agreement

section Service
variable {s : Assets.Settings} {d : Db} {α β : Type} {c : Assets.Caller} {readAt checkedAt : Time} {t : Transaction}
  {assetId : Uuid}

theorem on_assetFor {f : Option Asset → Program β} :
    Program.on (server c readAt checkedAt) (exec .app (.assetFor assetId) >>= f) t =
      Program.on (server c readAt checkedAt) (f (c.assetFor t.db assetId)) t := rfl

theorem on_challengeFor {f : Option Challenge → Program β} :
    Program.on (server c readAt checkedAt) (exec .app (.challengeFor assetId) >>= f) t =
      Program.on (server c readAt checkedAt) (f (c.challengeFor t.db assetId)) t := rfl

theorem on_proofFor {f : Option DomainVerification → Program β} :
    Program.on (server c readAt checkedAt) (exec .app (.proofFor assetId) >>= f) t =
      Program.on (server c readAt checkedAt) (f (c.proofFor t.db assetId)) t := rfl

theorem on_readAt {written : List Write} {savepoints : List (List Write)} {f : Time → Program β} :
    Program.on (server c readAt checkedAt) (exec .app .dbNow >>= f) ⟨d, written, savepoints, false⟩ =
      Program.on (server c readAt checkedAt) (f readAt) ⟨d, written, savepoints, false⟩ := rfl

theorem on_checkedAt {written : List Write} {savepoints : List (List Write)} {f : Time → Program β} :
    Program.on (server c readAt checkedAt) (exec .app .dbNow >>= f) ⟨d, written, savepoints, true⟩ =
      Program.on (server c readAt checkedAt) (f checkedAt) ⟨d, written, savepoints, true⟩ := rfl

theorem on_setOrgContext {orgId : Uuid} {userId : Option Uuid} {f : Unit → Program β} :
    Program.on (server c readAt checkedAt) (exec .app (.setOrgContext orgId userId) >>= f) t =
      Program.on (server c readAt checkedAt) (f ()) t := rfl

theorem on_commit {f : Unit → Program β} : Program.on (server c readAt checkedAt) (exec .app .commit >>= f) t =
    Program.on (server c readAt checkedAt) (f ()) ⟨t.writes.foldl Db.write t.db, [], [], true⟩ := rfl

theorem on_challengeCredentialsFor {f : Option (String × Time) → Program β} :
    Program.on (server c readAt checkedAt) (exec .app (.challengeCredentialsFor assetId) >>= f) t =
      Program.on (server c readAt checkedAt)
        (f ((c.challengeFor t.db assetId).map fun x => (x.verificationToken, x.tokenExpiresAt))) t := rfl

/-- A row of the asset is the row of its id. -/
theorem assetFor_id {asset : Asset} (h : c.assetFor d assetId = some asset) : asset.id = assetId := by
  obtain ⟨hfind, -⟩ := Option.filter_eq_some_iff.1 h
  exact Table.key_of_find hfind

/-- The upsert locks the challenge, and what is done with the row commits it. -/
theorem agrees_upsertChallenge {asset : Asset} {requestedScope : VerificationScope} {token : String} {f : Challenge → Program β}
    (hf : ∀ row, ((f row).on (server c readAt checkedAt) { db := d, writes := [.challenge row] }).report =
      (d.write (.challenge row), none)) :
    Agrees s d (.upsertChallenge c (issue s c asset requestedScope token readAt))
      (Program.on (server c readAt checkedAt) (exec .app (.upsertChallenge asset.id c.organizationId requestedScope
        (s.verificationRecordName asset.value) token s.verificationTokenTtl c.userId) >>= f) { db := d }).report := by
  have hanswer : (server c readAt checkedAt).answer ⟨.app, .upsertChallenge asset.id c.organizationId requestedScope
      (s.verificationRecordName asset.value) token s.verificationTokenTtl c.userId⟩ { db := d } =
      if (d.challenges.find asset.id).all fun x => c.sees x.organizationId then
        (.ok (issue s c asset requestedScope token readAt),
          { db := d, writes := [.challenge (issue s c asset requestedScope token readAt)] })
      else (.error .other, { db := d }) := rfl
  have hgo : ∀ b, ((d.challenges.find asset.id).all fun x => c.sees x.organizationId) = b →
      go s d (.upsertChallenge c (issue s c asset requestedScope token readAt)) = some {
        op := .lock [.challenge asset.id]
        next := if b then .commitChallenge (issue s c asset requestedScope token readAt) else .refuse .policyViolation } := by
    rintro b rfl
    rfl
  rw [on_bind, on_exec, hanswer]
  cases hsees : (d.challenges.find asset.id).all fun x => c.sees x.organizationId with
  | true => exact .step (hgo true hsees) rfl (.commitChallenge (hf _))
  | false => exact .step (hgo false hsees) rfl (.refuse rfl)

theorem agrees_startChallenge (c : StartChallenge) : Agrees s d (.startChallenge c)
    (Program.on (server c.toCaller c.now checkedAt) (startChallenge s c.toCaller c.assetId c.requestedScope c.token)
      { db := d }).report := by
  rw [startChallenge, on_assetFor]
  refine .step rfl rfl ?_
  dsimp only
  cases hasset : c.assetFor d c.assetId with
  | none => exact .refuse rfl
  | some asset =>
    dsimp only
    split
    · exact .refuse rfl
    · rw [← assetFor_id hasset]
      exact agrees_upsertChallenge fun row => rfl

theorem agrees_regenerateToken (c : RegenerateToken) : Agrees s d (.regenerateToken c)
    (Program.on (server c.toCaller c.now checkedAt) (regenerateToken s c.toCaller c.assetId c.token) { db := d }).report := by
  rw [regenerateToken, on_assetFor]
  refine .step rfl rfl ?_
  dsimp only
  cases hasset : c.assetFor d c.assetId with
  | none => exact .refuse rfl
  | some asset =>
    rw [← assetFor_id hasset]
    dsimp only
    rw [on_proofFor]
    refine .step rfl rfl ?_
    dsimp only
    split
    · exact .refuse rfl
    · rw [on_challengeFor]
      refine .step rfl rfl ?_
      dsimp only
      cases c.challengeFor d asset.id with
      | none => exact .refuse rfl
      | some existing => exact agrees_upsertChallenge fun row => rfl

/-- The stamp and the commit that follows it. -/
theorem agrees_stamp {c : RunCheck} {x : CheckRecord} {answer : Assets.Answer} {p : Proc} {written : List Write}
    {savepoints : List (List Write)} {f : Unit → Program α} (hgo : go s d p = some (Assets.stamp c d x answer))
    (hwrites : x.writes = written ++ [.stampCheck x.assetId c.checkedAt x.failureCode])
    (hf : ((f ()).on (server c.toCaller readAt c.checkedAt) ⟨d, x.writes, savepoints, true⟩).report =
      (x.writes.foldl Db.write d, errorStatus answer)) :
    Agrees s d p (Program.on (server c.toCaller readAt c.checkedAt) (stamp x.assetId x.failureCode >>= f)
      ⟨d, written, savepoints, true⟩).report := by
  have hon : Program.on (server c.toCaller readAt c.checkedAt) (stamp x.assetId x.failureCode) ⟨d, written, savepoints, true⟩ =
      if (c.challengeFor d x.assetId).isSome then (.ok (), ⟨d, x.writes, savepoints, true⟩)
      else (.error (.verification .stampMatchedNoRow), ⟨d, written, savepoints, true⟩) := by
    have hanswer : (server c.toCaller readAt c.checkedAt).answer ⟨.app, .stampCheck x.assetId x.failureCode⟩
        ⟨d, written, savepoints, true⟩ = if (c.challengeFor d x.assetId).isSome then
          (.ok 1, ⟨d, written ++ [.stampCheck x.assetId c.checkedAt x.failureCode], savepoints, true⟩)
        else (.ok 0, ⟨d, written, savepoints, true⟩) := rfl
    rw [stamp, on_bind, on_exec, hanswer, hwrites]
    split <;> rfl
  refine .step hgo rfl ?_
  rw [on_bind, hon, Assets.stamp]
  dsimp only
  split
  · exact .commitCheck hf
  · exact .refuse rfl

/-- A savepoint that is rolled back leaves what was written before it. -/
theorem on_beginNested {body : Program α} {written : List Write} {savepoints : List (List Write)} {later : Bool} :
    Program.on (server c readAt checkedAt) (beginNested .app body) ⟨d, written, savepoints, later⟩ =
      match Program.on (server c readAt checkedAt) body ⟨d, written, written :: savepoints, later⟩ with
      | (.ok a, t) => (.ok a, { t with savepoints := t.savepoints.tail })
      | (.error e, t) => (.error e, { t with writes := t.savepoints.headD t.writes, savepoints := t.savepoints.tail }) := by
  have hsavepoint : ∀ f : Unit → Program α,
      Program.on (server c readAt checkedAt) (exec .app .savepoint >>= f) ⟨d, written, savepoints, later⟩ =
        Program.on (server c readAt checkedAt) (f ()) ⟨d, written, written :: savepoints, later⟩ := fun f => rfl
  rw [beginNested, hsavepoint, on_attempt]
  obtain ⟨e | a, t'⟩ := Program.on (server c readAt checkedAt) body ⟨d, written, written :: savepoints, later⟩ <;> rfl

/-- What a claim comes to: the proof with the name, nothing where another asset has the value, or a violated policy. -/
theorem on_claim {c : RunCheck} {a : Attempt} {verdict : CheckVerdict} :
    Program.on (server c.toCaller readAt c.checkedAt) (claim c.toCaller a.assetId a.value a.requestedScope verdict)
        ⟨d, [], [], true⟩ =
      if (d.proofs.find a.assetId).any fun x => !c.sees x.organizationId then (.error (.db .other), ⟨d, [], [], true⟩)
      else if d.proofs.rows.any fun x => x.value = a.value ∧ x.assetId ≠ a.assetId then (.ok none, ⟨d, [], [], true⟩)
      else if (d.organizations.find c.organizationId).any fun o => o.namedAt = none then
        (.ok (some (prove c a verdict)),
          ⟨d, [.proof (prove c a verdict), .nameOrganization c.organizationId a.value c.checkedAt], [], true⟩)
      else (.ok (some (prove c a verdict)), ⟨d, [.proof (prove c a verdict)], [], true⟩) := by
  have hupsert : (server c.toCaller readAt c.checkedAt).answer
      ⟨.app, .upsertProof a.assetId c.organizationId a.value a.requestedScope c.userId verdict⟩ ⟨d, [], [[]], true⟩ =
      if (d.proofs.find a.assetId).any fun x => !c.sees x.organizationId then (.error .other, ⟨d, [], [[]], true⟩)
      else if d.proofs.rows.any fun x => x.value = a.value ∧ x.assetId ≠ a.assetId then
        (.error .claimConflict, ⟨d, [], [[]], true⟩)
      else (.ok (prove c a verdict), ⟨d, [.proof (prove c a verdict)], [[]], true⟩) := rfl
  have hname : (server c.toCaller readAt c.checkedAt).answer ⟨.app, .nameOrganizationIfUnnamed c.organizationId a.value⟩
      ⟨d, [.proof (prove c a verdict)], [[]], true⟩ =
      if (d.organizations.find c.organizationId).any fun o => o.namedAt = none then
        (.ok true, ⟨d, [.proof (prove c a verdict), .nameOrganization c.organizationId a.value c.checkedAt], [[]], true⟩)
      else (.ok false, ⟨d, [.proof (prove c a verdict)], [[]], true⟩) := rfl
  rw [claim, on_tryCatch, on_bind, on_beginNested, on_bind, on_exec, hupsert]
  by_cases hpolicy : ((d.proofs.find a.assetId).any fun x => !c.sees x.organizationId) = true
  · simp only [if_pos hpolicy]
    rfl
  by_cases htaken : (d.proofs.rows.any fun x => x.value = a.value ∧ x.assetId ≠ a.assetId) = true
  · simp only [if_neg hpolicy, if_pos htaken]
    rfl
  simp only [if_neg hpolicy, if_neg htaken, Except.mapError, Outcome.andThen_ok]
  rw [on_bind, on_exec, hname]
  by_cases hunnamed : ((d.organizations.find c.organizationId).any fun o => o.namedAt = none) = true
  · simp only [if_pos hunnamed]
    rfl
  · simp only [if_neg hunnamed]
    rfl

theorem agrees_claim {c : RunCheck} {a : Attempt} {verdict : CheckVerdict} {f : Option DomainVerification → Program α}
    (hlost : Agrees s d (.stampClaimLost c a) ((f none).on (server c.toCaller readAt c.checkedAt) ⟨d, [], [], true⟩).report)
    (hproved : ∀ named, Agrees s d (.stampVerified c a (prove c a verdict) named)
      ((f (some (prove c a verdict))).on (server c.toCaller readAt c.checkedAt)
        ⟨d, .proof (prove c a verdict) :: (if named then [.nameOrganization c.organizationId a.value c.checkedAt] else []), [],
          true⟩).report) :
    Agrees s d (.upsertProof c a verdict)
      (Program.on (server c.toCaller readAt c.checkedAt) (claim c.toCaller a.assetId a.value a.requestedScope verdict >>= f)
        ⟨d, [], [], true⟩).report := by
  rw [on_bind, on_claim]
  refine .step rfl rfl ?_
  dsimp only
  split
  · exact .refuse rfl
  split
  · exact .step rfl rfl hlost
  by_cases hunnamed : ((d.organizations.find c.organizationId).any fun o => o.namedAt = none) = true
  · rw [if_pos hunnamed]
    exact .step (if_pos hunnamed) rfl (hproved true)
  · rw [if_neg hunnamed]
    exact .step (if_neg hunnamed) rfl (hproved false)

theorem agrees_decideCheck {c : RunCheck} {asset : Asset} {challenge : Challenge} {outcomes : List ResolverOutcome} :
    Agrees s d (.credentials c (.of asset challenge) outcomes)
      (Program.on (server c.toCaller readAt c.checkedAt) (decideCheck s c.toCaller asset.id asset challenge outcomes)
        ⟨d, [], [], true⟩).report := by
  rw [decideCheck, on_setOrgContext, on_challengeCredentialsFor]
  refine .step rfl rfl ?_
  dsimp only [Attempt.of]
  cases hfresh : c.challengeFor d asset.id with
  | none => exact .refuse rfl
  | some fresh =>
    dsimp only [Option.map_some]
    rw [on_checkedAt]
    by_cases hexpired : fresh.tokenExpiresAt ≤ c.checkedAt
    · rw [if_pos hexpired, if_pos hexpired]
      exact .refuse rfl
    rw [if_neg hexpired, if_neg hexpired, on_challengeFor]
    refine .step rfl rfl ?_
    dsimp only
    rw [hfresh]
    dsimp only
    by_cases hsuperseded : fresh.verificationToken ≠ challenge.verificationToken
    · rw [if_pos hsuperseded, if_pos hsuperseded]
      exact agrees_stamp (x := ⟨asset.id, c.checkedAt, some .challengeSuperseded, none, none⟩) rfl rfl rfl
    rw [if_neg hsuperseded, if_neg hsuperseded, Assets.decideCheck]
    dsimp only
    generalize evaluate outcomes challenge.verificationToken challenge.requestedScope s.verificationResolverQuorum = verdict
    cases verdict.verified with
    | false =>
      rw [if_neg Bool.false_ne_true, if_pos Bool.not_false]
      split
      · exact .refuse rfl
      · exact agrees_stamp (x := ⟨asset.id, c.checkedAt, verdict.failureCode, none, none⟩) rfl rfl rfl
    | true =>
      rw [if_pos rfl, if_neg (by simp)]
      refine agrees_claim (a := .of asset challenge) ?_ fun named => ?_
      · exact agrees_stamp (x := ⟨asset.id, c.checkedAt, some .claimLost, none, none⟩) rfl rfl rfl
      · exact agrees_stamp (x := ⟨asset.id, c.checkedAt, none, some (prove c (.of asset challenge) verdict), _⟩) rfl
          (by cases named <;> rfl) rfl

theorem agrees_runCheck (c : RunCheck) : Agrees s d (.runCheck c)
    (Program.on (server c.toCaller c.readAt c.checkedAt) (runCheck s c.toCaller c.assetId c.resolveTxt) { db := d }).report := by
  rw [runCheck, on_assetFor]
  refine .step rfl rfl ?_
  dsimp only
  cases hasset : c.assetFor d c.assetId with
  | none => exact .refuse rfl
  | some asset =>
    rw [← assetFor_id hasset]
    dsimp only
    split
    · exact .refuse rfl
    · rw [on_challengeFor]
      refine .step rfl rfl ?_
      dsimp only
      cases hchallenge : c.challengeFor d asset.id with
      | none => exact .refuse rfl
      | some challenge =>
        dsimp only
        rw [on_readAt]
        by_cases hexpired : challenge.tokenExpiresAt ≤ c.readAt
        · rw [if_pos hexpired, if_pos hexpired]
          exact .refuse rfl
        rw [if_neg hexpired, if_neg hexpired, on_commit]
        refine .step rfl rfl (.step rfl rfl ?_)
        dsimp only [Attempt.of]
        cases c.resolveTxt challenge.recordName with
        | none => exact .refuse rfl
        | some outcomes => exact agrees_decideCheck

end Service

/-! ### Requests that run by themselves -/

section Runs
variable {s : Assets.Settings} {d : Db}

/-- A request that is alone with the database. -/
def alone (d : Db) (p : Proc) : Requests Unit where
  db := d
  owner _ := none
  proc _ := p
  trace := []

/-- By itself the request comes to its end, and there it leaves this database and has answered with this status. -/
def Answers (s : Assets.Settings) (d : Db) (p : Proc) (answer : Db × Option Nat) : Prop :=
  (∃ w, (verification s).Run (fun _ a => a = ((), .go)) (alone d p) w ∧ w.proc () = .done) ∧
    ∀ w, (verification s).Run (fun _ a => a = ((), .go)) (alone d p) w → w.proc () = .done →
      ∃ e ∈ w.trace, answer = (w.db, errorStatus e)

theorem answers_service {α : Type} {c : Assets.Caller} {readAt checkedAt : Time} {p : Proc} {x : Program α}
    (h : Agrees s d p (Program.on (server c readAt checkedAt) x { db := d }).report) :
    Answers s d p (Program.on (server c readAt checkedAt) (unitOfWork .app (asHttp x)) { db := d }).report := by
  rw [report_unitOfWork, ← Outcome.andThen_pure (Program.on ..), report_asHttp, Outcome.andThen_pure]
  exact Leaves.run (w := alone d p) h (fun _ => rfl) fun _ => rfl

theorem startChallenge_answers (c : StartChallenge) : Answers s d (.startChallenge c)
    (Program.on (server c.toCaller c.now c.now)
      (unitOfWork .app (asHttp (startChallenge s c.toCaller c.assetId c.requestedScope c.token))) { db := d }).report :=
  answers_service (agrees_startChallenge c)

theorem regenerateToken_answers (c : RegenerateToken) : Answers s d (.regenerateToken c)
    (Program.on (server c.toCaller c.now c.now) (unitOfWork .app (asHttp (regenerateToken s c.toCaller c.assetId c.token)))
      { db := d }).report :=
  answers_service (agrees_regenerateToken c)

theorem runCheck_answers (c : RunCheck) : Answers s d (.runCheck c)
    (Program.on (server c.toCaller c.readAt c.checkedAt) (unitOfWork .app (asHttp (runCheck s c.toCaller c.assetId c.resolveTxt)))
      { db := d }).report :=
  answers_service (agrees_runCheck c)

end Runs

end TestingPlatform.Api.Challenges
