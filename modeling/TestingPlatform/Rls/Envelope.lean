import TestingPlatform.Rls.Isolation

/-!
# Envelopes and their scope

The predicate of `key_envelope` is a disjunction over its three owner columns, and the CHECKs say which
columns each scope fills. `guest_scope_lacks_org` fills `organization_id` on user-scope envelopes as well,
so these have two arms: that of the user and that of the whole organization.
-/

namespace TestingPlatform.Rls

/-- The arm of the scope: the column the scope names is the asserted identity. -/
def KeyEnvelope.OwnArm (k : KeyEnvelope) (g : Gucs) : Prop :=
  match k.scope with
  | .user => ∃ u, k.userId = some u ∧ g.user = some u
  | .organization => ∃ o, k.organizationId = some o ∧ g.org = some o
  | .scanJob => ∃ j, k.scanJobId = some j ∧ g.job = some j

/-- A user-scope envelope under its organization, asserted by anybody but its user. -/
def KeyEnvelope.Colleague (k : KeyEnvelope) (g : Gucs) : Prop :=
  k.scope = .user ∧ (∃ o, k.organizationId = some o ∧ g.org = some o) ∧ k.userId ≠ g.user

/-- An envelope is reached through the arm of its scope exactly where no colleague asks for it. -/
theorem envelope_own_arm (k : KeyEnvelope) (db : Database) (calls : List ContextCall) :
    ((ContextCall.session calls).gucs.Admits db (.keyEnvelope k) → k.OwnArm (ContextCall.session calls).gucs) ↔
      ¬ k.Colleague (ContextCall.session calls).gucs := by
  generalize (ContextCall.session calls).gucs = g
  have harms : g.Admits db (.keyEnvelope k) ↔ _ := g.holds_keyEnvelopePolicy
  rw [harms]
  have huser := k.user_scope_has_user
  have hjob := k.scan_job_scope_has_job
  have horg := k.guest_scope_lacks_org
  simp only [KeyEnvelope.OwnArm, KeyEnvelope.Colleague]
  cases hs : k.scope with
  | user =>
    have hnojob : k.scanJobId = none := by simpa [hs] using hjob
    obtain ⟨u, hu⟩ := Option.isSome_iff_exists.1 (huser.1 hs)
    simp only [hu, hnojob, Option.some.injEq, reduceCtorEq, false_and, exists_false, or_false, true_and, not_and, not_not]
    grind
  | organization =>
    have hnouser : k.userId = none := by simpa [hs] using huser
    have hnojob : k.scanJobId = none := by simpa [hs] using hjob
    simp [hnouser, hnojob]
  | scanJob =>
    have hnouser : k.userId = none := by simpa [hs] using huser
    have hnoorg : k.organizationId = none := horg.1 hs
    simp [hnouser, hnoorg]

/-! ### Registration -/

/-- The envelopes `register` writes for a new organization and its first user. -/
def organizationEnvelope (id orgId : Uuid) : KeyEnvelope where
  id
  scope := .organization
  organizationId := some orgId
  userId := none
  scanJobId := none
  user_scope_has_user := by simp
  scan_job_scope_has_job := by simp
  guest_scope_lacks_org := by simp

def userEnvelope (id orgId userId : Uuid) : KeyEnvelope where
  id
  scope := .user
  organizationId := some orgId
  userId := some userId
  scanJobId := none
  user_scope_has_user := by simp
  scan_job_scope_has_job := by simp
  guest_scope_lacks_org := by simp

/-- The rows of `register`, with the identifiers `uuid7` draws, in their order. -/
def register (uuid7 : Nat → Uuid) (responses : Nat) : Database :=
  let orgId := uuid7 0
  let userId := uuid7 1
  [.organization orgId, .appUser userId orgId, .keyEnvelope (organizationEnvelope (uuid7 2) orgId),
    .keyEnvelope (userEnvelope (uuid7 3) orgId userId)] ++
    (List.range responses).map fun n => .orgRow .statementResponse (uuid7 (4 + n)) (some orgId)

/-- Every user envelope that `register` writes is open to the whole organization. -/
theorem register_colleague (uuid7 : Nat → Uuid) (responses : Nat) (u : Option Uuid) (hu : u ≠ some (uuid7 1)) :
    ∃ k : KeyEnvelope, k.userId = some (uuid7 1) ∧ k.Colleague { org := some (uuid7 0), user := u } ∧
      ({ org := some (uuid7 0), user := u } : Gucs).Reaches (register uuid7 responses) (.keyEnvelope k) := by
  refine ⟨userEnvelope (uuid7 3) (uuid7 0) (uuid7 1), rfl, ⟨rfl, ⟨_, rfl, rfl⟩, Ne.symm hu⟩, ?_, ?_⟩
  · simp [register]
  · exact Gucs.admits_org.2 (.inl rfl)

/-- After a registration, a member acting in the same organization reaches the envelope of the user. -/
theorem colleague_reaches_envelope :
    ∃ (k : KeyEnvelope) (db : Database) (calls : List ContextCall),
      db = register (fun n => ⟨n⟩) 0 ++ [.appUser 9 0] ∧ calls = [.setOrgContext 0 (some 9)] ∧
      (ContextCall.session calls).gucs.Reaches db (.keyEnvelope k) ∧
      k.scope = .user ∧ k.userId = some 1 ∧ ¬ k.OwnArm (ContextCall.session calls).gucs := by
  refine ⟨userEnvelope ⟨3⟩ ⟨0⟩ ⟨1⟩, _, _, rfl, rfl, ⟨?_, ?_⟩, rfl, rfl, ?_⟩
  · simp [register]
  · rw [ContextCall.gucs_session]
    exact Gucs.admits_org.2 (.inl rfl)
  · rintro ⟨u, hu, hu'⟩
    cases hu
    cases hu'

end TestingPlatform.Rls
