import TestingPlatform.Assets.Verification
import TestingPlatform.Scan.Models

/-!
# Verification rows

Assets with their challenge in progress and their ownership proof, at most one of each per asset, and the
organizations that a first proof names. A domain value is claimed by one proof platform-wide; that is a
unique constraint, which a lock on the claimed value stands for (`Lock.claim`).
-/

namespace TestingPlatform.Assets

structure Challenge where
  assetId : Uuid
  organizationId : Uuid
  requestedScope : VerificationScope
  recordName : String
  verificationToken : String
  tokenExpiresAt : Time
  requestedByUserId : Option Uuid
  requestedAt : Time
  lastRecheckAt : Option Time := none
  failureCode : Option String := none
  failure_follows_recheck : failureCode.isSome → lastRecheckAt.isSome := by simp
  deriving DecidableEq

structure DomainVerification where
  assetId : Uuid
  organizationId : Uuid
  verifiedScope : VerificationScope
  value : String
  verifiedAt : Time
  verifiedByUserId : Option Uuid
  dnssecValidated : Bool
  resolvers : List String
  corroboratingAnswers : Nat
  deriving DecidableEq, Repr

structure Organization where
  id : Uuid
  name : String
  namedAt : Option Time
  deriving DecidableEq, Repr

structure Db where
  assets : Table Asset.id
  challenges : Table Challenge.assetId
  proofs : Table DomainVerification.assetId
  organizations : Table Organization.id

/-- Row locks; a row that is still to be inserted is locked through its unique key. -/
inductive Lock where
  | challenge (assetId : Uuid)
  | proof (assetId : Uuid)
  /-- The entry of a domain value in `uq_domain_verification_value`. -/
  | claim (value : String)
  | organization (id : Uuid)
  deriving DecidableEq, Repr

/-- What a commit makes visible. -/
inductive Write where
  /-- The upsert of `upsert_challenge`. -/
  | challenge (row : Challenge)
  /-- The columns `stamp_check` sets. -/
  | stampCheck (assetId : Uuid) (lastRecheckAt : Time) (failureCode : Option VerificationFailureCode)
  /-- The upsert of `upsert_proof`. -/
  | proof (row : DomainVerification)
  /-- The columns `name_organization_if_unnamed` sets. -/
  | nameOrganization (id : Uuid) (name : String) (namedAt : Time)

def Challenge.stamp (row : Challenge) (at_ : Time) (code : Option VerificationFailureCode) : Challenge :=
  { row with lastRecheckAt := some at_, failureCode := code.map VerificationFailureCode.value, failure_follows_recheck := by simp }

@[simp] theorem Challenge.stamp_assetId (row : Challenge) (at_ : Time) (code : Option VerificationFailureCode) :
    (row.stamp at_ code).assetId = row.assetId := rfl

def Organization.named (o : Organization) (name : String) (namedAt : Time) : Organization :=
  { o with name, namedAt := some namedAt }

@[simp] theorem Organization.named_id (o : Organization) (name : String) (namedAt : Time) : (o.named name namedAt).id = o.id := rfl

def Db.write (d : Db) : Write → Db
  | .challenge row => { d with challenges := d.challenges.put row }
  | .stampCheck assetId at_ code => { d with challenges := d.challenges.modify assetId (·.stamp at_ code) (·.stamp_assetId at_ code) }
  | .proof row => { d with proofs := d.proofs.put row }
  | .nameOrganization id name namedAt =>
    { d with organizations := d.organizations.modify id (·.named name namedAt) (·.named_id name namedAt) }

/-- The row that the write needs locked; a proof also needs the claim on its value. -/
def Write.touches : Write → Lock → Prop
  | .challenge row, k => k = .challenge row.assetId
  | .stampCheck assetId _ _, k => k = .challenge assetId
  | .proof row, k => k = .proof row.assetId ∨ k = .claim row.value
  | .nameOrganization id _ _, k => k = .organization id

/-- A locked row stands; while a claim is locked nobody else gets the value. -/
def Lock.agree : Lock → Db → Db → Prop
  | .challenge assetId, d, d' => d'.challenges.find assetId = d.challenges.find assetId
  | .proof assetId, d, d' => d'.proofs.find assetId = d.proofs.find assetId
  | .claim value, d, d' => ∀ assetId p, d'.proofs.find assetId = some p → p.value = value → d.proofs.find assetId = some p
  | .organization id, d, d' => d'.organizations.find id = d.organizations.find id

theorem agree_write {u : Write} {k : Lock} (d : Db) (h : ¬ u.touches k) : k.agree d (d.write u) := by
  cases u with
  | challenge row =>
    cases k with
    | challenge assetId => exact Table.find_put_of_ne fun he => h (by rw [← he]; rfl)
    | claim => exact fun _ _ hp _ => hp
    | proof | organization => rfl
  | stampCheck assetId' at_ code =>
    cases k with
    | challenge assetId =>
      have hne : assetId ≠ assetId' := fun he => h (by rw [he]; rfl)
      rw [Lock.agree, Db.write, Table.find_modify_of_ne hne]
    | claim => exact fun _ _ hp _ => hp
    | proof | organization => rfl
  | proof row =>
    cases k with
    | proof assetId => exact Table.find_put_of_ne fun he => h (.inl (by rw [← he]))
    | claim value =>
      intro assetId p hp hv
      by_cases he : row.assetId = assetId
      · subst he
        rw [show (d.write (.proof row)).proofs.find row.assetId = some row from Table.find_put_self ..] at hp
        cases hp
        exact absurd (.inr (by rw [← hv])) h
      · rwa [show (d.write (.proof row)).proofs.find assetId = d.proofs.find assetId from Table.find_put_of_ne he] at hp
    | challenge | organization => rfl
  | nameOrganization id' name namedAt =>
    cases k with
    | organization id =>
      have hne : id ≠ id' := fun he => h (by rw [he]; rfl)
      rw [Lock.agree, Db.write, Table.find_modify_of_ne hne]
    | claim => exact fun _ _ hp _ => hp
    | challenge | proof => rfl

/-! ### Terms -/

/-- What a challenge was issued with; a check stamps the other columns. -/
structure Terms where
  requestedScope : VerificationScope
  recordName : String
  verificationToken : String
  tokenExpiresAt : Time
  deriving DecidableEq, Repr

def Challenge.terms (row : Challenge) : Terms :=
  ⟨row.requestedScope, row.recordName, row.verificationToken, row.tokenExpiresAt⟩

def Db.terms (d : Db) (assetId : Uuid) : Option Terms := (d.challenges.find assetId).map Challenge.terms

theorem terms_challenge (d : Db) (row : Challenge) (assetId : Uuid) :
    (d.write (.challenge row)).terms assetId = if row.assetId = assetId then some row.terms else d.terms assetId := by
  show ((d.challenges.put row).find assetId).map Challenge.terms = _
  rw [Table.find_put]
  split <;> rfl

theorem terms_write {u : Write} (d : Db) (hu : ∀ row, u ≠ .challenge row) (assetId : Uuid) :
    (d.write u).terms assetId = d.terms assetId := by
  cases u with
  | challenge row => exact absurd rfl (hu row)
  | stampCheck assetId' at_ code =>
    rw [Db.terms, Db.write, Table.find_modify]
    split
    · rw [Option.map_map]; rfl
    · rfl
  | proof | nameOrganization => rfl

theorem terms_foldl {ws : List Write} (d : Db) (hws : ∀ u ∈ ws, ∀ row, u ≠ .challenge row) (assetId : Uuid) :
    (ws.foldl Db.write d).terms assetId = d.terms assetId := by
  induction ws generalizing d with
  | nil => rfl
  | cons u ws ih =>
    rw [List.foldl_cons, ih _ fun v hv => hws v (List.mem_cons_of_mem _ hv)]
    exact terms_write d (hws u List.mem_cons_self) assetId

@[simp] theorem assets_foldl (d : Db) (ws : List Write) : (ws.foldl Db.write d).assets = d.assets := by
  induction ws generalizing d with
  | nil => rfl
  | cons u ws ih => rw [List.foldl_cons, ih]; cases u <;> rfl

end TestingPlatform.Assets
