import TestingPlatform.Auth.Service
import TestingPlatform.Lib.Fallible

/-!
# Registration

`register` of `domains/auth/service.py`: the consent test, then the staged flushes of one transaction. The test is
over the set of answered pairs, while the receipts are written over the list of answers, under a unique index on
statement and envelope. A list that answers a statement twice passes the test and fails at the last flush
(`register_exact_iff`).
-/

namespace TestingPlatform.Auth

/-! ### Statements -/

inductive StatementResponseKind where
  | acceptance | attestation
  deriving DecidableEq, Repr

structure Statement where
  id : Uuid
  statementKey : String
  version : String
  responseKind : StatementResponseKind
  /-- Null for account-level responses. -/
  requiredContextType : Option String
  effectiveAt : Time
  retiredAt : Option Time
  deriving DecidableEq, Repr

def Statement.key (s : Statement) : String × String := (s.statementKey, s.version)

structure Statements where
  table : Table Statement.id
  key_nodup : (table.rows.map Statement.key).Nodup

/-- The statements that registration must collect. -/
def activeAcceptanceStatements (statements : Statements) (now : Time) : List Statement :=
  statements.table.rows.filter fun s =>
    s.responseKind = .acceptance ∧ s.requiredContextType = none ∧ s.effectiveAt ≤ now ∧ s.retiredAt = none

/-! ### The function -/

/-- A key that `generate_key` draws, and the nonce under which `wrap_key` wraps it for `key_envelope`. -/
structure WrappedKey (P : Primitives) where
  key : Bytes
  nonce : Bytes

namespace WrappedKey
variable {P : Primitives} (k : WrappedKey P)

def ciphertext : Bytes := P.wrapKey k.nonce k.key

theorem unwraps : P.unwrapKey k.ciphertext k.nonce = some k.key := P.unwrapKey_wrapKey k.nonce k.key

end WrappedKey

/-- What `register` gets and draws. -/
structure Registration (P : Primitives) where
  now : Time
  email : String
  password : String
  displayName : Option String
  /-- Key and version of each answer. -/
  answers : List (String × String)
  organizationId : Uuid
  userId : Uuid
  envelopeId : Uuid
  /-- The keys of the organization and of the user; `none` without a master key. -/
  keys : Option (WrappedKey P × WrappedKey P)
  salt : Bytes
  nonce : Bytes

inductive RegistrationRefusal where
  | consent (missing unknown : List (String × String))
  | masterKeyUnavailable
  | emailTaken
  /-- An `IntegrityError` that nobody catches. -/
  | integrity
  deriving DecidableEq, Repr

/-- `sorted(set(a) - set(b))`. -/
def sortedDifference (a b : List (String × String)) : List (String × String) :=
  (a.filter fun x => x ∉ b).eraseDups.mergeSort fun x y => x.1 < y.1 ∨ (x.1 = y.1 ∧ x.2 ≤ y.2)

section Flushes
variable {P : Primitives}

def Registration.organizationEnvelope (x : Registration P) (organizationKey : WrappedKey P) : OrganizationEnvelope :=
  ⟨x.organizationId, organizationKey.ciphertext, organizationKey.nonce⟩

def Registration.envelope (x : Registration P) (userKey : WrappedKey P) : KeyEnvelope :=
  ⟨x.envelopeId, x.organizationId, x.userId, userKey.ciphertext, userKey.nonce⟩

def Registration.user (x : Registration P) : AppUser :=
  ⟨x.userId, x.organizationId, P.lower x.email, x.displayName, none⟩

def Registration.credential (x : Registration P) (userKey : WrappedKey P) : UserCredential where
  userId := x.userId
  passwordCiphertext := encryptPassword P x.salt x.nonce x.password userKey.key
  passwordUpdatedAt := x.now

/-- The workspace organization. -/
def flushOrganization (d : Db) (x : Registration P) : Except RegistrationRefusal Db :=
  match d.organizations.insertNew ⟨x.organizationId, "Workspace"⟩ with
  | none => .error .integrity
  | some organizations => .ok { d with organizations }

/-- The user; `uq_app_user_email_lower` is the one constraint that is told apart. -/
def flushUser (d : Db) (x : Registration P) : Except RegistrationRefusal Db :=
  if d.users.rows.any fun u => P.sqlLower u.email = P.sqlLower x.user.email then .error .emailTaken
  else match d.users.insertNew x.user with
    | none => .error .integrity
    | some users => .ok { d with users }

/-- The two envelopes and the credential. -/
def flushKeys (d : Db) (x : Registration P) (organizationKey userKey : WrappedKey P) : Except RegistrationRefusal Db :=
  match d.organizationEnvelopes.insertNew (x.organizationEnvelope organizationKey),
      d.envelopes.insertNew (x.envelope userKey), d.credentials.insertNew (x.credential userKey) with
  | some organizationEnvelopes, some envelopes, some credentials =>
    .ok { d with organizationEnvelopes, envelopes, credentials }
  | _, _, _ => .error .integrity

/-- The receipt of one answer. -/
def receipt (x : Registration P) (active : List Statement) (answer : String × String) : Option StatementResponse :=
  (active.find? fun s => s.key = answer).map fun s => ⟨x.organizationId, s.id, x.envelopeId, x.now⟩

/-- One receipt for each answer of the list. -/
def flushReceipts (d : Db) (x : Registration P) (active : List Statement) : Except RegistrationRefusal Db :=
  match x.answers.foldlM (fun t answer => (receipt x active answer).bind t.insertNew) d.receipts with
  | none => .error .integrity
  | some receipts => .ok { d with receipts }

end Flushes

/-- `register`: the database of the session at its commit, or the exception that ends it. -/
def register (P : Primitives) (statements : Statements) (d : Db) (x : Registration P) : Except RegistrationRefusal Db :=
  let active := activeAcceptanceStatements statements x.now
  let required := active.map Statement.key
  let missing := sortedDifference required x.answers
  let unknown := sortedDifference x.answers required
  if missing ≠ [] ∨ unknown ≠ [] then .error (.consent missing unknown)
  else match x.keys with
    | none => .error .masterKeyUnavailable
    | some (organizationKey, userKey) => do
      let d ← flushOrganization d x
      let d ← flushUser d x
      let d ← flushKeys d x organizationKey userKey
      flushReceipts d x active

/-- The database after the request: a session that raises is closed without a commit. -/
def committed (d : Db) : Except RegistrationRefusal Db → Db
  | .ok d' => d'
  | .error _ => d

/-! ### What the consent test decides -/

theorem mem_sortedDifference {a b : List (String × String)} {k : String × String} :
    k ∈ sortedDifference a b ↔ k ∈ a ∧ k ∉ b := by
  simp [sortedDifference]

theorem nodup_eraseDups {α : Type} [BEq α] [LawfulBEq α] (l : List α) : l.eraseDups.Nodup := by
  induction hn : l.length using Nat.strongRecOn generalizing l with
  | ind n ih =>
    cases l with
    | nil => exact List.nodup_nil
    | cons a l =>
      have hlt : (l.filter fun b => !b == a).length < n := hn ▸ Nat.lt_succ_of_le (List.length_filter_le _ _)
      rw [List.eraseDups_cons, List.nodup_cons]
      exact ⟨by simp [List.mem_eraseDups], ih _ hlt _ rfl⟩

theorem nodup_sortedDifference {a b : List (String × String)} : (sortedDifference a b).Nodup :=
  (List.mergeSort_perm _ _).nodup_iff.2 (nodup_eraseDups _)

theorem sortedDifference_eq_nil {a b : List (String × String)} : sortedDifference a b = [] ↔ ∀ k ∈ a, k ∈ b := by
  simp only [List.eq_nil_iff_forall_not_mem, mem_sortedDifference, not_and, not_not]

/-- The set of answered pairs is the set of active ones. -/
def Answered {P : Primitives} (statements : Statements) (x : Registration P) : Prop :=
  ∀ k, k ∈ x.answers ↔ k ∈ (activeAcceptanceStatements statements x.now).map Statement.key

/-- No account has the email, up to case. -/
def Unused {P : Primitives} (d : Db) (x : Registration P) : Prop :=
  ∀ u ∈ d.users.rows, P.sqlLower u.email ≠ P.sqlLower x.user.email

/-- The ids that the registration draws have no row. -/
structure Vacant {P : Primitives} (d : Db) (x : Registration P) : Prop where
  organization : d.organizations.find x.organizationId = none
  user : d.users.find x.userId = none
  organizationEnvelope : d.organizationEnvelopes.find x.organizationId = none
  envelope : d.envelopes.find x.userId = none
  credential : d.credentials.find x.userId = none

/-- The rows of the account, with these receipts. -/
def provisioned {P : Primitives} (d : Db) (x : Registration P) (organizationKey userKey : WrappedKey P)
    (receipts : Table StatementResponse.key) : Db :=
  { d with
    organizations := d.organizations.insert ⟨x.organizationId, "Workspace"⟩
    users := d.users.insert x.user
    organizationEnvelopes := d.organizationEnvelopes.insert (x.organizationEnvelope organizationKey)
    envelopes := d.envelopes.insert (x.envelope userKey)
    credentials := d.credentials.insert (x.credential userKey)
    receipts }

section Register
variable {P : Primitives} {statements : Statements} {d d' : Db} {x : Registration P} {organizationKey userKey : WrappedKey P}

theorem answered_iff : Answered statements x ↔
    sortedDifference ((activeAcceptanceStatements statements x.now).map Statement.key) x.answers = [] ∧
      sortedDifference x.answers ((activeAcceptanceStatements statements x.now).map Statement.key) = [] := by
  rw [sortedDifference_eq_nil, sortedDifference_eq_nil]
  exact ⟨fun h => ⟨fun k => (h k).2, fun k => (h k).1⟩, fun h k => ⟨h.2 k, h.1 k⟩⟩

/-! ### The flushes -/

theorem flushOrganization_eq_ok : flushOrganization d x = .ok d' ↔ d.organizations.find x.organizationId = none ∧
    d' = { d with organizations := d.organizations.insert ⟨x.organizationId, "Workspace"⟩ } := by
  unfold flushOrganization
  split
  · next h =>
    have hsome : d.organizations.find x.organizationId ≠ none := Table.insertNew_eq_none.1 h
    exact ⟨fun h => (by cases h), fun h => absurd h.1 hsome⟩
  · next h =>
    obtain ⟨hnone, rfl⟩ := Table.insertNew_eq_some.1 h
    exact ⟨fun h => ⟨hnone, (Except.ok.inj h).symm⟩, fun h => by rw [h.2]⟩

theorem flushUser_eq_ok : flushUser d x = .ok d' ↔ Unused d x ∧ d.users.find x.userId = none ∧
    d' = { d with users := d.users.insert x.user } := by
  have hunused : (d.users.rows.any fun u => P.sqlLower u.email = P.sqlLower x.user.email) = true ↔ ¬ Unused d x := by
    simp [Unused]
  unfold flushUser
  split
  · next h => exact ⟨fun h => (by cases h), fun h' => absurd h'.1 (hunused.1 h)⟩
  · next h =>
    have hun : Unused d x := by
      by_contra hc
      exact h (hunused.2 hc)
    split
    · next hins =>
      have hsome : d.users.find x.userId ≠ none := Table.insertNew_eq_none.1 hins
      exact ⟨fun h => (by cases h), fun h => absurd h.2.1 hsome⟩
    · next hins =>
      obtain ⟨hnone, rfl⟩ := Table.insertNew_eq_some.1 hins
      exact ⟨fun h => ⟨hun, hnone, (Except.ok.inj h).symm⟩, fun h => by rw [h.2.2]⟩

theorem flushKeys_eq_ok : flushKeys d x organizationKey userKey = .ok d' ↔
    d.organizationEnvelopes.find x.organizationId = none ∧ d.envelopes.find x.userId = none ∧
      d.credentials.find x.userId = none ∧
      d' = { d with
        organizationEnvelopes := d.organizationEnvelopes.insert (x.organizationEnvelope organizationKey)
        envelopes := d.envelopes.insert (x.envelope userKey)
        credentials := d.credentials.insert (x.credential userKey) } := by
  unfold flushKeys
  split
  · next hoe he hc =>
    obtain ⟨hoe', rfl⟩ := Table.insertNew_eq_some.1 hoe
    obtain ⟨he', rfl⟩ := Table.insertNew_eq_some.1 he
    obtain ⟨hc', rfl⟩ := Table.insertNew_eq_some.1 hc
    exact ⟨fun h => ⟨hoe', he', hc', (Except.ok.inj h).symm⟩, fun h => by rw [h.2.2.2]⟩
  · next hnot =>
    constructor
    · intro h
      cases h
    · rintro ⟨hoe, he, hc, -⟩
      exact (hnot _ _ _ (Table.insertNew_eq_some.2 ⟨hoe, rfl⟩) (Table.insertNew_eq_some.2 ⟨he, rfl⟩)
        (Table.insertNew_eq_some.2 ⟨hc, rfl⟩)).elim

theorem flushReceipts_eq_ok {active : List Statement} : flushReceipts d x active = .ok d' ↔
    x.answers.foldlM (fun t answer => (receipt x active answer).bind t.insertNew) d.receipts = some d'.receipts ∧
      d' = { d with receipts := d'.receipts } := by
  unfold flushReceipts
  split
  · next h => exact ⟨fun h => (by cases h), fun h' => by rw [h] at h'; cases h'.1⟩
  · next receipts h =>
    constructor
    · intro h'
      cases h'
      exact ⟨h, rfl⟩
    · rintro ⟨h', hd⟩
      rw [h] at h'
      rw [hd, Option.some.inj h']

/-- The rows of a registration go in together. -/
theorem register_eq_ok : register P statements d x = .ok d' ↔ Answered statements x ∧ ∃ organizationKey userKey,
    x.keys = some (organizationKey, userKey) ∧ Unused d x ∧ Vacant d x ∧
      x.answers.foldlM (fun t answer => (receipt x (activeAcceptanceStatements statements x.now) answer).bind t.insertNew)
        d.receipts = some d'.receipts ∧
      d' = provisioned d x organizationKey userKey d'.receipts := by
  unfold register
  simp only
  split
  · next h =>
    refine ⟨fun h => (by cases h), fun h' => ?_⟩
    obtain ⟨hmissing, hunknown⟩ := answered_iff.1 h'.1
    exact absurd h (by simp [hmissing, hunknown])
  · next h =>
    have hanswered : Answered statements x := by
      rw [not_or, not_not, not_not] at h
      exact answered_iff.2 h
    split
    · next hkeys =>
      constructor
      · intro h
        cases h
      · rintro ⟨-, organizationKey, userKey, h, -⟩
        rw [hkeys] at h
        cases h
    · next organizationKey userKey hkeys =>
      simp only [Fallible.bind_eq_ok, flushOrganization_eq_ok, flushUser_eq_ok, flushKeys_eq_ok, flushReceipts_eq_ok]
      constructor
      · rintro ⟨_, ⟨ho, rfl⟩, _, ⟨hun, hu, rfl⟩, _, ⟨hoe, he, hc, rfl⟩, hreceipts, hd⟩
        exact ⟨hanswered, organizationKey, userKey, hkeys, hun, ⟨ho, hu, hoe, he, hc⟩, hreceipts, hd⟩
      · rintro ⟨-, _, _, hkeys', hun, ⟨ho, hu, hoe, he, hc⟩, hreceipts, hd⟩
        rw [hkeys] at hkeys'
        cases hkeys'
        exact ⟨_, ⟨ho, rfl⟩, _, ⟨hun, hu, rfl⟩, _, ⟨hoe, he, hc, rfl⟩, hreceipts, hd⟩

theorem register_frame (h : register P statements d x = .ok d') : d'.sessions = d.sessions ∧ d'.mfa = d.mfa := by
  obtain ⟨-, organizationKey, userKey, -, -, -, -, hd⟩ := register_eq_ok.1 h
  rw [hd]
  exact ⟨rfl, rfl⟩

/-! ### The receipts -/

/-- The receipts of the answers, in their order. -/
def receipts (x : Registration P) (active : List Statement) : List StatementResponse := x.answers.filterMap (receipt x active)

theorem receipt_eq_some {active : List Statement} {answer : String × String} {r : StatementResponse}
    (h : receipt x active answer = some r) :
    ∃ s ∈ active, s.key = answer ∧ r = ⟨x.organizationId, s.id, x.envelopeId, x.now⟩ := by
  obtain ⟨s, hs, rfl⟩ := Option.map_eq_some_iff.1 h
  exact ⟨s, List.mem_of_find?_eq_some hs, by simpa using List.find?_some hs, rfl⟩

theorem exists_receipt {active : List Statement} {answer : String × String} (h : answer ∈ active.map Statement.key) :
    ∃ r, receipt x active answer = some r := by
  obtain ⟨s, hs, rfl⟩ := List.mem_map.1 h
  rcases hf : active.find? fun s' => s'.key = s.key with _ | s'
  · exact absurd (List.find?_eq_none.1 hf s hs) (by simp)
  · exact ⟨_, by rw [receipt, hf]; rfl⟩

theorem receipt_inj {a b : String × String} {r r' : StatementResponse}
    (ha : receipt x (activeAcceptanceStatements statements x.now) a = some r)
    (hb : receipt x (activeAcceptanceStatements statements x.now) b = some r') (hkey : r.key = r'.key) : a = b := by
  obtain ⟨s, hs, rfl, rfl⟩ := receipt_eq_some ha
  obtain ⟨s', hs', rfl, rfl⟩ := receipt_eq_some hb
  rw [statements.table.eq_of_key_eq (List.mem_of_mem_filter hs) (List.mem_of_mem_filter hs') (congrArg Prod.fst hkey)]

/-! ### Consent -/

/-- The exception of a list of answers that is not exact. -/
def Names (statements : Statements) (x : Registration P) (missing unknown : List (String × String)) : Prop :=
  missing.Nodup ∧ unknown.Nodup ∧
    (∀ k, k ∈ missing ↔ k ∈ (activeAcceptanceStatements statements x.now).map Statement.key ∧ k ∉ x.answers) ∧
    ∀ k, k ∈ unknown ↔ k ∈ x.answers ∧ k ∉ (activeAcceptanceStatements statements x.now).map Statement.key

/-- The account of the registration, with one receipt of its envelope for each active statement and no other. -/
def Provisions (statements : Statements) (x : Registration P) (d : Db) : Prop :=
  x.user ∈ d.users.rows ∧ ∃ e ∈ d.envelopes.rows, e.userId = x.userId ∧
    (∀ s ∈ activeAcceptanceStatements statements x.now, ∃! r, r ∈ d.receipts.rows ∧ r.statementId = s.id ∧ r.envelopeId = e.id) ∧
    ∀ r ∈ d.receipts.rows, r.envelopeId = e.id → ∃ s ∈ activeAcceptanceStatements statements x.now, r.statementId = s.id

/-- Consent is exact and atomic. -/
structure ConsentExact (P : Primitives) (statements : Statements) (d : Db) (x : Registration P) : Prop where
  accepted : x.keys.isSome = true → Unused d x → Answered statements x →
    ∃ d', register P statements d x = .ok d' ∧ Provisions statements x d'
  refused : ¬ Answered statements x →
    ∃ missing unknown, register P statements d x = .error (.consent missing unknown) ∧ Names statements x missing unknown
  keyless : Answered statements x → x.keys = none → register P statements d x = .error .masterKeyUnavailable
  taken : Answered statements x → x.keys.isSome = true → ¬ Unused d x → register P statements d x = .error .emailTaken
  atomic : ∀ r, register P statements d x = .error r → committed d (register P statements d x) = d

/-- What the registration draws is new. -/
structure FreshDraws (d : Db) (x : Registration P) : Prop extends Vacant d x where
  unreceipted : ∀ r ∈ d.receipts.rows, r.envelopeId ≠ x.envelopeId

theorem Answered.exists_receipt (h : Answered statements x) :
    ∀ answer ∈ x.answers, ∃ r, receipt x (activeAcceptanceStatements statements x.now) answer = some r :=
  fun answer hanswer => Auth.exists_receipt ((h answer).1 hanswer)

theorem Answered.nodup_receipts (h : Answered statements x) :
    ((receipts x (activeAcceptanceStatements statements x.now)).map StatementResponse.key).Nodup ↔ x.answers.Nodup :=
  Table.nodup_map_filterMap h.exists_receipt fun _ _ _ _ _ _ ha hb hkey => receipt_inj ha hb hkey

/-- The last flush fails where a statement is answered twice. -/
theorem ConsentExact.nodup (h : ConsentExact P statements d x) (hkeys : x.keys.isSome = true) (hunused : Unused d x)
    (hanswered : Answered statements x) : x.answers.Nodup := by
  obtain ⟨d', hregister, -⟩ := h.accepted hkeys hunused hanswered
  obtain ⟨-, organizationKey, userKey, -, -, -, hfold, -⟩ := register_eq_ok.1 hregister
  rw [Table.foldlM_bind_insertNew hanswered.exists_receipt, Table.foldlM_insertNew, List.map_append, List.nodup_append] at hfold
  exact hanswered.nodup_receipts.1 hfold.1.2.1

theorem FreshDraws.nodup (h : FreshDraws d x) (hanswered : Answered statements x) (hnodup : x.answers.Nodup) :
    ((d.receipts.rows ++ receipts x (activeAcceptanceStatements statements x.now)).map StatementResponse.key).Nodup := by
  rw [List.map_append, List.nodup_append]
  refine ⟨d.receipts.nodup, hanswered.nodup_receipts.2 hnodup, fun k hk k' hk' heq => ?_⟩
  obtain ⟨r, hr, rfl⟩ := List.mem_map.1 hk
  obtain ⟨r', hr', rfl⟩ := List.mem_map.1 hk'
  obtain ⟨answer, -, hreceipt⟩ := List.mem_filterMap.1 hr'
  obtain ⟨s, -, -, rfl⟩ := receipt_eq_some hreceipt
  exact h.unreceipted r hr (congrArg Prod.snd heq)

theorem FreshDraws.provisions (h : FreshDraws d x) (hanswered : Answered statements x) {t : Table StatementResponse.key}
    (ht : t.rows = d.receipts.rows ++ receipts x (activeAcceptanceStatements statements x.now)) :
    Provisions statements x (provisioned d x organizationKey userKey t) := by
  have huser : x.user ∈ (d.users.insert x.user).rows := Table.mem_of_find (Table.find_insert_self h.user)
  have henvelope : x.envelope userKey ∈ (d.envelopes.insert (x.envelope userKey)).rows :=
    Table.mem_of_find (Table.find_insert_self h.envelope)
  refine ⟨huser, x.envelope userKey, henvelope, rfl, fun s hs => ?_, fun r hr henv => ?_⟩
  · obtain ⟨r, hr⟩ := hanswered.exists_receipt s.key ((hanswered s.key).2 (List.mem_map_of_mem hs))
    obtain ⟨s', hs', hkey, rfl⟩ := receipt_eq_some hr
    have hid : s' = s := List.inj_on_of_nodup_map statements.key_nodup (List.mem_of_mem_filter hs') (List.mem_of_mem_filter hs) hkey
    have hmem : (⟨x.organizationId, s'.id, x.envelopeId, x.now⟩ : StatementResponse) ∈ t.rows := by
      rw [ht]
      exact List.mem_append_right _ (List.mem_filterMap.2 ⟨s.key, (hanswered s.key).2 (List.mem_map_of_mem hs), hr⟩)
    refine ⟨_, ⟨hmem, by rw [hid], rfl⟩, fun r' hr' => ?_⟩
    exact t.eq_of_key_eq hr'.1 hmem (Prod.ext (by rw [hid]; exact hr'.2.1) hr'.2.2)
  · have hr' : r ∈ t.rows := hr
    rw [ht, List.mem_append] at hr'
    rcases hr' with hold | hnew
    · exact absurd henv (h.unreceipted r hold)
    · obtain ⟨answer, -, hreceipt⟩ := List.mem_filterMap.1 hnew
      obtain ⟨s, hs, -, rfl⟩ := receipt_eq_some hreceipt
      exact ⟨s, hs, rfl⟩

theorem register_of_taken (hvacant : d.organizations.find x.organizationId = none) (hanswered : Answered statements x)
    (hkeys : x.keys.isSome = true) (htaken : ¬ Unused d x) : register P statements d x = .error .emailTaken := by
  obtain ⟨hmissing, hunknown⟩ := answered_iff.1 hanswered
  obtain ⟨⟨organizationKey, userKey⟩, hkeys⟩ := Option.isSome_iff_exists.1 hkeys
  have huser : (d.users.rows.any fun u => P.sqlLower u.email = P.sqlLower x.user.email) = true := by
    simpa [Unused] using htaken
  have hflush : flushUser { d with organizations := d.organizations.insert ⟨x.organizationId, "Workspace"⟩ } x = .error .emailTaken :=
    if_pos huser
  simp only [register, hmissing, hunknown, hkeys, flushOrganization_eq_ok.2 ⟨hvacant, rfl⟩]
  show (flushUser { d with organizations := d.organizations.insert ⟨x.organizationId, "Workspace"⟩ } x >>= _) = _
  rw [hflush]
  rfl

/-- Consent is exact and atomic if and only if no list that passes the test answers a statement twice. -/
theorem register_exact_iff (hfresh : FreshDraws d x) : ConsentExact P statements d x ↔
    (x.keys.isSome = true → Unused d x → Answered statements x → x.answers.Nodup) := by
  refine ⟨ConsentExact.nodup, fun hnodup => ⟨fun hkeys hunused hanswered => ?_, fun hnot => ?_, fun hanswered hkeys => ?_,
    fun hanswered hkeys htaken => register_of_taken hfresh.organization hanswered hkeys htaken, fun r hr => by rw [hr]; rfl⟩⟩
  · obtain ⟨⟨organizationKey, userKey⟩, hk⟩ := Option.isSome_iff_exists.1 hkeys
    have hrows := hfresh.nodup hanswered (hnodup hkeys hunused hanswered)
    refine ⟨provisioned d x organizationKey userKey ⟨_, hrows⟩, register_eq_ok.2
      ⟨hanswered, organizationKey, userKey, hk, hunused, hfresh.toVacant, ?_, rfl⟩, hfresh.provisions hanswered rfl⟩
    rw [Table.foldlM_bind_insertNew hanswered.exists_receipt, Table.foldlM_insertNew]
    exact ⟨hrows, rfl⟩
  · rw [answered_iff, not_and_or] at hnot
    exact ⟨_, _, if_pos hnot, nodup_sortedDifference, nodup_sortedDifference, fun _ => mem_sortedDifference,
      fun _ => mem_sortedDifference⟩
  · obtain ⟨hmissing, hunknown⟩ := answered_iff.1 hanswered
    simp [register, hmissing, hunknown, hkeys]

end Register

/-! ### A statement answered twice -/

namespace Consent

def terms : Statement := ⟨1, "terms_and_conditions", "1.0", .acceptance, none, 0, none⟩

def statements : Statements := ⟨⟨[terms], List.nodup_singleton _⟩, List.nodup_singleton _⟩

def privacy : Statement := ⟨3, "privacy_policy", "2.1", .acceptance, none, 0, none⟩

/-- Two active statements, and an earlier version of one that is retired. -/
def versioned : Statements :=
  ⟨⟨[terms, ⟨2, "privacy_policy", "2.0", .acceptance, none, 0, some 1⟩, privacy], by decide⟩, by decide⟩

def db : Db :=
  { users := .empty, envelopes := .empty, credentials := .empty, sessions := .empty, mfa := .empty, codes := .empty }

def registration (answers : List (String × String)) : Registration Primitives.plain where
  now := 1
  email := "user@example.lu"
  password := "correct horse"
  displayName := none
  answers
  organizationId := 1
  userId := 2
  envelopeId := 3
  keys := some (⟨[1], []⟩, ⟨[2], []⟩)
  salt := []
  nonce := []

theorem fresh {answers : List (String × String)} : FreshDraws db (registration answers) :=
  ⟨⟨rfl, rfl, rfl, rfl, rfl⟩, fun _ hr => by cases hr⟩

theorem active {answers : List (String × String)} :
    activeAcceptanceStatements statements (registration answers).now = [terms] := by
  show activeAcceptanceStatements statements 1 = [terms]
  decide

theorem answered {answers : List (String × String)} (hne : answers ≠ []) (hall : ∀ k ∈ answers, k = terms.key) :
    Answered statements (registration answers) := by
  intro k
  rw [active, List.map_singleton, List.mem_singleton]
  refine ⟨hall k, fun hk => ?_⟩
  obtain ⟨k', hk'⟩ := List.exists_mem_of_ne_nil _ hne
  rw [hk, ← hall k' hk']
  exact hk'

end Consent

/-- The active statements, answered in another order than theirs. -/
theorem register_exact_of_two_answers :
    Answered Consent.versioned (Consent.registration [Consent.privacy.key, Consent.terms.key]) ∧
      ConsentExact Primitives.plain Consent.versioned Consent.db
        (Consent.registration [Consent.privacy.key, Consent.terms.key]) := by
  have hactive : activeAcceptanceStatements Consent.versioned 1 = [Consent.terms, Consent.privacy] := by decide
  refine ⟨fun k => ?_, (register_exact_iff Consent.fresh).2 fun _ _ _ => by decide⟩
  show k ∈ [Consent.privacy.key, Consent.terms.key] ↔ k ∈ (activeAcceptanceStatements Consent.versioned 1).map Statement.key
  rw [hactive]
  exact (List.Perm.swap _ _ []).mem_iff

/-- The only active statement answered twice: the test passes, and the last flush violates the unique index. -/
theorem answered_twice_is_refused :
    ∃ (statements : Statements) (d : Db) (x : Registration Primitives.plain),
      FreshDraws d x ∧ x.keys.isSome = true ∧ Unused d x ∧ Answered statements x ∧
      register Primitives.plain statements d x = .error .integrity ∧ ¬ ConsentExact Primitives.plain statements d x := by
  have hanswered : Answered Consent.statements (Consent.registration [Consent.terms.key, Consent.terms.key]) :=
    Consent.answered (by simp) (by simp)
  have hunused : Unused Consent.db (Consent.registration [Consent.terms.key, Consent.terms.key]) := fun u hu => by cases hu
  refine ⟨_, _, _, Consent.fresh, rfl, hunused, hanswered, ?_, fun h => ?_⟩
  · obtain ⟨hmissing, hunknown⟩ := answered_iff.1 hanswered
    simp only [register, hmissing, hunknown]
    rfl
  · exact absurd (h.nodup rfl hunused hanswered) (by simp [Consent.registration])

end TestingPlatform.Auth
