import TestingPlatform.Assets.Claims
import TestingPlatform.Assets.Stale
import TestingPlatform.Lib.History

/-!
# One check, all or nothing

A call of `run_check` ends with one answer and makes at most one commit that changes rows. `Outcome` says
which rows that commit changes for each answer: nothing for a refusal, the two columns of the stamp for a
check that did not succeed or lost its claim, and the proof with the stamp for a success.
`Checking` follows the call through its two transactions; what it has decided about the name of the
organization stays right until the commit, because the row is locked or the name is settled already.
-/

namespace TestingPlatform.Assets

open ReadCommitted System

variable {π : Type} {s : Settings}

/-! ### Outcomes -/

/-- The name of an organization is taken once. -/
def Organization.settle (o : Organization) (name : String) (namedAt : Time) : Organization :=
  if o.namedAt = none then o.named name namedAt else o

/-- On the challenge of the asset the two columns of a check have changed, and no other challenge has. -/
structure Stamped (d d' : Db) (assetId : Uuid) (checkedAt : Time) (code : Option VerificationFailureCode) : Prop where
  challenge : ∃ x, d.challenges.find assetId = some x ∧ d'.challenges.find assetId = some (x.stamp checkedAt code)
  others : ∀ id, id ≠ assetId → d'.challenges.find id = d.challenges.find id
  assets : d'.assets = d.assets

/-- Nothing else has changed. -/
structure OnlyStamped (d d' : Db) (assetId : Uuid) (checkedAt : Time) (code : Option VerificationFailureCode) : Prop
    extends Stamped d d' assetId checkedAt code where
  proofs : d'.proofs = d.proofs
  organizations : d'.organizations = d.organizations

/-- The proof is written, the failure cleared, and the organization named if it had no name. -/
structure Proved (c : RunCheck) (row : DomainVerification) (d d' : Db) : Prop
    extends Stamped d d' c.assetId c.checkedAt none where
  row_of : row.assetId = c.assetId ∧ row.organizationId = c.organizationId ∧ row.verifiedAt = c.checkedAt
  proof : d'.proofs.find c.assetId = some row
  otherProofs : ∀ id, id ≠ c.assetId → d'.proofs.find id = d.proofs.find id
  organization : d'.organizations.find c.organizationId =
    (d.organizations.find c.organizationId).map (·.settle row.value c.checkedAt)
  otherOrganizations : ∀ id, id ≠ c.organizationId → d'.organizations.find id = d.organizations.find id

/-- Which rows a call changes, by its answer. -/
inductive Outcome (c : RunCheck) : Answer → List (Db × Db) → Prop where
  | refused {r : Refusal} (hr : r ≠ .domainClaimLost) : Outcome c (.refused r) []
  | claimLost {d d' : Db} (h : OnlyStamped d d' c.assetId c.checkedAt (some .claimLost)) :
      Outcome c (.refused .domainClaimLost) [(d, d')]
  | superseded {d d' : Db} (h : OnlyStamped d d' c.assetId c.checkedAt (some .challengeSuperseded)) :
      Outcome c .superseded [(d, d')]
  | failed {code : VerificationFailureCode} {d d' : Db} (hcode : code.platformFault = false)
      (h : OnlyStamped d d' c.assetId c.checkedAt (some code)) : Outcome c (.failed (some code)) [(d, d')]
  | verified {row : DomainVerification} {d d' : Db} (h : Proved c row d d') : Outcome c (.verified row) [(d, d')]

/-! ### Rows under writes -/

section Writes
variable {d : Db} {ws : List Write}

theorem challenge_foldl {assetId : Uuid} (h : (d.challenges.find assetId).isSome = true) :
    ((ws.foldl Db.write d).challenges.find assetId).isSome = true := by
  induction ws generalizing d with
  | nil => exact h
  | cons u ws ih =>
    refine ih ?_
    cases u with
    | challenge row =>
      show ((d.challenges.put row).find assetId).isSome = true
      rw [Table.find_put]
      split
      · rfl
      · exact h
    | stampCheck assetId' at_ code =>
      rw [Db.write, Table.find_modify]
      split
      · rw [Option.isSome_map]; exact h
      · exact h
    | proof | nameOrganization => exact h

theorem organization_foldl {id : Uuid} (h : ∀ o, d.organizations.find id = some o → o.namedAt ≠ none) :
    ∀ o, (ws.foldl Db.write d).organizations.find id = some o → o.namedAt ≠ none := by
  induction ws generalizing d with
  | nil => exact h
  | cons u ws ih =>
    refine ih ?_
    cases u with
    | nameOrganization id' name at_ =>
      intro o ho
      rw [Db.write, Table.find_modify] at ho
      split at ho
      · obtain ⟨o', -, rfl⟩ := Option.map_eq_some_iff.1 ho
        simp [Organization.named]
      · exact h o ho
    | challenge | stampCheck | proof => exact h

theorem CheckRecord.foldl (r : CheckRecord) (d : Db) :
    (r.writes.foldl Db.write d).challenges =
        d.challenges.modify r.assetId (·.stamp r.checkedAt r.failureCode) (·.stamp_assetId r.checkedAt r.failureCode) ∧
      (r.writes.foldl Db.write d).organizations = (r.naming.elim d.organizations fun n =>
        d.organizations.modify n.1 (·.named n.2 r.checkedAt) (·.named_id n.2 r.checkedAt)) ∧
      (r.writes.foldl Db.write d).assets = d.assets := by
  refine ⟨?_, ?_, assets_foldl d _⟩ <;>
    cases hp : r.proof <;> cases hn : r.naming <;> simp [writes, hp, hn, Db.write]

theorem CheckRecord.stamped (r : CheckRecord) (h : (d.challenges.find r.assetId).isSome = true) :
    Stamped d (r.writes.foldl Db.write d) r.assetId r.checkedAt r.failureCode := by
  obtain ⟨hchallenges, -, hassets⟩ := r.foldl d
  obtain ⟨x, hx⟩ := Option.isSome_iff_exists.1 h
  refine ⟨⟨x, hx, ?_⟩, fun id hid => ?_, hassets⟩
  · rw [hchallenges, Table.find_modify_self, hx]
    rfl
  · rw [hchallenges, Table.find_modify_of_ne hid]

end Writes

/-! ### A call and its statements -/

/-- The decision about the name: to take it from an organization without one, or to leave it. -/
structure Names (d : Db) (organizationId : Uuid) (named : Bool) : Prop where
  take : named = true → ∃ o, d.organizations.find organizationId = some o ∧ o.namedAt = none
  leave : named = false → ∀ o, d.organizations.find organizationId = some o → o.namedAt ≠ none

/-- The check has failed for a reason that is the user's. -/
def Fails (code : Option VerificationFailureCode) : Prop := ∃ k, code = some k ∧ k.platformFault = false

/-- The row that the check proves with. -/
def Makes (c : RunCheck) (row : DomainVerification) : Prop :=
  row.assetId = c.assetId ∧ row.organizationId = c.organizationId ∧ row.verifiedAt = c.checkedAt

def Agrees (c : RunCheck) (d : Db) (r : CheckRecord) : Answer → Prop
  | .refused .domainClaimLost => r = ⟨c.assetId, c.checkedAt, some .claimLost, none, none⟩
  | .superseded => r = ⟨c.assetId, c.checkedAt, some .challengeSuperseded, none, none⟩
  | .failed code => r = ⟨c.assetId, c.checkedAt, code, none, none⟩ ∧ Fails code
  | .verified row => Makes c row ∧ ∃ named : Bool, Names d c.organizationId named ∧
      r = ⟨c.assetId, c.checkedAt, none, some row, if named then some (c.organizationId, row.value) else none⟩
  | _ => False

/-- Where the call `c` stands, and what its locals say. -/
def Checking (c : RunCheck) (d : Db) : Proc → Prop
  | .runCheck c' => c' = c
  | .checkChallenge c' asset => c' = c ∧ asset.id = c.assetId
  | .endRead c' a | .resolve c' a | .credentials c' a _ | .reread c' a _ _ | .stampSuperseded c' a | .upsertProof c' a _
  | .lostClaim c' a | .stampClaimLost c' a => c' = c ∧ a.assetId = c.assetId
  | .stampVerdict c' a code => c' = c ∧ a.assetId = c.assetId ∧ Fails code
  | .nameOrganization c' a row => c' = c ∧ a.assetId = c.assetId ∧ Makes c row ∧ row.value = a.value
  | .stampVerified c' a row named =>
    c' = c ∧ a.assetId = c.assetId ∧ Makes c row ∧ row.value = a.value ∧ Names d c.organizationId named
  | .commitCheck r answer => (d.challenges.find c.assetId).isSome = true ∧ Agrees c d r answer
  | .refuse r => r ≠ .domainClaimLost
  | .done => True
  | _ => False

section Stable
variable {c : RunCheck} {held : Lock → Prop} {d d' : Db} {ws : List Write} {organizationId : Uuid}

theorem Names.stable {named : Bool} (h : Names d organizationId named)
    (hlock : named = true → d'.organizations.find organizationId = d.organizations.find organizationId)
    (hd : d' = ws.foldl Db.write d) : Names d' organizationId named := by
  refine ⟨fun htake => ?_, fun hleave => ?_⟩
  · rw [hlock htake]
    exact h.take htake
  · rw [hd]
    exact organization_foldl (h.leave hleave)

theorem Agrees.stable {r : CheckRecord} {answer : Answer} (h : Agrees c d r answer)
    (hlock : ∀ n ∈ r.naming, d'.organizations.find n.1 = d.organizations.find n.1) (hd : d' = ws.foldl Db.write d) :
    Agrees c d' r answer := by
  cases answer with
  | refused refusal => cases refusal <;> exact h
  | verified row =>
    obtain ⟨hmakes, named, hnames, hr⟩ := h
    refine ⟨hmakes, named, hnames.stable (fun htake => ?_) hd, hr⟩
    refine hlock (c.organizationId, row.value) ?_
    rw [hr, htake]
    rfl
  | superseded | failed | issued => exact h

theorem Checking.stable {p : Proc} (h : Checking c d p) (hA : p.Holds held d) (hagree : ∀ k, held k → k.agree d d')
    (hd : d' = ws.foldl Db.write d) : Checking c d' p := by
  cases p with
  | stampVerified c' a row named =>
    obtain ⟨rfl, hid, hmakes, hvalue, hnames⟩ := h
    exact ⟨rfl, hid, hmakes, hvalue, hnames.stable (fun htake => hagree _ (hA.2 htake)) hd⟩
  | commitCheck r answer =>
    obtain ⟨hrow, hagrees⟩ := h
    refine ⟨?_, hagrees.stable (fun n hn => hagree _ (hA.2.2 n hn)) hd⟩
    rw [hd]
    exact challenge_foldl hrow
  | _ => exact h

end Stable

theorem fails_of_verdict (v : CheckVerdict) (hfailed : v.verified = false)
    (hfault : ¬ v.failureCode.any VerificationFailureCode.platformFault = true) : Fails v.failureCode := by
  obtain ⟨k, hk⟩ := Option.isSome_iff_exists.1 (v.fails_with_code.1 hfailed)
  refine ⟨k, hk, ?_⟩
  by_contra hbad
  exact hfault ((Option.any_eq_true ..).2 ⟨k, hk, by simpa using hbad⟩)

section Statements
variable {c : RunCheck} {d : Db} {p : Proc} {m : Step}

/-- What a stamp leaves to be committed agrees with its answer, and the row it stamps is there. -/
theorem Stamps.checking {c' : RunCheck} {r : CheckRecord} {answer : Answer} (h : Stamps c' p r answer) (hc : Checking c d p)
    (hfound : (c'.challengeFor d r.assetId).isSome = true) : Checking c d (.commitCheck r answer) := by
  obtain ⟨x, hx⟩ := Option.isSome_iff_exists.1 hfound
  obtain ⟨hrow, -⟩ := Option.filter_eq_some_iff.1 hx
  have row : r.assetId = c.assetId → (d.challenges.find c.assetId).isSome = true := fun hid => by
    rw [← hid]
    exact Option.isSome_iff_exists.2 ⟨x, hrow⟩
  cases h with
  | superseded | claimLost =>
    obtain ⟨rfl, hid⟩ := hc
    exact ⟨row hid, by rw [Agrees, hid]⟩
  | failed =>
    obtain ⟨rfl, hid, hcode⟩ := hc
    exact ⟨row hid, by rw [hid], hcode⟩
  | @verified _ _ named =>
    obtain ⟨rfl, hid, hmakes, hvalue, hnames⟩ := hc
    exact ⟨row hid, hmakes, named, hnames, by rw [hid, hvalue]⟩

theorem Checking.next (h : Checking c d p) (hm : go s d p = some m) : Checking c (m.op.effect Db.write d) m.next := by
  cases go_leads hm with
  | refused hr => exact hr
  | refuses | recorded => trivial
  | found hasset =>
    cases h
    obtain ⟨hfind, -⟩ := Option.filter_eq_some_iff.1 hasset
    exact ⟨rfl, Table.key_of_find hfind⟩
  | pending | ended | resolved | refreshed | superseded | verified | lost | undone => exact h
  | failed _ hfailed hfault => exact ⟨h.1, h.2, fails_of_verdict _ hfailed hfault⟩
  | proved =>
    obtain ⟨rfl, hid⟩ := h
    exact ⟨rfl, hid, ⟨hid, rfl, rfl⟩, rfl⟩
  | @names _ _ _ o ho hnone =>
    obtain ⟨rfl, hid, hmakes, hvalue⟩ := h
    exact ⟨rfl, hid, hmakes, hvalue, fun _ => ⟨o, ho, hnone⟩, fun hn => by cases hn⟩
  | named hnamed =>
    obtain ⟨rfl, hid, hmakes, hvalue⟩ := h
    exact ⟨rfl, hid, hmakes, hvalue, fun hn => (by cases hn), fun _ => hnamed⟩
  | stamped hstamps hfound => exact hstamps.checking h hfound
  | started | chosen | unproved | reissued | upserted | issued => exact h.elim

/-- The commit of a call changes the rows that its answer says. -/
theorem Agrees.outcome {r : CheckRecord} {answer : Answer} (h : Agrees c d r answer)
    (hrow : (d.challenges.find c.assetId).isSome = true) : Outcome c answer [(d, r.writes.foldl Db.write d)] := by
  have stamped : ∀ code, r = ⟨c.assetId, c.checkedAt, code, none, none⟩ →
      OnlyStamped d (r.writes.foldl Db.write d) c.assetId c.checkedAt code := by
    rintro code rfl
    exact ⟨CheckRecord.stamped _ hrow, CheckRecord.proofs_foldl _ d, (CheckRecord.foldl _ d).2.1⟩
  cases answer with
  | issued => exact h.elim
  | superseded => exact .superseded (stamped _ h)
  | failed code =>
    obtain ⟨hr, k, rfl, hcode⟩ := h
    exact .failed hcode (stamped _ hr)
  | refused refusal =>
    cases refusal with
    | domainClaimLost => exact .claimLost (stamped _ h)
    | _ => exact h.elim
  | verified row =>
    obtain ⟨hmakes, named, hnames, rfl⟩ := h
    obtain ⟨-, horganizations, -⟩ := CheckRecord.foldl
      ⟨c.assetId, c.checkedAt, none, some row, if named then some (c.organizationId, row.value) else none⟩ d
    refine .verified ⟨CheckRecord.stamped _ hrow, hmakes, ?_, fun id hid => ?_, ?_, fun id hid => ?_⟩
    · rw [CheckRecord.proofs_foldl, ← hmakes.1]
      exact Table.find_put_self ..
    · rw [CheckRecord.proofs_foldl]
      exact Table.find_put_of_ne fun he => hid (he ▸ hmakes.1)
    · rw [horganizations]
      cases named with
      | true =>
        obtain ⟨o, ho, hnone⟩ := hnames.take rfl
        show (d.organizations.modify c.organizationId (·.named row.value c.checkedAt)
          (·.named_id row.value c.checkedAt)).find c.organizationId = _
        rw [Table.find_modify_self, ho, Option.map_some, Option.map_some, Organization.settle, if_pos hnone]
      | false =>
        show d.organizations.find c.organizationId = _
        cases ho : d.organizations.find c.organizationId with
        | none => rfl
        | some o => rw [Option.map_some, Organization.settle, if_neg (hnames.leave rfl o ho)]
    · rw [horganizations]
      cases named with
      | true =>
        show (d.organizations.modify c.organizationId (·.named row.value c.checkedAt)
          (·.named_id row.value c.checkedAt)).find id = _
        exact Table.find_modify_of_ne hid
      | false => rfl

/-- Only the last statement of a call says or writes anything. -/
theorem Checking.says (h : Checking c d p) (hm : go s d p = some m) :
    (m.emit = [] ∧ m.op.writes = []) ∨ (∃ r, p = .refuse r ∧ m = ⟨.rollback, .done, [.refused r]⟩) ∨
      ∃ r answer, p = .commitCheck r answer ∧ m = ⟨.commit r.writes, .done, [answer]⟩ := by
  cases go_leads hm with
  | refused _ hop => rcases hop with rfl | ⟨ks, rfl⟩ <;> exact .inl ⟨rfl, rfl⟩
  | issued => exact h.elim
  | @recorded r answer => exact .inr (.inr ⟨r, answer, rfl, rfl⟩)
  | @refuses r => exact .inr (.inl ⟨r, rfl, rfl⟩)
  | _ => exact .inl ⟨rfl, rfl⟩

end Statements

/-! ### Histories -/

section Histories
variable [DecidableEq π]

/-- The database before and after each commit of a request that writes rows. -/
def changes (i : π) (H : List (Taken π Lock Write Db Proc Answer)) : List (Db × Db) :=
  gather (fun w m => if m.op.writes.isEmpty then [] else [(w.db, m.op.effect Db.write w.db)]) i H

def answers (i : π) (H : List (Taken π Lock Write Db Proc Answer)) : List Answer := gather (fun _ m => m.emit) i H

/-- The value that a success proves for the organization, and when. -/
def Answer.success (organizationId : Uuid) : Answer → Option (String × Time)
  | .verified row => if row.organizationId = organizationId then some (row.value, row.verifiedAt) else none
  | _ => none

/-- The successes for an organization, oldest first. -/
def successes (organizationId : Uuid) (H : List (Taken π Lock Write Db Proc Answer)) : List (String × Time) :=
  H.flatMap fun t => t.move.emit.filterMap (·.success organizationId)

/-- The organization after its first success, if there is one. -/
def Organization.settledBy (o : Organization) (first : Option (String × Time)) : Organization :=
  first.elim o fun n => o.settle n.1 n.2

theorem Organization.settle_settle (o : Organization) (name name' : String) (at_ at' : Time) :
    (o.settle name at_).settle name' at' = o.settle name at_ := by
  by_cases h : o.namedAt = none <;> simp [settle, named, h]

theorem Organization.settledBy_settledBy (o : Organization) (l l' : List (String × Time)) :
    (o.settledBy l.head?).settledBy l'.head? = o.settledBy (l ++ l').head? := by
  cases l with
  | nil => rfl
  | cons n l =>
    cases l' with
    | nil => rw [List.append_nil]; rfl
    | cons n' l' => exact o.settle_settle ..

theorem Outcome.settles {c : RunCheck} {answer : Answer} {d d' : Db} (h : Outcome c answer [(d, d')]) (id : Uuid) :
    d'.organizations.find id = (d.organizations.find id).map (·.settledBy (answer.success id)) := by
  have same : d'.organizations.find id = d.organizations.find id → answer.success id = none →
      d'.organizations.find id = (d.organizations.find id).map (·.settledBy (answer.success id)) := by
    intro he hnone
    rw [he, hnone]
    exact (Option.map_id' ..).symm
  cases h with
  | claimLost h => exact same (congrArg (·.find id) h.organizations) rfl
  | superseded h => exact same (congrArg (·.find id) h.organizations) rfl
  | failed _ h => exact same (congrArg (·.find id) h.organizations) rfl
  | @verified row _ _ h =>
    obtain ⟨-, horganization, hverified⟩ := h.row_of
    by_cases hid : c.organizationId = id
    · subst hid
      rw [h.organization, Answer.success, if_pos horganization, hverified]
      rfl
    · refine same (h.otherOrganizations id (Ne.symm hid)) ?_
      rw [Answer.success, if_neg (by rwa [horganization])]

/-- A request that issues a challenge; it records no check. -/
def Proc.Issues : Proc → Prop
  | .startChallenge _ | .regenerateToken _ | .regenerateProof .. | .regenerateExisting .. | .upsertChallenge ..
  | .commitChallenge _ | .refuse _ | .done => True
  | _ => False

theorem Proc.Issues.next {d : Db} {p : Proc} {m : Step} (h : p.Issues) (hm : go s d p = some m) : m.next.Issues := by
  cases go_leads hm with
  | refused | started | chosen | unproved | reissued | upserted | issued | refuses => trivial
  | stamped hstamps => cases hstamps <;> exact h.elim
  | _ => exact h.elim

theorem settles_next {d : Db} {p : Proc} {m : Step} (h : p.Issues ∨ ∃ c, Checking c d p) (hm : go s d p = some m)
    (id : Uuid) : (m.op.effect Db.write d).organizations.find id =
      (d.organizations.find id).map (·.settledBy (m.emit.filterMap (·.success id)).head?) := by
  rcases h with h | ⟨c, h⟩
  · cases p with
    | done => cases hm
    | startChallenge | regenerateToken | regenerateProof | regenerateExisting | upsertChallenge | commitChallenge | refuse =>
      cases hm
      exact (Option.map_id' ..).symm
    | _ => exact h.elim
  · rcases h.says hm with ⟨hemit, hwrites⟩ | ⟨r, -, rfl⟩ | ⟨r, answer, rfl, rfl⟩
    · rw [hemit, Op.effect_writes, hwrites]
      exact (Option.map_id' ..).symm
    · exact (Option.map_id' ..).symm
    · have houtcome := (h.2.outcome h.1).settles id
      simpa [Op.effect] using houtcome

/-! ### Calls in a run -/

/-- What a call of `run_check` has done when it stands at a statement. -/
structure Course (c : RunCheck) (d : Db) (p : Proc) (said : List Answer) (changed : List (Db × Db)) : Prop where
  checking : Checking c d p
  once : (said = [] ∧ changed = []) ∨ (p = .done ∧ ∃ answer, said = [answer] ∧ Outcome c answer changed)

/-- The course of a process, by the request it began with. -/
def Courses (p₀ : Proc) (d : Db) (p : Proc) (said : List Answer) (changed : List (Db × Db)) : Prop :=
  match p₀ with
  | .runCheck c => Course c d p said changed
  | _ => p.Issues

variable {C : Requests π → π × Choice → Prop} {w₀ w : Requests π} {H : List (Taken π Lock Write Db Proc Answer)}
  {i j : π} {a : Choice} {m : Step}

theorem changes_self : changes i (H ++ [⟨w, i, m⟩]) =
    changes i H ++ if m.op.writes.isEmpty then [] else [(w.db, m.op.effect Db.write w.db)] := gather_self

theorem answers_self : answers i (H ++ [⟨w, i, m⟩]) = answers i H ++ m.emit := gather_self

theorem Course.next {c : RunCheck} (h : Course c w.db (w.proc i) (answers i H) (changes i H))
    (hm : (verification s).Fires w i a m) :
    Course c (m.op.effect Db.write w.db) m.next (answers i (H ++ [⟨w, i, m⟩])) (changes i (H ++ [⟨w, i, m⟩])) := by
  obtain ⟨hchecking, honce⟩ := h
  rw [answers_self, changes_self]
  rcases System.move_abortable hm.1 with hgo | rfl
  · rcases honce with ⟨hsaid, hchanged⟩ | ⟨hdone, -⟩
    · refine ⟨hchecking.next hgo, ?_⟩
      rw [hsaid, hchanged]
      rcases hchecking.says hgo with ⟨hemit, hwrites⟩ | ⟨r, hp, rfl⟩ | ⟨r, answer, hp, rfl⟩
      · exact .inl ⟨by rw [hemit]; rfl, by rw [hwrites]; rfl⟩
      · rw [hp] at hchecking
        exact .inr ⟨rfl, _, rfl, .refused hchecking⟩
      · rw [hp] at hchecking
        have hne : r.writes.isEmpty = false := by simp [CheckRecord.writes]
        refine .inr ⟨rfl, answer, rfl, ?_⟩
        simp only [Op.writes, hne]
        exact hchecking.2.outcome hchecking.1
    · rw [hdone] at hgo
      cases hgo
  · refine ⟨trivial, ?_⟩
    rw [show (⟨.rollback, .done, []⟩ : Step).op.writes.isEmpty = true from rfl, if_pos rfl, List.append_nil, List.append_nil]
    exact honce.imp_right fun h => ⟨rfl, h.2⟩

theorem courses_of_path (h₀ : Start w₀) (h : (verification s).Path C w₀ H w) (i : π) :
    Courses (w₀.proc i) w.db (w.proc i) (answers i H) (changes i H) := by
  refine h.invariant (I := fun H w => ∀ i, Courses (w₀.proc i) w.db (w.proc i) (answers i H) (changes i H))
    (fun i => ?_) (fun H w i a m hrun ih _ hm j => ?_) i
  · rcases h₀.cases i with ⟨c, hp⟩ | ⟨c, hp⟩ | ⟨c, hp⟩ | hp <;> rw [hp]
    · trivial
    · trivial
    · exact ⟨rfl, .inl ⟨rfl, rfl⟩⟩
    · trivial
  · by_cases hij : j = i
    · subst hij
      have hj := ih j
      rw [System.proc_after_self, System.db_after]
      unfold Courses at hj ⊢
      split at hj
      · exact hj.next hm
      · rcases System.move_abortable hm.1 with hgo | rfl
        · exact hj.next hgo
        · trivial
    · have hj := ih j
      rw [System.proc_after_of_ne hij]
      have hlocked : ∀ k, w.owner k = some j → k.agree w.db ((verification s).after w i m).db := fun k hk =>
        (outline_of_run h₀ hrun i).agree hm hij hk
      have hchanges : changes j (H ++ [⟨w, i, m⟩]) = changes j H := gather_of_ne (Ne.symm hij)
      have hanswers : answers j (H ++ [⟨w, i, m⟩]) = answers j H := gather_of_ne (Ne.symm hij)
      rw [hchanges, hanswers]
      unfold Courses at hj ⊢
      split at hj
      · have hA : (w.proc j).Holds (fun k => w.owner k = some j) w.db := outline_of_run h₀ hrun j
        exact ⟨hj.checking.stable hA hlocked (Op.effect_writes ..), hj.once⟩
      · exact hj

/-- An organization has its name, or the name that the first success of a check gave it. -/
theorem settled_of_path (h₀ : Start w₀) (h : (verification s).Path C w₀ H w) (id : Uuid) :
    w.db.organizations.find id = (w₀.db.organizations.find id).map (·.settledBy (successes id H).head?) := by
  have hcourses : ∀ {H w}, (verification s).Path C w₀ H w → ∀ i, (w.proc i).Issues ∨ ∃ c, Checking c w.db (w.proc i) := by
    intro H w h i
    have hi := courses_of_path h₀ h i
    unfold Courses at hi
    split at hi
    · next c _ => exact .inr ⟨c, hi.checking⟩
    · exact .inl hi
  induction h with
  | refl => exact (Option.map_id' ..).symm
  | @tail H w i a m h hC hm ih =>
    have hsuccesses : successes id (H ++ [⟨w, i, m⟩]) = successes id H ++ m.emit.filterMap (·.success id) := by
      simp [successes]
    rw [hsuccesses, System.db_after]
    rcases System.move_abortable hm.1 with hgo | rfl
    · refine (settles_next (hcourses h i) hgo id).trans ?_
      rw [ih, Option.map_map]
      exact congrArg (Option.map · _) (funext fun o => o.settledBy_settledBy ..)
    · rw [List.filterMap_nil, List.append_nil]
      exact ih

/-- Every call of `run_check` is atomic: it says nothing and has changed nothing, or it has ended with one answer
and the change of rows that goes with it. The name of an organization is settled by its first success. -/
theorem run_check_atomic (h₀ : Start w₀) (h : (verification s).Path C w₀ H w) :
    (∀ i c, w₀.proc i = .runCheck c → (answers i H = [] ∧ changes i H = []) ∨
      (w.proc i = .done ∧ ∃ answer, answers i H = [answer] ∧ Outcome c answer (changes i H))) ∧
    ∀ id, w.db.organizations.find id = (w₀.db.organizations.find id).map (·.settledBy (successes id H).head?) := by
  refine ⟨fun i c hi => ?_, settled_of_path h₀ h⟩
  have hcourse := courses_of_path h₀ h i
  rw [hi] at hcourse
  exact hcourse.once

end Histories

open Superseded in
/-- The organization of the asset has no name yet. -/
def unnamed : Requests (Fin 4) where
  db := { begin.db with organizations := Table.empty.insert ⟨100, "workspace", none⟩ }
  owner _ := none
  proc := requests
  trace := []

open Superseded in
/-- The first check proves the name and the second one the same name again; the first has named the organization. -/
theorem run_check_atomic_of_two_checks :
    ∃ (H : List (Taken (Fin 4) Lock Write Db Proc Answer)) (w : Requests (Fin 4)),
      (∃ c answer, answers 1 H = [answer] ∧ Outcome c answer (changes 1 H)) ∧ (successes 100 H).length = 2 ∧
        w.db.organizations.find 100 = (unnamed.db.organizations.find 100).map (·.settledBy (successes 100 H).head?) := by
  have hstart : Start unnamed := ⟨start.entry, fun _ => rfl, fun _ hp => by cases hp⟩
  have htrail : ((verification Settings.shipped).trail (fun _ _ => True) unnamed
      (steps 0 3 ++ steps 1 10 ++ steps 2 3 ++ steps 3 10)).any (fun s =>
        (answers 1 s.1).length = 1 && (successes 100 s.1).length = 2) = true := by
    decide +kernel
  obtain ⟨H, w, hpath, htest⟩ := Path.of_trail_any htrail
  rw [Bool.and_eq_true, decide_eq_true_eq, decide_eq_true_eq] at htest
  obtain ⟨hone, htwo⟩ := htest
  obtain ⟨hcalls, hnames⟩ := run_check_atomic hstart hpath
  refine ⟨H, w, ?_, htwo, hnames 100⟩
  rcases hcalls 1 _ rfl with ⟨hsaid, -⟩ | ⟨-, answer, hsaid, houtcome⟩
  · rw [hsaid] at hone
    cases hone
  · exact ⟨_, answer, hsaid, houtcome⟩

end TestingPlatform.Assets
