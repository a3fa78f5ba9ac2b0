import TestingPlatform.Assets.Coverage

/-!
# The verification state over a run

The state of an asset is not stored: `read_state` computes it from the proof and the challenge of the asset. `Since` says
where both rows come from: they are those of an earlier state, or requests have answered with them in between. It gives
how a state can go on (`state_advances`): a verified asset stays verified, a started verification is not forgotten, only a
check makes an asset verified, and only a new challenge makes an expired one pending again.
-/

namespace TestingPlatform.Assets

open ReadCommitted

/-! ### `read_state` -/

inductive VerificationStatus where
  | pending | verified | expired
  deriving DecidableEq, Repr

structure VerificationState where
  status : VerificationStatus
  proof : Option DomainVerification
  challenge : Option Challenge

def computeStatus (hasProof : Bool) (tokenExpiresAt : Option Time) (now : Time) : VerificationStatus :=
  if hasProof then .verified
  else match tokenExpiresAt with
    | some expiry => if now < expiry then .pending else .expired
    | none => .expired

/-- `_state`. -/
def VerificationState.of (now : Time) (proof : Option DomainVerification) (challenge : Option Challenge) : VerificationState where
  status := computeStatus proof.isSome (challenge.map Challenge.tokenExpiresAt) now
  proof
  challenge

def Caller.readState (c : Caller) (d : Db) (assetId : Uuid) (now : Time) : Except Refusal VerificationState :=
  match c.assetFor d assetId with
  | none => .error .assetNotFound
  | some _ =>
    match c.proofFor d assetId, c.challengeFor d assetId with
    | none, none => .error .verificationNotStarted
    | proof, challenge => .ok (.of now proof challenge)

section Status
variable {hasProof : Bool} {expiry : Option Time} {now : Time}

@[simp] theorem computeStatus_verified : computeStatus hasProof expiry now = .verified ↔ hasProof = true := by
  cases hasProof <;> cases expiry <;> simp [computeStatus]
  split <;> simp

theorem computeStatus_pending :
    computeStatus hasProof expiry now = .pending ↔ hasProof = false ∧ ∃ e, expiry = some e ∧ now < e := by
  cases hasProof <;> cases expiry <;> simp [computeStatus]

theorem computeStatus_expired :
    computeStatus hasProof expiry now = .expired ↔ hasProof = false ∧ ∀ e, expiry = some e → ¬ now < e := by
  cases hasProof <;> cases expiry <;> simp [computeStatus]

end Status

/-! ### Who may see a challenge -/

/-- Challenges belong to the organization of their asset. -/
def ChallengesOwned (d : Db) : Prop :=
  ∀ assetId row, d.challenges.find assetId = some row → BelongsTo d assetId row.organizationId

/-- The challenge about to be stored belongs to the organization of its asset. -/
def Proc.Issuing (d : Db) : Proc → Prop
  | .upsertChallenge _ row | .commitChallenge row => BelongsTo d row.assetId row.organizationId
  | _ => True

/-- The proof about to be stored is the one of the answer. -/
def Proc.Answering : Proc → Prop
  | .commitCheck r answer => ∀ row ∈ r.proof, answer = .verified row
  | _ => True

section Program
variable {s : Settings} {c : Caller} {d d' : Db} {p : Proc} {m : Step}

theorem Caller.challengeFor_of_owned {id : Uuid} (howned : ChallengesOwned d) (h : BelongsTo d id c.organizationId) :
    c.challengeFor d id = d.challenges.find id := by
  cases hrow : d.challenges.find id with
  | none => rw [Caller.challengeFor, hrow]; rfl
  | some row =>
    obtain ⟨asset, hasset, horganization⟩ := h
    obtain ⟨asset', hasset', ho⟩ := howned id row hrow
    have hsame : asset = asset' := Option.some.inj (hasset.symm.trans hasset')
    have hsees : c.sees row.organizationId = true := c.sees_iff.2 (by rw [← ho, ← hsame, horganization])
    rw [Caller.challengeFor, hrow, Option.filter_some, if_pos hsees]

theorem Proc.Issuing.next (hs : p.Sighted d) (h : p.Issuing d) (hm : go s d p = some m) : m.next.Issuing d := by
  cases go_leads hm with
  | started hasset => exact Caller.belongsTo_of_assetFor hasset
  | reissued => exact hs
  | upserted => exact h
  | _ => trivial

theorem Proc.Issuing.congr (h : p.Issuing d) (hd : d'.assets = d.assets) : p.Issuing d' := by
  cases p with
  | upsertChallenge | commitChallenge => exact BelongsTo.congr h hd
  | _ => trivial

theorem Proc.Answering.next (hm : go s d p = some m) : m.next.Answering := by
  cases go_leads hm with
  | stamped hstamps =>
    intro row hrow
    cases hstamps with
    | verified =>
      cases hrow
      rfl
    | _ => cases hrow
  | _ => trivial

end Program

/-- The organization that a challenge was issued for. -/
def Db.issuer (d : Db) (assetId : Uuid) : Option Uuid := (d.challenges.find assetId).map Challenge.organizationId

theorem issuer_challenge (d : Db) (row : Challenge) (assetId : Uuid) :
    (d.write (.challenge row)).issuer assetId = if row.assetId = assetId then some row.organizationId else d.issuer assetId := by
  show ((d.challenges.put row).find assetId).map Challenge.organizationId = _
  rw [Table.find_put]
  split <;> rfl

theorem issuer_write {u : Write} (d : Db) (hu : ∀ row, u ≠ .challenge row) (assetId : Uuid) :
    (d.write u).issuer assetId = d.issuer assetId := by
  cases u with
  | challenge row => exact absurd rfl (hu row)
  | stampCheck assetId' at_ code =>
    rw [Db.issuer, Db.write, Table.find_modify]
    split
    · rw [Option.map_map]; rfl
    · rfl
  | proof | nameOrganization => rfl

theorem issuer_foldl {ws : List Write} (d : Db) (hws : ∀ u ∈ ws, ∀ row, u ≠ .challenge row) (assetId : Uuid) :
    (ws.foldl Db.write d).issuer assetId = d.issuer assetId := by
  induction ws generalizing d with
  | nil => rfl
  | cons u ws ih =>
    rw [List.foldl_cons, ih _ fun v hv => hws v (List.mem_cons_of_mem _ hv)]
    exact issuer_write d (hws u List.mem_cons_self) assetId

section Runs
variable {π : Type} [DecidableEq π] {s : Settings} {C : Requests π → π × Choice → Prop} {w₀ w w' : Requests π} {i : π}
  {a : Choice} {m : Step}

theorem issuer_after (hm : (verification s).Fires w i a m) (assetId : Uuid) :
    ((verification s).after w i m).db.issuer assetId = w.db.issuer assetId ∨
      ∃ row, w.proc i = .commitChallenge row ∧ row.assetId = assetId ∧
        ((verification s).after w i m).db.issuer assetId = some row.organizationId := by
  rw [System.db_after]
  cases hop : m.op with
  | read | lock | unlock | rollback => exact .inl rfl
  | commit ws =>
    rcases System.move_abortable hm.1 with hgo | rfl
    · rcases commit_cases hgo hop with ⟨row, hp, rfl⟩ | ⟨_, _, -, rfl⟩ | ⟨r, answer, -, rfl⟩
      · by_cases hid : row.assetId = assetId
        · exact .inr ⟨row, hp, hid, (issuer_challenge w.db row assetId).trans (if_pos hid)⟩
        · exact .inl ((issuer_challenge w.db row assetId).trans (if_neg hid))
      · exact .inl rfl
      · exact .inl (issuer_foldl w.db r.not_challenge assetId)
    · cases hop

/-- What is known of all states of a run. -/
structure Tracked (w : Requests π) : Prop where
  owned : Owned w.db
  sighted : ∀ i, (w.proc i).Sighted w.db
  challenges : ChallengesOwned w.db
  issuing : ∀ i, (w.proc i).Issuing w.db
  answering : ∀ i, (w.proc i).Answering

theorem ChallengesOwned.step (h : ChallengesOwned w.db) (hissuing : (w.proc i).Issuing w.db)
    (hm : (verification s).Fires w i a m) : ChallengesOwned ((verification s).after w i m).db := by
  intro assetId row hrow
  have hissuer : ((verification s).after w i m).db.issuer assetId = some row.organizationId := by rw [Db.issuer, hrow]; rfl
  refine BelongsTo.congr ?_ assets_after
  rcases issuer_after hm assetId with he | ⟨row', hp, rfl, he⟩
  · rw [he] at hissuer
    obtain ⟨row', hrow', ho⟩ := Option.map_eq_some_iff.1 hissuer
    exact ho ▸ h assetId row' hrow'
  · rw [he] at hissuer
    rw [hp] at hissuing
    exact Option.some.inj hissuer ▸ hissuing

theorem tracked_of_run (h₀ : Start w₀) (hproofs : Owned w₀.db) (hchallenges : ChallengesOwned w₀.db)
    (h : (verification s).Run C w₀ w) : Tracked w := by
  suffices ChallengesOwned w.db ∧ ∀ i, (w.proc i).Issuing w.db ∧ (w.proc i).Answering by
    obtain ⟨howned, hsighted⟩ := owned_of_run h₀ hproofs h
    exact ⟨howned, hsighted, this.1, fun i => (this.2 i).1, fun i => (this.2 i).2⟩
  refine (h.using fun hv => owned_of_run h₀ hproofs hv).invariant
    (I := fun w => ChallengesOwned w.db ∧ ∀ i, (w.proc i).Issuing w.db ∧ (w.proc i).Answering)
    ⟨hchallenges, fun i => ?_⟩ fun w i a m ⟨hc, hp⟩ ⟨_, _, hs⟩ hm => ⟨hc.step (hp i).1 hm, fun j => ?_⟩
  · rcases h₀.cases i with ⟨c, hp⟩ | ⟨c, hp⟩ | ⟨c, hp⟩ | hp <;> (rw [hp]; exact ⟨trivial, trivial⟩)
  · by_cases hij : j = i
    · subst hij
      rw [System.proc_after_self]
      rcases System.move_abortable hm.1 with hgo | rfl
      · exact ⟨((hp j).1.next (hs j) hgo).congr assets_after, Proc.Answering.next hgo⟩
      · exact ⟨trivial, trivial⟩
    · rw [System.proc_after_of_ne hij]
      exact ⟨(hp j).1.congr assets_after, (hp j).2⟩

/-! ### Where the rows of an asset come from -/

/-- Challenge and proof of the asset are those of `d`, or the answers `said` since are with them. -/
structure Since (d : Db) (assetId : Uuid) (said : List Answer) (d' : Db) : Prop where
  challenge : d'.terms assetId = d.terms assetId ∨
    ∃ row, .issued row ∈ said ∧ row.assetId = assetId ∧ d'.terms assetId = some row.terms
  proof : d'.proofs.find assetId = d.proofs.find assetId ∨
    ∃ row, .verified row ∈ said ∧ row.assetId = assetId ∧ d'.proofs.find assetId = some row

theorem Since.step {d : Db} {assetId : Uuid} {said : List Answer} (h : Since d assetId said w.db)
    (hanswering : (w.proc i).Answering) (hm : (verification s).Fires w i a m) :
    Since d assetId (said ++ m.emit) ((verification s).after w i m).db := by
  constructor
  · rcases terms_after hm assetId with he | ⟨row, hp, rfl, hid, he⟩
    · rw [he]
      exact h.challenge.imp_right fun ⟨row, hsaid, hrow⟩ => ⟨row, List.mem_append_left _ hsaid, hrow⟩
    · have hgo : go s w.db (w.proc i) = some m := hm.1
      rw [hp] at hgo
      cases hgo
      exact .inr ⟨row, List.mem_append_right _ (List.mem_singleton_self _), hid, he⟩
  · rcases proof_after hm assetId with he | ⟨r, answer, row, hp, hproof, hid, he⟩
    · rw [he]
      exact h.proof.imp_right fun ⟨row, hsaid, hrow⟩ => ⟨row, List.mem_append_left _ hsaid, hrow⟩
    · by_cases hgo : a = .go
      · subst hgo
        have hgo : go s w.db (w.proc i) = some m := hm.1
        rw [hp] at hgo hanswering
        cases hgo
        rw [hanswering row hproof]
        exact .inr ⟨row, List.mem_append_right _ (List.mem_singleton_self _), hid, he⟩
      · -- an aborted commit writes nothing
        have hsame : ((verification s).after w i m).db = w.db := by
          cases a with
          | go => exact absurd rfl hgo
          | fail | crash =>
            cases hm.1
            rfl
        rw [hsame]
        exact h.proof.imp_right fun ⟨row, hsaid, hrow⟩ => ⟨row, List.mem_append_left _ hsaid, hrow⟩

theorem since_of_run (htracked : ∀ {v}, (verification s).Run C w v → Tracked v) (h : (verification s).Run C w w')
    (assetId : Uuid) : ∃ said, w'.trace = w.trace ++ said ∧ Since w.db assetId said w'.db := by
  refine (h.using htracked).invariant (I := fun v => ∃ said, v.trace = w.trace ++ said ∧ Since w.db assetId said v.db)
    ⟨[], by simp, .inl rfl, .inl rfl⟩ fun v i a m ⟨said, htrace, hsince⟩ ⟨_, ht⟩ hm => ?_
  exact ⟨said ++ m.emit, by rw [System.trace_after, htrace, List.append_assoc], hsince.step (ht.answering i) hm⟩

end Runs

/-! ### How a state goes on -/

theorem readState_eq_ok {c : Caller} {d : Db} {assetId : Uuid} {now : Time} {st : VerificationState} (hproofs : Owned d)
    (hchallenges : ChallengesOwned d) : c.readState d assetId now = .ok st ↔ BelongsTo d assetId c.organizationId ∧
      ((d.proofs.find assetId).isSome ∨ (d.challenges.find assetId).isSome) ∧
        st = .of now (d.proofs.find assetId) (d.challenges.find assetId) := by
  have visible : ∀ {asset}, c.assetFor d assetId = some asset ↔ d.assets.find assetId = some asset ∧
      asset.organizationId = c.organizationId := by
    intro asset
    rw [Caller.assetFor, Option.filter_eq_some_iff, c.sees_iff]
  unfold Caller.readState
  split
  next hnone =>
    refine iff_of_false (by simp) ?_
    rintro ⟨⟨asset, hasset⟩, -⟩
    rw [visible.2 hasset] at hnone
    cases hnone
  next asset hasset =>
    have hbelongs : BelongsTo d assetId c.organizationId := ⟨asset, visible.1 hasset⟩
    rw [Caller.proofFor_of_owned hproofs hbelongs, Caller.challengeFor_of_owned hchallenges hbelongs]
    cases d.proofs.find assetId <;> cases d.challenges.find assetId <;> simp [hbelongs, eq_comm]

theorem VerificationState.status_of {d : Db} {assetId : Uuid} {now : Time} :
    (VerificationState.of now (d.proofs.find assetId) (d.challenges.find assetId)).status =
      computeStatus (d.proofs.find assetId).isSome ((d.terms assetId).map Terms.tokenExpiresAt) now := by
  rw [of, Db.terms, Option.map_map]
  rfl

/-- How the state `st` goes on to `st'`, where requests have answered `said` in between. -/
structure Advances (assetId : Uuid) (now' : Time) (st st' : VerificationState) (said : List Answer) : Prop where
  /-- Coverage in force is not withdrawn. -/
  stays : st.status = .verified → st'.status = .verified
  /-- Only a check makes an asset verified. -/
  proved : st.status ≠ .verified → st'.status = .verified →
    ∃ row, .verified row ∈ said ∧ row.assetId = assetId ∧ st'.proof = some row
  /-- Only a new challenge makes an expired asset pending. -/
  renewed : st.status = .expired → st'.status = .pending →
    ∃ row, .issued row ∈ said ∧ row.assetId = assetId ∧ now' < row.tokenExpiresAt
  /-- A challenge lapses when its time is over, unless it was replaced. -/
  lapsed : st.status = .pending → st'.status = .expired →
    (∃ row, .issued row ∈ said ∧ row.assetId = assetId ∧ row.tokenExpiresAt ≤ now') ∨
      ∀ challenge ∈ st.challenge, challenge.tokenExpiresAt ≤ now'

section Advance
variable {π : Type} [DecidableEq π] {s : Settings} {C : Requests π → π × Choice → Prop} {w₀ w w' : Requests π} {c : Caller}
  {assetId : Uuid} {now now' : Time} {st : VerificationState} {said : List Answer}

theorem Since.advances {d d' : Db} (h : Since d assetId said d') (hnow : now ≤ now') :
    Advances assetId now' (.of now (d.proofs.find assetId) (d.challenges.find assetId))
      (.of now' (d'.proofs.find assetId) (d'.challenges.find assetId)) said where
  stays hverified := by
    rw [VerificationState.status_of, computeStatus_verified] at hverified ⊢
    rcases h.proof with he | ⟨row, -, -, he⟩
    · rw [he]
      exact hverified
    · rw [he]
      rfl
  proved hnot hverified := by
    rw [VerificationState.status_of, ne_eq, computeStatus_verified] at hnot
    rw [VerificationState.status_of, computeStatus_verified] at hverified
    rcases h.proof with he | ⟨row, hsaid, hid, he⟩
    · rw [he] at hverified
      exact absurd hverified hnot
    · exact ⟨row, hsaid, hid, he⟩
  renewed hexpired hpending := by
    rw [VerificationState.status_of, computeStatus_expired] at hexpired
    rw [VerificationState.status_of, computeStatus_pending] at hpending
    obtain ⟨-, e, hexpiry, hlt⟩ := hpending
    rcases h.challenge with he | ⟨row, hsaid, hid, he⟩
    · -- the expiry of the old challenge has not come later
      rw [he] at hexpiry
      exact absurd (Int.lt_of_le_of_lt hnow hlt) (hexpired.2 e hexpiry)
    · rw [he] at hexpiry
      cases hexpiry
      exact ⟨row, hsaid, hid, hlt⟩
  lapsed hpending hexpired := by
    rw [VerificationState.status_of, computeStatus_expired] at hexpired
    rcases h.challenge with he | ⟨row, hsaid, hid, he⟩
    · right
      intro challenge hchallenge
      refine Int.not_lt.1 (hexpired.2 challenge.tokenExpiresAt ?_)
      rw [he, Db.terms, show d.challenges.find assetId = some challenge from hchallenge]
      rfl
    · rw [he] at hexpired
      exact .inl ⟨row, hsaid, hid, Int.not_lt.1 (hexpired.2 _ rfl)⟩

/-- In every run, whoever is aborted: a verification that was started can be read ever after, and its state goes on as
`Advances` says. -/
theorem state_advances (h₀ : Start w₀) (hproofs : Owned w₀.db) (hchallenges : ChallengesOwned w₀.db)
    (h : (verification s).Run C w₀ w) (h' : (verification s).Run C w w') (hnow : now ≤ now')
    (hst : c.readState w.db assetId now = .ok st) :
    ∃ st' said, c.readState w'.db assetId now' = .ok st' ∧ w'.trace = w.trace ++ said ∧ Advances assetId now' st st' said := by
  have ht := tracked_of_run h₀ hproofs hchallenges h
  have ht' := tracked_of_run h₀ hproofs hchallenges (h.trans h')
  obtain ⟨said, htrace, hsince⟩ := since_of_run (fun hv => tracked_of_run h₀ hproofs hchallenges (h.trans hv)) h' assetId
  obtain ⟨hbelongs, hstarted, rfl⟩ := (readState_eq_ok ht.owned ht.challenges).1 hst
  have hassets : w'.db.assets = w.db.assets :=
    h'.invariant (I := fun v => v.db.assets = w.db.assets) rfl fun v i a m hv _ _ => assets_after.trans hv
  refine ⟨_, said, (readState_eq_ok ht'.owned ht'.challenges).2 ⟨hbelongs.congr hassets, ?_, rfl⟩, htrace, hsince.advances hnow⟩
  rcases hstarted with hproof | hchallenge
  · left
    rcases hsince.proof with he | ⟨row, -, -, he⟩
    · rwa [he]
    · rw [he]; rfl
  · right
    rw [← Option.isSome_map (f := Challenge.terms)]
    show (w'.db.terms assetId).isSome
    rcases hsince.challenge with he | ⟨row, -, -, he⟩
    · rw [he, Db.terms, Option.isSome_map]
      exact hchallenge
    · rw [he]; rfl

end Advance

namespace Superseded

def reads (w : Requests (Fin 4)) (now : Time) (status : VerificationStatus) : Bool :=
  match caller.readState w.db 1 now with
  | .ok st => decide (st.status = status)
  | .error _ => false

theorem exists_of_reads {w : Requests (Fin 4)} {now : Time} {status : VerificationStatus} (h : reads w now status = true) :
    ∃ st, caller.readState w.db 1 now = .ok st ∧ st.status = status := by
  unfold reads at h
  split at h
  next st hst => exact ⟨st, hst, of_decide_eq_true h⟩
  · cases h

end Superseded

open Superseded in
/-- The challenge of `example.lu` is pending, and a check makes it verified. -/
theorem state_advances_to_verified :
    ∃ (w w' : Requests (Fin 4)) (st st' : VerificationState), (verification Settings.shipped).Run (fun _ _ => True) begin w ∧
      (verification Settings.shipped).Run (fun _ _ => True) w w' ∧ caller.readState w.db 1 (Time.seconds 9) = .ok st ∧
      st.status = .pending ∧ caller.readState w'.db 1 (Time.seconds 20) = .ok st' ∧ st'.status = .verified ∧
      ∃ row, Answer.verified row ∈ w'.trace ∧ row.assetId = 1 := by
  have run : ((verification Settings.shipped).exec (fun _ _ => True) begin (steps 0 3)).any (fun w =>
      reads w (Time.seconds 9) .pending &&
      ((verification Settings.shipped).exec (fun _ _ => True) w (steps 1 6 ++ steps 2 3 ++ steps 3 10)).any fun w' =>
        reads w' (Time.seconds 20) .verified) = true := by
    decide +kernel
  obtain ⟨w, hw, hp⟩ := System.Run.of_exec_any run
  rw [Bool.and_eq_true] at hp
  obtain ⟨w', hw', hp'⟩ := System.Run.of_exec_any hp.2
  obtain ⟨st, hst, hpending⟩ := exists_of_reads hp.1
  obtain ⟨st₂, hst₂, hverified⟩ := exists_of_reads hp'
  obtain ⟨st', said, hst', htrace, hadvances⟩ := state_advances start
    (fun _ _ hrow => by cases hrow) (fun _ _ hrow => by cases hrow) hw hw' (show Time.seconds 9 ≤ Time.seconds 20 by decide) hst
  have hsame : st₂ = st' := Except.ok.inj (hst₂.symm.trans hst')
  subst hsame
  obtain ⟨row, hsaid, hid, -⟩ := hadvances.proved (by simp [hpending]) hverified
  exact ⟨w, w', st, st₂, hw, hw', hst, hpending, hst', hverified, row, htrace ▸ List.mem_append_right _ hsaid, hid⟩

end TestingPlatform.Assets
