import TestingPlatform.Assets.Claims
import TestingPlatform.Assets.Stale

/-!
# What a proof rests on

A check keeps scope, token and record name of the one row it read before the lookup, and goes on only if
its token still stands after it. With fresh tokens a token determines its challenge (`Fresh.same_terms`),
so both reads are about one challenge, and every field of a proof comes from the attempt on it (`Backed`).
`Proc.Evidence` carries the argument: what a check has in its locals it owes to two earlier states of the
run.
-/

namespace TestingPlatform.Assets

open ReadCommitted

variable {π : Type} [DecidableEq π] {s : Settings} {C : Requests π → π × Choice → Prop}

/-! ### Fresh tokens -/

/-- The token a request will still store. -/
def Proc.issues : Proc → Option String
  | .startChallenge c => some c.token
  | .regenerateToken c | .regenerateProof c _ | .regenerateExisting c _ => some c.token
  | .upsertChallenge _ row | .commitChallenge row => some row.verificationToken
  | _ => none

/-- Requests draw different tokens, and none that is stored. -/
structure Fresh (w : Requests π) : Prop where
  apart : ∀ i j t, i ≠ j → (w.proc i).issues = some t → (w.proc j).issues ≠ some t
  unused : ∀ i t, (w.proc i).issues = some t → ∀ assetId, ∀ x ∈ w.db.terms assetId, x.verificationToken ≠ t

omit [DecidableEq π] in
theorem issues_next {d : Db} {p : Proc} {m : Step} (h : go s d p = some m) {t : String} (ht : m.next.issues = some t) :
    p.issues = some t ∧ ∀ row, p ≠ .commitChallenge row := by
  cases go_leads h with
  | started | chosen | unproved | reissued | upserted => exact ⟨ht, by simp⟩
  | _ => cases ht

theorem Fresh.step {w : Requests π} {i : π} {c : Choice} {m : Step} (hf : Fresh w) (hm : (verification s).Fires w i c m) :
    Fresh ((verification s).after w i m) := by
  have before : ∀ {j t}, (((verification s).after w i m).proc j).issues = some t → (w.proc j).issues = some t ∧
      (j = i → ∀ row, w.proc i ≠ .commitChallenge row) := by
    intro j t ht
    by_cases hij : j = i
    · subst hij
      rw [System.proc_after_self] at ht
      rcases System.move_abortable hm.1 with hgo | rfl
      · obtain ⟨hp, hnot⟩ := issues_next hgo ht
        exact ⟨hp, fun _ => hnot⟩
      · cases ht
    · rw [System.proc_after_of_ne hij] at ht
      exact ⟨ht, fun he => absurd he hij⟩
  constructor
  · intro j j' t hne ht ht'
    exact hf.apart j j' t hne (before ht).1 (before ht').1
  · intro j t ht assetId x hx
    obtain ⟨htj, hnot⟩ := before ht
    rcases terms_after hm assetId with he | ⟨row, hp, -, -, he⟩
    · rw [he] at hx
      exact hf.unused j t htj assetId x hx
    · rw [he] at hx
      cases hx
      -- the new challenge was issued by `i`, and `j` is another request
      have hij : i ≠ j := fun he => hnot he.symm row hp
      have hti : (w.proc i).issues = some row.verificationToken := by rw [hp]; rfl
      exact fun he => hf.apart i j t hij (hti.trans (congrArg some he)) htj

theorem Fresh.of_run {w₀ w : Requests π} (hf : Fresh w₀) (h : (verification s).Run C w₀ w) : Fresh w :=
  h.invariant (I := Fresh) hf fun _ _ _ _ hf _ hm => hf.step hm

/-- While tokens are fresh, a token is that of one challenge. -/
theorem Fresh.same_terms {w w' : Requests π} (hf : Fresh w) (h : (verification s).Run C w w') {assetId : Uuid} {t t' : Terms}
    (ht : w.db.terms assetId = some t) (ht' : w'.db.terms assetId = some t')
    (htoken : t'.verificationToken = t.verificationToken) : t' = t := by
  have hinv : ∀ x ∈ w'.db.terms assetId, x.verificationToken = t.verificationToken → x = t := by
    have hnobody : ∀ i, (w.proc i).issues ≠ some t.verificationToken := fun i hi => hf.unused i _ hi assetId t ht rfl
    refine (h.invariant (I := fun v => (∀ i, (v.proc i).issues ≠ some t.verificationToken) ∧
      ∀ x ∈ v.db.terms assetId, x.verificationToken = t.verificationToken → x = t) ⟨hnobody, fun x hx _ => ?_⟩
      fun v i c m ⟨hno, hx⟩ _ hm => ⟨fun j hj => ?_, fun x hx' htok => ?_⟩).2
    · rw [ht] at hx
      exact (Option.some.inj hx).symm
    · by_cases hij : j = i
      · subst hij
        rw [System.proc_after_self] at hj
        rcases System.move_abortable hm.1 with hgo | rfl
        · exact hno j (issues_next hgo hj).1
        · cases hj
      · rw [System.proc_after_of_ne hij] at hj
        exact hno j hj
    · rcases terms_after hm assetId with he | ⟨row, hp, -, -, he⟩
      · rw [he] at hx'
        exact hx x hx' htok
      · rw [he] at hx'
        cases hx'
        refine absurd ?_ (hno i)
        rw [hp, ← htok]
        rfl
  exact hinv t' ht' htoken

/-! ### Evidence -/

section Evidence
variable (s : Settings) (C : Requests π → π × Choice → Prop) (w₀ : Requests π)

/-- In the state `v` the check `c` of `i` reads the challenge of its asset, and it is pending. -/
structure FirstRead (v : Requests π) (i : π) (c : RunCheck) (asset : Asset) (challenge : Challenge) : Prop where
  run : (verification s).Run C w₀ v
  reads : v.proc i = .checkChallenge c asset
  asset_row : w₀.db.assets.find asset.id = some asset
  stored : v.db.challenges.find asset.id = some challenge
  pending : c.readAt < challenge.tokenExpiresAt

/-- In the later state `v'`, after the lookup, the same challenge stands and is still pending. -/
structure SecondRead (v v' : Requests π) (i : π) (c : RunCheck) (asset : Asset) (challenge : Challenge)
    (outcomes : List ResolverOutcome) : Prop where
  run : (verification s).Run C v v'
  reads : v'.proc i = .credentials c (.of asset challenge) outcomes
  stands : v'.db.terms asset.id = some challenge.terms
  pending : c.checkedAt < challenge.tokenExpiresAt
  resolved : c.resolveTxt challenge.recordName = some outcomes

def Reading (w : Requests π) (i : π) (c : RunCheck) (a : Attempt) : Prop :=
  ∃ v asset challenge, FirstRead s C w₀ v i c asset challenge ∧ (verification s).Run C v w ∧ a = .of asset challenge

def Checked (w : Requests π) (i : π) (c : RunCheck) (a : Attempt) (outcomes : List ResolverOutcome) : Prop :=
  ∃ v v' asset challenge, FirstRead s C w₀ v i c asset challenge ∧ SecondRead s C v v' i c asset challenge outcomes ∧
    (verification s).Run C v' w ∧ a = .of asset challenge

/-- The verdict verifies the answers to a checked attempt. -/
def Decided (w : Requests π) (i : π) (c : RunCheck) (a : Attempt) (v : CheckVerdict) : Prop :=
  ∃ outcomes, Checked s C w₀ w i c a outcomes ∧
    v = evaluate outcomes a.token a.requestedScope s.verificationResolverQuorum ∧ v.verified = true

def Earned (w : Requests π) (i : π) (row : DomainVerification) : Prop :=
  ∃ c a v, Decided s C w₀ w i c a v ∧ row = prove c a v

/-- Where a check has its locals from. -/
def Proc.Evidence (w : Requests π) (i : π) : Proc → Prop
  | .checkChallenge _ asset => w₀.db.assets.find asset.id = some asset
  | .endRead c a | .resolve c a => Reading s C w₀ w i c a
  | .credentials c a outcomes => Reading s C w₀ w i c a ∧ c.resolveTxt a.recordName = some outcomes
  | .reread c a outcomes currentToken => currentToken = a.token → Checked s C w₀ w i c a outcomes
  | .upsertProof c a v => Decided s C w₀ w i c a v
  | .nameOrganization _ _ row | .stampVerified _ _ row _ => Earned s C w₀ w i row
  | .commitCheck r _ => ∀ row ∈ r.proof, Earned s C w₀ w i row
  | _ => True

end Evidence

section Steps
variable {w₀ w w' : Requests π} {i : π} {c : Choice} {m : Step}

theorem Earned.mono {row : DomainVerification} (h : Earned s C w₀ w i row) (hr : (verification s).Run C w w') :
    Earned s C w₀ w' i row := by
  obtain ⟨c, a, v, ⟨outcomes, ⟨v₁, v₂, asset, challenge, h₁, h₂, hw, ha⟩, hv⟩, hrow⟩ := h
  exact ⟨c, a, v, ⟨outcomes, ⟨v₁, v₂, asset, challenge, h₁, h₂, hw.trans hr, ha⟩, hv⟩, hrow⟩

theorem Proc.Evidence.mono {p : Proc} (h : p.Evidence s C w₀ w i) (hr : (verification s).Run C w w') :
    p.Evidence s C w₀ w' i := by
  have reading : ∀ {c a}, Reading s C w₀ w i c a → Reading s C w₀ w' i c a := fun ⟨v, asset, challenge, h₁, hw, ha⟩ =>
    ⟨v, asset, challenge, h₁, hw.trans hr, ha⟩
  have checked : ∀ {c a outcomes}, Checked s C w₀ w i c a outcomes → Checked s C w₀ w' i c a outcomes :=
    fun ⟨v, v', asset, challenge, h₁, h₂, hw, ha⟩ => ⟨v, v', asset, challenge, h₁, h₂, hw.trans hr, ha⟩
  cases p with
  | checkChallenge => exact h
  | endRead | resolve => exact reading h
  | credentials => exact ⟨reading h.1, h.2⟩
  | reread => exact fun he => checked (h he)
  | upsertProof =>
    obtain ⟨outcomes, hc, hv⟩ := h
    exact ⟨outcomes, checked hc, hv⟩
  | nameOrganization | stampVerified => exact Earned.mono h hr
  | commitCheck => exact fun row hrow => (h row hrow).mono hr
  | _ => trivial

theorem Proc.Evidence.next (hfresh : Fresh w₀) (hrun : (verification s).Run C w₀ w) (hassets : w.db.assets = w₀.db.assets)
    (h : (w.proc i).Evidence s C w₀ w i) (hm : go s w.db (w.proc i) = some m) : m.next.Evidence s C w₀ w i := by
  generalize hp : w.proc i = p at h hm
  cases go_leads hm with
  | @found c asset hasset =>
    obtain ⟨hfind, -⟩ := Option.filter_eq_some_iff.1 hasset
    show w₀.db.assets.find asset.id = some asset
    rw [← hassets, Table.key_of_find hfind]
    exact hfind
  | @pending c asset challenge hchallenge hpending =>
    obtain ⟨hfind, -⟩ := Option.filter_eq_some_iff.1 hchallenge
    exact ⟨w, asset, challenge, ⟨hrun, hp, h, hfind, hpending⟩, .refl, rfl⟩
  | ended => exact h
  | resolved houtcomes => exact ⟨h, houtcomes⟩
  | @refreshed _ _ _ fresh hstored hpending =>
    obtain ⟨⟨v, asset, challenge, h₁, hw, rfl⟩, hresolved⟩ := h
    obtain ⟨hfind, -⟩ := Option.filter_eq_some_iff.1 hstored
    intro htoken
    have hthen : v.db.terms asset.id = some challenge.terms := by rw [Db.terms, h₁.stored]; rfl
    have hnow : w.db.terms asset.id = some fresh.terms := by
      rw [Db.terms]
      exact congrArg (Option.map Challenge.terms) hfind
    have hsame : fresh.terms = challenge.terms := (hfresh.of_run h₁.run).same_terms hw hthen hnow htoken
    have hexpiry : fresh.tokenExpiresAt = challenge.tokenExpiresAt := congrArg Terms.tokenExpiresAt hsame
    exact ⟨v, w, asset, challenge, h₁, ⟨hw, hp, hsame ▸ hnow, hexpiry ▸ hpending, hresolved⟩, .refl, rfl⟩
  | @verified c a outcomes v hv hverified => exact ⟨outcomes, h rfl, hv, hverified⟩
  | @proved c a v => exact ⟨c, a, v, h, rfl⟩
  | names | named => exact h
  | stamped hstamps =>
    intro row hrow
    cases hstamps with
    | verified =>
      cases hrow
      exact h
    | _ => cases hrow
  | _ => trivial

end Steps

/-! ### Soundness -/

/-- The proof rows that are not from before the run were earned. -/
def AllEarned (s : Settings) (C : Requests π → π × Choice → Prop) (w₀ w : Requests π) : Prop :=
  ∀ assetId row, w.db.proofs.find assetId = some row → w₀.db.proofs.find assetId = some row ∨ ∃ i, Earned s C w₀ w i row

/-- What the run has established so far. -/
structure Grounded (s : Settings) (C : Requests π → π × Choice → Prop) (w₀ w : Requests π) : Prop where
  run : (verification s).Run C w₀ w
  assets : w.db.assets = w₀.db.assets
  evidence : ∀ i, (w.proc i).Evidence s C w₀ w i
  rows : AllEarned s C w₀ w

section Runs
variable {w₀ w : Requests π}

theorem Grounded.step (hfresh : Fresh w₀) (hg : Grounded s C w₀ w) {i : π} {c : Choice} {m : Step}
    (hat : (outline s).At w i) (hC : C w (i, c)) (hm : (verification s).Fires w i c m) :
    Grounded s C w₀ ((verification s).after w i m) := by
  have hone : (verification s).Run C w ((verification s).after w i m) :=
    System.Run.step .refl hC (System.step_eq_some.2 ⟨m, hm, rfl⟩)
  have hassets : ((verification s).after w i m).db.assets = w.db.assets := Outline.guar_of_fires hat hm
  refine ⟨hg.run.trans hone, hassets.trans hg.assets, fun j => ?_, fun assetId row hrow => ?_⟩
  · by_cases hij : j = i
    · subst hij
      rw [System.proc_after_self]
      rcases System.move_abortable hm.1 with hgo | rfl
      · exact ((hg.evidence j).next hfresh hg.run hg.assets hgo).mono hone
      · trivial
    · rw [System.proc_after_of_ne hij]
      exact (hg.evidence j).mono hone
  · rcases proof_after hm assetId with he | ⟨r, answer, row', hp, hproof, hid, he⟩
    · rw [he] at hrow
      rcases hg.rows assetId row hrow with h₀ | ⟨j, hj⟩
      · exact .inl h₀
      · exact .inr ⟨j, hj.mono hone⟩
    · rw [he] at hrow
      cases hrow
      have hev := hg.evidence i
      rw [hp] at hev
      exact .inr ⟨i, (hev _ hproof).mono hone⟩

theorem grounded_of_run (h₀ : Start w₀) (hfresh : Fresh w₀) (h : (verification s).Run C w₀ w) : Grounded s C w₀ w := by
  have hbegin : Grounded s C w₀ w₀ := by
    refine ⟨.refl, rfl, fun i => ?_, fun assetId row hrow => .inl hrow⟩
    rcases h₀.cases i with ⟨c, hp⟩ | ⟨c, hp⟩ | ⟨c, hp⟩ | hp <;> (rw [hp]; trivial)
  exact (h.using fun hv => outline_of_run h₀ hv).invariant (I := Grounded s C w₀) hbegin
    fun v i c m hg ⟨hC, hat⟩ hm => hg.step hfresh (hat i) hC hm

/-- The proof was earned by the check `c` of the asset, on the challenge it read before and after the lookup. -/
structure Backed (s : Settings) (C : Requests π → π × Choice → Prop) (w₀ w : Requests π) (row : DomainVerification)
    (i : π) (c : RunCheck) (asset : Asset) (challenge : Challenge) (outcomes : List ResolverOutcome) : Prop where
  reads : ∃ v v', FirstRead s C w₀ v i c asset challenge ∧ SecondRead s C v v' i c asset challenge outcomes ∧
    (verification s).Run C v' w
  assetId : row.assetId = asset.id
  value : row.value = asset.value
  scope : row.verifiedScope = challenge.requestedScope
  verdict : (evaluate outcomes challenge.verificationToken challenge.requestedScope s.verificationResolverQuorum).verified
  proven : Proven outcomes challenge.verificationToken challenge.requestedScope s.verificationResolverQuorum
    (evaluate outcomes challenge.verificationToken challenge.requestedScope s.verificationResolverQuorum)
  dnssecValidated : row.dnssecValidated =
    (evaluate outcomes challenge.verificationToken challenge.requestedScope s.verificationResolverQuorum).dnssecValidated
  resolvers : row.resolvers =
    (evaluate outcomes challenge.verificationToken challenge.requestedScope s.verificationResolverQuorum).resolvers
  corroboratingAnswers : row.corroboratingAnswers =
    (evaluate outcomes challenge.verificationToken challenge.requestedScope s.verificationResolverQuorum).corroboratingAnswers

theorem Earned.backed {i : π} {row : DomainVerification} (h : Earned s C w₀ w i row) :
    ∃ c asset challenge outcomes, Backed s C w₀ w row i c asset challenge outcomes := by
  obtain ⟨c, a, verdict, ⟨outcomes, ⟨v, v', asset, challenge, h₁, h₂, hw, rfl⟩, rfl, hverified⟩, rfl⟩ := h
  have hproven := evaluate_verified hverified
  exact ⟨c, asset, challenge, outcomes, ⟨v, v', h₁, h₂, hw⟩, rfl, rfl, rfl, hverified, hproven, rfl, rfl, rfl⟩

end Runs

/-- Every proof that a run writes is backed, and at every moment a domain value has one proof. -/
theorem proof_sound {w₀ w : Requests π} (h₀ : Start w₀) (hfresh : Fresh w₀) (h : (verification s).Run C w₀ w) :
    (∀ row ∈ w.db.proofs.rows, row ∈ w₀.db.proofs.rows ∨
      ∃ i c asset challenge outcomes, Backed s C w₀ w row i c asset challenge outcomes) ∧
    ∀ row ∈ w.db.proofs.rows, ∀ row' ∈ w.db.proofs.rows, row.value = row'.value → row = row' := by
  constructor
  · intro row hrow
    have hfind := Table.find_of_mem hrow
    rcases (grounded_of_run h₀ hfresh h).rows _ row hfind with hbefore | ⟨i, hearned⟩
    · exact .inl (Table.mem_of_find hbefore)
    · exact .inr ⟨i, hearned.backed⟩
  · intro row hrow row' hrow' hvalue
    refine w.db.proofs.eq_of_key_eq hrow hrow' ?_
    exact claimed_once_of_run h₀ h _ _ row row' (Table.find_of_mem hrow) (Table.find_of_mem hrow') hvalue

theorem Superseded.fresh : Fresh Superseded.begin where
  apart := by
    have hall : ∀ i j : Fin 4, i ≠ j → (requests i).issues.all (fun t => decide ((requests j).issues ≠ some t)) = true := by decide
    intro i j t hij ht ht'
    have hne := hall i j hij
    rw [show (requests i).issues = some t from ht, show (requests j).issues = some t from ht'] at hne
    simp at hne
  unused _ _ _ _ _ hx := by cases hx

open Superseded in
/-- The proof of the first check is overwritten by that of the second, and each is backed. -/
theorem proof_sound_of_two_checks : ∃ (w : Requests (Fin 4)) (p : DomainVerification), p.verifiedScope = .zone ∧
    ∃ i c asset challenge outcomes, Backed Settings.shipped (fun _ _ => True) begin w p i c asset challenge outcomes := by
  have run : ((verification Settings.shipped).exec (fun _ _ => True) begin (steps 0 3 ++ steps 1 10 ++ steps 2 3 ++ steps 3 10)).any
      (fun w => scopeIs w .zone) = true := by
    decide +kernel
  obtain ⟨w, hw, hp⟩ := System.Run.of_exec_any run
  obtain ⟨p, hfind, hscope⟩ := (Option.any_eq_true ..).1 hp
  rcases (proof_sound start Superseded.fresh hw).1 p (Table.mem_of_find hfind) with hbefore | hbacked
  · cases hbefore
  · exact ⟨w, p, by simpa using hscope, hbacked⟩

end TestingPlatform.Assets
