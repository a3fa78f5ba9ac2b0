import TestingPlatform.Assets.Atomic

/-!
# Regenerating a token

`regenerate_token` carries the scope of the standing challenge over and is refused while the asset has a proof.
It reads both without a lock and then overwrites whatever challenge stands when its upsert runs, so a request
that commits in between is undone in its scope (`regenerate_changes_coverage`) or has its fresh proof ignored.
`Unraced` is the condition on the steps of a run under which neither happens. From the upsert on the lock on the
challenge protects both reads: a check that writes a proof also stamps the challenge.
-/

namespace TestingPlatform.Assets

open ReadCommitted System

variable {π : Type} {s : Settings}

/-! ### The organization of a proof -/

def BelongsTo (d : Db) (assetId organizationId : Uuid) : Prop :=
  ∃ asset, d.assets.find assetId = some asset ∧ asset.organizationId = organizationId

/-- Proofs belong to the organization of their asset. -/
def Owned (d : Db) : Prop := ∀ assetId row, d.proofs.find assetId = some row → BelongsTo d assetId row.organizationId

/-- A request that goes on has seen its asset. -/
def Proc.Sighted (d : Db) : Proc → Prop
  | .regenerateProof c asset | .regenerateExisting c asset => BelongsTo d asset.id c.organizationId
  | .checkChallenge c asset => BelongsTo d asset.id c.organizationId
  | .endRead c a | .resolve c a | .credentials c a _ | .reread c a _ _ | .upsertProof c a _ =>
    BelongsTo d a.assetId c.organizationId
  | .nameOrganization _ _ row | .stampVerified _ _ row _ => BelongsTo d row.assetId row.organizationId
  | .commitCheck r _ => ∀ row ∈ r.proof, BelongsTo d row.assetId row.organizationId
  | _ => True

section Sighted
variable {c : Caller} {d : Db} {p : Proc} {m : Step}

theorem Caller.belongsTo_of_assetFor {id : Uuid} {asset : Asset} (h : c.assetFor d id = some asset) :
    BelongsTo d asset.id c.organizationId := by
  obtain ⟨hfind, hsees⟩ := Option.filter_eq_some_iff.1 h
  refine ⟨asset, ?_, c.sees_iff.1 hsees⟩
  rw [Table.key_of_find hfind]
  exact hfind

theorem Caller.proofFor_of_owned {id : Uuid} (howned : Owned d) (h : BelongsTo d id c.organizationId) :
    c.proofFor d id = d.proofs.find id := by
  cases hp : d.proofs.find id with
  | none => rw [Caller.proofFor, hp]; rfl
  | some row =>
    obtain ⟨asset, hasset, horganization⟩ := h
    obtain ⟨asset', hasset', hrow⟩ := howned id row hp
    have hsame : asset = asset' := Option.some.inj (hasset.symm.trans hasset')
    have hsees : c.sees row.organizationId = true := c.sees_iff.2 (by rw [← hrow, ← hsame, horganization])
    rw [Caller.proofFor, hp, Option.filter_some, if_pos hsees]

theorem Proc.Sighted.next (h : p.Sighted d) (hm : go s d p = some m) : m.next.Sighted d := by
  cases go_leads hm with
  | chosen hasset | found hasset => exact Caller.belongsTo_of_assetFor hasset
  | stamped hstamps =>
    intro row hrow
    cases hstamps with
    | verified =>
      cases hrow
      exact h
    | _ => cases hrow
  | _ => first | exact h | trivial

end Sighted

section Stable
variable {d d' : Db}

theorem BelongsTo.congr {assetId organizationId : Uuid} (h : BelongsTo d assetId organizationId)
    (hd : d'.assets = d.assets) : BelongsTo d' assetId organizationId := by
  rw [BelongsTo, hd]
  exact h

theorem Proc.Sighted.congr {p : Proc} (h : p.Sighted d) (hd : d'.assets = d.assets) : p.Sighted d' := by
  cases p with
  | commitCheck => exact fun row hrow => BelongsTo.congr (h row hrow) hd
  | regenerateProof | regenerateExisting | checkChallenge | endRead | resolve | credentials | reread | upsertProof
  | nameOrganization | stampVerified => exact BelongsTo.congr h hd
  | _ => trivial

end Stable

section Runs
variable [DecidableEq π] {C : Requests π → π × Choice → Prop} {w₀ w : Requests π} {i j : π} {a : Choice} {m : Step}

theorem assets_after : ((verification s).after w i m).db.assets = w.db.assets := by
  rw [System.db_after, Op.effect_writes]
  exact assets_foldl w.db _

theorem Owned.step (h : Owned w.db) (hsighted : (w.proc i).Sighted w.db) (hm : (verification s).Fires w i a m) :
    Owned ((verification s).after w i m).db := by
  intro assetId row hrow
  rcases proof_after hm assetId with he | ⟨r, answer, row', hp, hproof, hid, he⟩
  · rw [he] at hrow
    exact (h assetId row hrow).congr assets_after
  · rw [he] at hrow
    cases hrow
    rw [hp] at hsighted
    rw [← hid]
    exact (hsighted row hproof).congr assets_after

theorem owned_of_run (h₀ : Start w₀) (howned : Owned w₀.db) (h : (verification s).Run C w₀ w) :
    Owned w.db ∧ ∀ i, (w.proc i).Sighted w.db := by
  refine h.invariant (I := fun w => Owned w.db ∧ ∀ i, (w.proc i).Sighted w.db) ⟨howned, fun i => ?_⟩
    fun w i a m ⟨ho, hs⟩ _ hm => ⟨ho.step (hs i) hm, fun j => ?_⟩
  · rcases h₀.cases i with ⟨c, hp⟩ | ⟨c, hp⟩ | ⟨c, hp⟩ | hp <;> (rw [hp]; trivial)
  · by_cases hij : j = i
    · subst hij
      rw [System.proc_after_self]
      rcases System.move_abortable hm.1 with hgo | rfl
      · exact ((hs j).next hgo).congr assets_after
      · trivial
    · rw [System.proc_after_of_ne hij]
      exact (hs j).congr assets_after

end Runs

/-! ### What a regeneration relies on -/

/-- The coverage that the standing challenge asks for. -/
def Db.scope (d : Db) (assetId : Uuid) : Option VerificationScope := (d.terms assetId).map Terms.requestedScope

/-- Where the regeneration `c` stands, and what it relies on. -/
def Regenerating (c : RegenerateToken) (d : Db) : Proc → Prop
  | .regenerateToken c' => c' = c
  | .regenerateProof c' asset => c' = c ∧ asset.id = c.assetId
  | .regenerateExisting c' asset => c' = c ∧ asset.id = c.assetId ∧ d.proofs.find c.assetId = none
  | .upsertChallenge _ row | .commitChallenge row =>
    row.assetId = c.assetId ∧ d.proofs.find c.assetId = none ∧ d.scope c.assetId = some row.requestedScope
  | .refuse _ | .done => True
  | _ => False

theorem Regenerating.next {c : RegenerateToken} {d : Db} {p : Proc} {m : Step} (h : Regenerating c d p) (howned : Owned d)
    (hsighted : p.Sighted d) (hm : go s d p = some m) : Regenerating c (m.op.effect Db.write d) m.next := by
  cases go_leads hm with
  | chosen hasset =>
    cases h
    obtain ⟨hfind, -⟩ := Option.filter_eq_some_iff.1 hasset
    exact ⟨rfl, Table.key_of_find hfind⟩
  | unproved hproof =>
    obtain ⟨rfl, hid⟩ := h
    rw [Caller.proofFor_of_owned howned hsighted, hid] at hproof
    exact ⟨rfl, hid, hproof⟩
  | @reissued c' asset existing hexisting =>
    obtain ⟨rfl, hid, hproof⟩ := h
    obtain ⟨hfind, -⟩ := Option.filter_eq_some_iff.1 hexisting
    have hscope : d.scope c'.assetId = some existing.requestedScope := by
      rw [← hid, Db.scope, Db.terms, hfind]
      rfl
    exact ⟨hid, hproof, hscope⟩
  | upserted => exact h
  | refused | issued | refuses => trivial
  | stamped hstamps => cases hstamps <;> exact h.elim
  | _ => exact h.elim

/-! ### Races -/

/-- The scope that a request carries to its upsert. -/
def Proc.carries : Proc → Option (Uuid × VerificationScope)
  | .upsertChallenge _ row => some (row.assetId, row.requestedScope)
  | _ => none

/-- The asset that a request has found without a proof and not locked yet. -/
def Proc.unproved : Proc → Option Uuid
  | .regenerateExisting _ asset => some asset.id
  | .upsertChallenge _ row => some row.assetId
  | _ => none

def Proc.proving : Proc → Option DomainVerification
  | .commitCheck r _ => r.proof
  | _ => none

def Proc.regenerates : Proc → Bool
  | .regenerateToken _ => true
  | _ => false

/-- No challenge of another scope, and no proof, is committed under a regeneration that relies on what it read
of the asset. -/
def Unraced (w₀ w : Requests π) (a : π × Choice) : Prop :=
  a.2 = .go → ∀ j, (w₀.proc j).regenerates = true →
    (∀ row ∈ (w.proc a.1).replacing, ∀ x ∈ (w.proc j).carries, x.1 = row.assetId → x.2 = row.requestedScope) ∧
      ∀ row ∈ (w.proc a.1).proving, (w.proc j).unproved ≠ some row.assetId

instance {n : Nat} (w₀ w : Requests (Fin n)) (a : Fin n × Choice) : Decidable (Unraced w₀ w a) :=
  inferInstanceAs (Decidable (a.2 = .go → ∀ j, (w₀.proc j).regenerates = true →
    (∀ row ∈ (w.proc a.1).replacing, ∀ x ∈ (w.proc j).carries, x.1 = row.assetId → x.2 = row.requestedScope) ∧
      ∀ row ∈ (w.proc a.1).proving, (w.proc j).unproved ≠ some row.assetId))

section Runs
variable [DecidableEq π] {C : Requests π → π × Choice → Prop} {w₀ w : Requests π} {i j : π} {a : Choice} {m : Step}

/-- A check that writes a proof has locked the challenge of its asset. -/
theorem locks_challenge_of_proof (h₀ : Start w₀) (h : (verification s).Run C w₀ w) {r : CheckRecord} {answer : Answer}
    {row : DomainVerification} (hp : w.proc i = .commitCheck r answer) (hrow : r.proof = some row) :
    w.owner (.challenge row.assetId) = some i := by
  have hA : (w.proc i).Holds (fun k => w.owner k = some i) w.db := outline_of_run h₀ h i
  obtain ⟨H, hH⟩ := h.path
  have hcourse := courses_of_path h₀ hH i
  rw [hp] at hA hcourse
  unfold Courses at hcourse
  split at hcourse
  · next c _ =>
    obtain ⟨-, hagrees⟩ := hcourse.checking
    have hid : row.assetId = r.assetId := by
      cases answer with
      | verified row' =>
        obtain ⟨hmakes, named, -, rfl⟩ := hagrees
        cases hrow
        exact hmakes.1
      | refused refusal =>
        cases refusal with
        | domainClaimLost =>
          obtain rfl : r = _ := hagrees
          cases hrow
        | _ => exact hagrees.elim
      | superseded =>
        obtain rfl : r = _ := hagrees
        cases hrow
      | failed =>
        obtain ⟨rfl, -⟩ := hagrees
        cases hrow
      | issued => exact hagrees.elim
    rw [hid]
    exact hA.1
  · exact hcourse.elim

section Others
variable (h₀ : Start w₀) (hrun : (verification s).Run C w₀ w) (hij : j ≠ i) (hreg : (w₀.proc j).regenerates = true)
  (hu : Unraced w₀ w (i, a)) (hm : (verification s).Fires w i a m) {assetId : Uuid}

include h₀ hrun hij hreg hu hm

theorem unproved_after (hproof : w.db.proofs.find assetId = none)
    (hprotected : (w.proc j).unproved = some assetId ∨ w.owner (.challenge assetId) = some j) :
    ((verification s).after w i m).db.proofs.find assetId = none := by
  cases a with
  | fail | crash =>
    cases hm.1
    exact hproof
  | go =>
    rcases proof_after hm assetId with he | ⟨r, answer, row, hp, hrow, hid, -⟩
    · rw [he]
      exact hproof
    · rcases hprotected with hunproved | hlock
      · have hproving : row ∈ (w.proc i).proving := by rw [hp]; exact hrow
        exact absurd (hid ▸ hunproved) ((hu rfl j hreg).2 row hproving)
      · have hlock' := locks_challenge_of_proof h₀ hrun hp hrow
        rw [hid, hlock] at hlock'
        exact absurd (Option.some.inj hlock') hij

theorem scope_after {scope : VerificationScope} (hscope : w.db.scope assetId = some scope)
    (hprotected : (w.proc j).carries = some (assetId, scope) ∨ w.owner (.challenge assetId) = some j) :
    ((verification s).after w i m).db.scope assetId = some scope := by
  rcases terms_after hm assetId with he | ⟨row, hp, rfl, hid, he⟩
  · rw [Db.scope, he]
    exact hscope
  · rcases hprotected with hcarries | hlock
    · have hreplacing : row ∈ (w.proc i).replacing := by rw [hp]; rfl
      have hsame : scope = row.requestedScope := (hu rfl j hreg).1 row hreplacing _ hcarries hid.symm
      rw [Db.scope, he, hsame]
      rfl
    · have hA : (w.proc i).Holds (fun k => w.owner k = some i) w.db := outline_of_run h₀ hrun i
      rw [hp] at hA
      have hlock' : w.owner (.challenge row.assetId) = some i := hA
      rw [hid, hlock] at hlock'
      exact absurd (Option.some.inj hlock') hij

theorem Regenerating.other {c : RegenerateToken} (h : Regenerating c w.db (w.proc j)) :
    Regenerating c ((verification s).after w i m).db (w.proc j) := by
  have hunproved := @unproved_after _ _ _ _ _ _ _ _ _ _ h₀ hrun hij hreg hu hm c.assetId
  have hcovers := @scope_after _ _ _ _ _ _ _ _ _ _ h₀ hrun hij hreg hu hm c.assetId
  have hA : (w.proc j).Holds (fun k => w.owner k = some j) w.db := outline_of_run h₀ hrun j
  generalize w.proc j = p at *
  cases p with
  | regenerateExisting c' asset =>
    obtain ⟨rfl, hid, hproof⟩ := h
    exact ⟨rfl, hid, hunproved hproof (.inl (congrArg some hid))⟩
  | upsertChallenge c' row =>
    obtain ⟨hid, hproof, hscope⟩ := h
    refine ⟨hid, hunproved hproof (.inl (congrArg some hid)), hcovers hscope (.inl ?_)⟩
    rw [← hid]
    rfl
  | commitChallenge row =>
    obtain ⟨hid, hproof, hscope⟩ := h
    have hlock : w.owner (.challenge c.assetId) = some j := hid ▸ hA
    exact ⟨hid, hunproved hproof (.inr hlock), hcovers hscope (.inr hlock)⟩
  | regenerateToken | regenerateProof => exact h
  | refuse | done => trivial
  | _ => exact h.elim

end Others

theorem regenerating_of_run (h₀ : Start w₀) (howned : Owned w₀.db) (h : (verification s).Run (Unraced w₀) w₀ w)
    {c : RegenerateToken} (hj : w₀.proc j = .regenerateToken c) : Regenerating c w.db (w.proc j) := by
  have hreg : (w₀.proc j).regenerates = true := by rw [hj]; rfl
  have hruns : (verification s).Run (fun w a => Unraced w₀ w a ∧ (verification s).Run (Unraced w₀) w₀ w) w₀ w :=
    h.using fun hw => hw
  refine hruns.invariant (I := fun w => Regenerating c w.db (w.proc j)) ?_ fun w i a m ih ⟨hu, hrun⟩ hm => ?_
  · rw [hj]
    rfl
  · by_cases hij : j = i
    · subst hij
      rw [System.proc_after_self]
      rcases System.move_abortable hm.1 with hgo | rfl
      · obtain ⟨ho, hsighted⟩ := owned_of_run h₀ howned hrun
        exact ih.next ho (hsighted j) hgo
      · trivial
    · rw [System.proc_after_of_ne hij]
      exact ih.other h₀ hrun hij hreg hu hm

/-! ### Coverage -/

/-- The challenge of an asset without a proof is replaced by one of the same scope. -/
structure SameCoverage (d d' : Db) (assetId : Uuid) : Prop where
  scope : ∃ x y, d.challenges.find assetId = some x ∧ d'.challenges.find assetId = some y ∧
    y.requestedScope = x.requestedScope
  unproved : d.proofs.find assetId = none

/-- Whenever a regeneration commits, it keeps the coverage of its asset. -/
def KeepsCoverage (s : Settings) (w₀ w : Requests π) : Prop :=
  ∀ i c m, w₀.proc i = .regenerateToken c → (verification s).Fires w i .go m → m.op.writes ≠ [] →
    SameCoverage w.db ((verification s).after w i m).db c.assetId

theorem Regenerating.keeps {c : RegenerateToken} (h : Regenerating c w.db (w.proc i)) (hm : (verification s).Fires w i .go m)
    (hwrites : m.op.writes ≠ []) : SameCoverage w.db ((verification s).after w i m).db c.assetId := by
  have hgo : go s w.db (w.proc i) = some m := hm.1
  generalize w.proc i = p at h hgo
  cases p with
  | commitChallenge row =>
    cases hgo
    obtain ⟨hid, hproof, hscope⟩ := h
    refine ⟨?_, hproof⟩
    obtain ⟨t, ht, hsame⟩ := Option.map_eq_some_iff.1 hscope
    obtain ⟨x, hx, rfl⟩ := Option.map_eq_some_iff.1 ht
    have hfind : ((verification s).after w i ⟨.commit [.challenge row], .done, [.issued row]⟩).db.challenges.find c.assetId =
        some row := by
      rw [← hid]
      exact Table.find_put_self ..
    exact ⟨x, row, hx, hfind, hsame.symm⟩
  | regenerateToken | regenerateProof | regenerateExisting | upsertChallenge | refuse =>
    cases hgo
    exact absurd rfl hwrites
  | done => cases hgo
  | _ => exact h.elim

theorem KeepsCoverage.at_commit {c : RegenerateToken} {row : Challenge} (h : KeepsCoverage s w₀ w)
    (hi : w₀.proc i = .regenerateToken c) (hp : w.proc i = .commitChallenge row) :
    SameCoverage w.db (w.db.write (.challenge row)) c.assetId := by
  have hm : (verification s).Fires w i .go ⟨.commit [.challenge row], .done, [.issued row]⟩ := by
    refine ⟨?_, trivial⟩
    rw [hp]
    rfl
  exact h i c _ hi hm (by simp [Op.writes])

end Runs

/-! ### The races -/

namespace Raced
open Superseded

/-- The token of a challenge at `zone` is regenerated while the challenge is replaced at `exact` and checked. -/
def requests : Fin 3 → Proc
  | 0 => .regenerateToken ⟨caller, 1, "t2", Time.seconds 20⟩
  | 1 => .startChallenge ⟨caller, 1, .exact, "t1", Time.seconds 21⟩
  | 2 => .runCheck ⟨caller, 1, Time.seconds 22, Time.seconds 23, published⟩

def begin : Requests (Fin 3) where
  db := { assets := Table.empty.insert ⟨1, 100, .domain, "example.lu"⟩,
          challenges := Table.empty.insert ⟨1, 100, .zone, "_nc3-verify.example.lu", "t1", Time.days 7, some 5, 0, none, none, id⟩,
          proofs := .empty, organizations := .empty }
  owner _ := none
  proc := requests
  trace := []

theorem start : Start begin where
  entry := fun | 0 | 1 | 2 => trivial
  unlocked _ := rfl
  claims p hp := by cases hp

theorem owned : Owned begin.db := by
  intro assetId row hrow
  cases hrow

def committing (scope : VerificationScope) : Proc → Bool
  | .commitChallenge row => row.assetId = 1 ∧ row.requestedScope = scope
  | _ => false

theorem of_committing {p : Proc} {scope : VerificationScope} (h : committing scope p = true) :
    ∃ row, p = .commitChallenge row ∧ row.assetId = 1 ∧ row.requestedScope = scope := by
  unfold committing at h
  split at h
  · next row => exact ⟨row, rfl, of_decide_eq_true h⟩
  · cases h

end Raced

open Raced in
/-- A regeneration commits `zone` over a challenge at `exact`, or replaces the challenge of an asset that has
been proved meanwhile. -/
theorem regenerate_changes_coverage :
    Start begin ∧ Owned begin.db ∧
    (∃ w, (verification Settings.shipped).Run (fun _ _ => True) begin w ∧ w.db.scope 1 = some .exact ∧
      (∃ row, w.proc 0 = .commitChallenge row ∧ row.assetId = 1 ∧ row.requestedScope = .zone) ∧
      ¬ KeepsCoverage Settings.shipped begin w) ∧
    ∃ w, (verification Settings.shipped).Run (fun _ _ => True) begin w ∧ (w.db.proofs.find 1).isSome = true ∧
      (∃ row, w.proc 0 = .commitChallenge row ∧ row.assetId = 1) ∧ ¬ KeepsCoverage Settings.shipped begin w := by
  have replaced : ((verification Settings.shipped).exec (fun _ _ => True) begin
      (steps 0 3 ++ steps 1 3 ++ steps 0 1)).any (fun w =>
        committing .zone (w.proc 0) && decide (w.db.scope 1 = some .exact)) = true := by
    decide +kernel
  have proved : ((verification Settings.shipped).exec (fun _ _ => True) begin
      (steps 0 3 ++ steps 2 10 ++ steps 0 1)).any (fun w =>
        committing .zone (w.proc 0) && (w.db.proofs.find 1).isSome) = true := by
    decide +kernel
  refine ⟨start, owned, ?_, ?_⟩
  · obtain ⟨w, hw, hp⟩ := System.Run.of_exec_any replaced
    rw [Bool.and_eq_true, decide_eq_true_eq] at hp
    obtain ⟨hcommit, hscope⟩ := hp
    obtain ⟨row, hrow, hid, hzone⟩ := of_committing hcommit
    refine ⟨w, hw, hscope, ⟨row, hrow, hid, hzone⟩, fun hkeeps => ?_⟩
    obtain ⟨x, y, hx, hy, hsame⟩ := (hkeeps.at_commit (i := 0) rfl hrow).scope
    have hafter : (w.db.write (.challenge row)).challenges.find 1 = some row := hid ▸ Table.find_put_self ..
    have hrow : y = row := Option.some.inj (hy.symm.trans hafter)
    have hx : w.db.scope 1 = some x.requestedScope := by
      rw [Db.scope, Db.terms, show w.db.challenges.find 1 = some x from hx]
      rfl
    rw [hscope, ← hsame, hrow, hzone] at hx
    cases hx
  · obtain ⟨w, hw, hp⟩ := System.Run.of_exec_any proved
    rw [Bool.and_eq_true] at hp
    obtain ⟨hcommit, hproof⟩ := hp
    obtain ⟨row, hrow, hid, -⟩ := of_committing hcommit
    refine ⟨w, hw, hproof, ⟨row, hrow, hid⟩, fun hkeeps => ?_⟩
    have hnone : w.db.proofs.find 1 = none := (hkeeps.at_commit (i := 0) rfl hrow).unproved
    rw [hnone] at hproof
    cases hproof

/-- Where nothing races with what it has read, a regeneration keeps the coverage of its asset. -/
theorem regenerate_keeps_coverage [DecidableEq π] {w₀ w : Requests π} (h₀ : Start w₀) (howned : Owned w₀.db)
    (h : (verification s).Run (Unraced w₀) w₀ w) : KeepsCoverage s w₀ w := fun _ _ _ hi hm hwrites =>
  (regenerating_of_run h₀ howned h hi).keeps hm hwrites

open Raced in
/-- The replacement comes before the regeneration reads the challenge, and its scope is carried over. -/
theorem regenerate_keeps_coverage_after_replacement :
    ∃ (w : Requests (Fin 3)) (row : Challenge), w.proc 0 = .commitChallenge row ∧ row.requestedScope = .exact ∧
      SameCoverage w.db (w.db.write (.challenge row)) 1 := by
  have run : ((verification Settings.shipped).exec (Unraced begin) begin
      (steps 0 2 ++ steps 1 3 ++ steps 0 2)).any (fun w => committing .exact (w.proc 0)) = true := by
    decide +kernel
  obtain ⟨w, hw, hcommit⟩ := System.Run.of_exec_any run
  obtain ⟨row, hrow, -, hexact⟩ := of_committing hcommit
  exact ⟨w, row, hrow, hexact, (regenerate_keeps_coverage start owned hw).at_commit (i := 0) rfl hrow⟩

end TestingPlatform.Assets
