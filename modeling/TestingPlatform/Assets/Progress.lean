import TestingPlatform.Assets.Stale
import TestingPlatform.Lib.LockOrder

/-!
# Every request comes to an end

A check locks the proof with the claim on its value, then the organization that the proof names, then the challenge it
stamps; issuing a challenge locks that row only. So all requests lock in one order and none of their statements is
repeated. Whatever order the statements of any number of requests are executed in, and wherever some of them are
aborted, no two requests wait for each other, and all of them can be brought to their answers (`requests_finish`).
-/

namespace TestingPlatform.Assets

open ReadCommitted

variable {s : Settings}

/-- The order in which the rows are locked. -/
def Lock.rank : Lock → ℕ
  | .proof _ | .claim _ => 0
  | .organization _ => 1
  | .challenge _ => 2

/-- The rows a request holds are ranked below this. -/
def Proc.level : Proc → ℕ
  | .nameOrganization .. | .lostClaim .. | .stampClaimLost .. => 1
  | .stampVerified .. => 2
  | .commitChallenge _ | .commitCheck .. | .refuse _ => 3
  | _ => 0

/-- The statements a request has at most before it. -/
def Proc.work : Proc → ℕ
  | .done => 0
  | .commitChallenge _ | .commitCheck .. | .refuse _ => 1
  | .upsertChallenge .. | .stampSuperseded .. | .stampVerdict .. | .stampClaimLost .. | .stampVerified .. => 2
  | .regenerateExisting .. | .startChallenge _ | .lostClaim .. | .nameOrganization .. => 3
  | .regenerateProof .. | .upsertProof .. => 4
  | .regenerateToken _ | .reread .. => 5
  | .credentials .. => 6
  | .resolve .. => 7
  | .endRead .. => 8
  | .checkChallenge .. => 9
  | .runCheck _ => 10

/-- The rows that the next statement locks, if it locks any. -/
def Proc.locks : Proc → List Lock
  | .upsertChallenge _ row => [.challenge row.assetId]
  | .stampSuperseded _ a | .stampVerdict _ a _ | .stampClaimLost _ a | .stampVerified _ a _ _ => [.challenge a.assetId]
  | .upsertProof _ a _ => [.proof a.assetId, .claim a.value]
  | .nameOrganization c _ _ => [.organization c.organizationId]
  | _ => []

theorem Lock.rank_lt (k : Lock) : k.rank < 3 := by cases k <;> simp [rank]

theorem Proc.level_le (p : Proc) : p.level ≤ 3 := by cases p <;> simp [level]

theorem Proc.level_le_rank (p : Proc) : ∀ k ∈ p.locks, p.level ≤ k.rank := by
  cases p <;> simp [locks, level, Lock.rank]

section Program
variable {d : Db} {p : Proc} {c : Choice} {m : Step}

theorem locks_of_go {ks : List Lock} (h : go s d p = some m) (hop : m.op = .lock ks) : ks = p.locks := by
  cases p with
  | nameOrganization c a row =>
    simp only [go] at h
    split at h <;> cases h <;> cases hop
    rfl
  | done => cases h
  | _ =>
    cases h
    cases hop
    try rfl

/-- Only a commit and a rollback end a request. -/
theorem two_le_work (h : go s d p = some m) (hnext : m.next ≠ .done) : 2 ≤ p.work := by
  cases p with
  | commitChallenge | commitCheck | refuse =>
    cases h
    exact absurd rfl hnext
  | done => cases h
  | _ => simp [Proc.work]

/-- A stamp comes after everything else that a check locks. -/
theorem Stamps.bounds {c : RunCheck} {r : CheckRecord} {answer : Answer} (h : Stamps c p r answer) :
    p.level ≤ 2 ∧ p.work = 2 := by
  cases h <;> simp [Proc.level, Proc.work]

theorem eq_done_of_go (h : go s d p = none) : p = .done := by
  cases p with
  | done => rfl
  | nameOrganization c a row =>
    simp only [go] at h
    split at h <;> cases h
  | _ => cases h

theorem go_of_work_eq_zero (h : p.work = 0) : go s d p = none := by
  cases p with
  | done => rfl
  | _ => cases h

theorem work_next (h : go s d p = some m) : m.next.work < p.work := by
  cases go_leads h with
  | refused => exact two_le_work h (by simp)
  | stamped hstamps =>
    rw [hstamps.bounds.2]
    simp [Proc.work]
  | _ => simp [Proc.work]

theorem level_next (h : go s d p = some m) (hop : m.op = .read ∨ (∃ ks, m.op = .lock ks) ∨ ∃ ks, m.op = .unlock ks) :
    p.level ≤ m.next.level ∧ ∀ k ∈ p.locks, k.rank < m.next.level := by
  cases go_leads h with
  | refused => exact ⟨p.level_le, fun k _ => k.rank_lt⟩
  | stamped hstamps =>
    refine ⟨hstamps.bounds.1.trans (by simp [Proc.level]), fun k _ => k.rank_lt⟩
  | issued | ended | recorded | refuses => simp at hop
  | _ => simp [Proc.level, Proc.locks, Lock.rank]

end Program

theorem ascends (s : Settings) : Ascends (verification s) Lock.rank Proc.level where
  asks hm hop k hk := by
    rcases System.move_abortable hm with hgo | rfl
    · rw [locks_of_go hgo hop] at hk
      exact Proc.level_le_rank _ k hk
    · cases hop
  takes hm hop := by
    rcases System.move_abortable hm with hgo | rfl
    · rw [locks_of_go hgo hop]
      exact level_next hgo (.inr (.inl ⟨_, hop⟩))
    · cases hop
  keeps hm hop := by
    rcases System.move_abortable hm with hgo | rfl
    · exact (level_next hgo (hop.imp_right .inr)).1
    · rcases hop with hop | ⟨_, hop⟩ <;> cases hop
  ends {d p c} hm := by
    cases c with
    | go =>
      rw [eq_done_of_go hm]
      rfl
    | fail | crash => cases hm

theorem shrinks (s : Settings) : Shrinks (verification s) Proc.work where
  next hm hwork := by
    rcases System.move_abortable hm with hgo | rfl
    · exact work_next hgo
    · exact hwork

/-! ### Requests -/

def Proc.finished : Proc → Bool
  | .done => true
  | _ => false

/-- The statement is one of a request that is not finished. -/
def Busy {π : Type} (w : Requests π) (a : π × Choice) : Prop := (w.proc a.1).finished = false

instance {π : Type} (w : Requests π) (a : π × Choice) : Decidable (Busy w a) := inferInstanceAs (Decidable (_ = _))

theorem Busy.work_pos {π : Type} {w : Requests π} {a : π × Choice} (h : Busy w a) : 0 < (w.proc a.1).work := by
  unfold Busy at h
  cases hp : w.proc a.1 with
  | done =>
    rw [hp] at h
    cases h
  | _ => simp [Proc.work]

theorem Proc.work_le (p : Proc) : p.work ≤ 10 := by cases p <;> simp [work]

/-- In every state that requests reach, whichever of them were aborted: no requests wait for each other in a circle, all of
them can be brought to their ends without another abort, and every schedule of those that are not finished comes to an end,
after ten statements for each request at most. -/
theorem requests_finish {π : Type} [DecidableEq π] [Fintype π] {w₀ w : Requests π} (h₀ : ∀ k, w₀.owner k = none)
    (h : (verification s).Run (fun _ _ => True) w₀ w) :
    (∀ i, ¬ Relation.TransGen ((verification s).WaitsFor .go w) i i) ∧
    (∃ w', (verification s).Run (fun _ a => a.2 = .go) w w' ∧ ∀ i, w'.proc i = .done) ∧
    ∀ as w', (verification s).exec Busy w as = some w' → as.length ≤ 10 * Fintype.card π := by
  have hbelow : Below Lock.rank Proc.level w := (ascends s).below_of_run (.of_unlocked h₀) h
  refine ⟨(ascends s).no_circular_wait hbelow, ?_, fun as w' hexec => ?_⟩
  · obtain ⟨w', hrun, hend⟩ :=
      (ascends s).completes (shrinks s) (c := .go) (fun _ _ => go_of_work_eq_zero) Lock.rank_lt hbelow
    exact ⟨w', hrun, fun i => eq_done_of_go (hend i)⟩
  · have hle := (shrinks s).length_le (fun _ _ hb => hb.work_pos) hexec
    have htotal : total Proc.work w ≤ 10 * Fintype.card π := calc
      total Proc.work w ≤ ∑ _i : π, 10 := Finset.sum_le_sum fun i _ => (w.proc i).work_le
      _ = Fintype.card π * 10 := Finset.sum_const_nat fun _ _ => rfl
      _ = 10 * Fintype.card π := Nat.mul_comm ..
    omega

open Superseded in
/-- Four requests of one asset, in the middle of their statements. -/
theorem four_requests_finish : ∃ w w' : Requests (Fin 4), (verification Settings.shipped).Run (fun _ _ => True) begin w ∧
    (w.proc 1).finished = false ∧ (verification Settings.shipped).Run (fun _ a => a.2 = .go) w w' ∧ ∀ i, w'.proc i = .done := by
  have run : ((verification Settings.shipped).exec (fun _ _ => True) begin untilProved).any (fun w => !(w.proc 1).finished) = true := by
    decide +kernel
  obtain ⟨w, hw, hp⟩ := System.Run.of_exec_any run
  obtain ⟨-, ⟨w', hw', hdone⟩, -⟩ := requests_finish start.unlocked hw
  exact ⟨w, w', hw, by simpa using hp, hw', hdone⟩

end TestingPlatform.Assets
