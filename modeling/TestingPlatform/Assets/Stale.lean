import TestingPlatform.Assets.Steps

/-!
# Checks of a superseded token

After the lookup `run_check` reads the stored token again and gives up where it was replaced. Between that
read and the statement that decides, the upsert of the proof or the stamp of the failure, the challenge is
not locked, and a replacement may commit (`superseded_check_proves`). Where none does, the challenge that
stands when a check decides is the one whose token it evaluated (`check_decides_standing`).
-/

namespace TestingPlatform.Assets

open ReadCommitted

variable {π : Type} [DecidableEq π] {s : Settings}

/-- The attempt a check is about to decide: its token was found to stand, and the verdict is not that the
platform failed. -/
def Proc.deciding (s : Settings) : Proc → Option Attempt
  | .reread c a outcomes currentToken =>
    if currentToken = a.token ∧ !(decideCheck s c a outcomes matches .refuse _) then some a else none
  | .upsertProof _ a _ | .stampVerdict _ a _ => some a
  | _ => none

def Proc.replacing : Proc → Option Challenge
  | .commitChallenge row => some row
  | _ => none

def Standing (d : Db) (a : Attempt) : Prop := (d.terms a.assetId).map Terms.verificationToken = some a.token

/-- No challenge is replaced while a check of it is about to decide. -/
def Undisturbed (s : Settings) (w : Requests π) (a : π × Choice) : Prop :=
  a.2 = .go → ∀ row ∈ (w.proc a.1).replacing, ∀ j, ∀ x ∈ (w.proc j).deciding s, x.assetId = row.assetId →
    row.verificationToken = x.token

instance {n : Nat} (w : Requests (Fin n)) (a : Fin n × Choice) : Decidable (Undisturbed s w a) :=
  inferInstanceAs (Decidable (a.2 = .go → ∀ row ∈ (w.proc a.1).replacing, ∀ j, ∀ x ∈ (w.proc j).deciding s,
    x.assetId = row.assetId → row.verificationToken = x.token))

/-- A check comes to decide only through the read of the token that stands. -/
theorem deciding_next {d : Db} {p : Proc} {m : Step} {a : Attempt} (h : go s d p = some m)
    (ha : m.next.deciding s = some a) : p.deciding s = some a ∨ Standing d a := by
  cases go_leads h with
  | refreshed hfresh =>
    right
    simp only [Proc.deciding, Option.ite_none_right_eq_some] at ha
    obtain ⟨⟨hcur, -⟩, ha⟩ := ha
    cases ha
    obtain ⟨hf, -⟩ := Option.filter_eq_some_iff.1 hfresh
    rw [Standing, Db.terms, hf]
    exact congrArg some hcur
  | verified hv hverified =>
    left
    cases ha
    simp [Proc.deciding, decideCheck, ← hv, hverified]
  | failed hv hfailed hfault =>
    left
    cases ha
    simp [Proc.deciding, decideCheck, ← hv, hfailed, hfault]
  | _ => cases ha

/-- Whoever is about to decide evaluated the token that stands. -/
def Current (s : Settings) (w : Requests π) : Prop := ∀ i a, (w.proc i).deciding s = some a → Standing w.db a

theorem Current.step {w : Requests π} {i : π} {c : Choice} {m : Step} (hcur : Current s w) (hu : Undisturbed s w (i, c))
    (hm : (verification s).Fires w i c m) : Current s ((verification s).after w i m) := by
  intro j a ha
  have hstanding : Standing w.db a := by
    by_cases hij : j = i
    · subst hij
      rw [System.proc_after_self] at ha
      rcases System.move_abortable hm.1 with hgo | rfl
      · rcases deciding_next hgo ha with hd | hs
        · exact hcur j a hd
        · exact hs
      · cases ha
    · rw [System.proc_after_of_ne hij] at ha
      exact hcur j a ha
  rcases terms_after hm a.assetId with he | ⟨row, hp, rfl, hid, he⟩
  · rwa [Standing, he]
  · -- a new challenge has just been committed; if it has another token, nobody was deciding
    have hrow : row ∈ (w.proc i).replacing := by rw [hp]; rfl
    have hj : a ∈ (w.proc j).deciding s := by
      by_cases hij : j = i
      · subst hij
        rw [System.proc_after_self] at ha
        have hgo : go s w.db (w.proc j) = some m := hm.1
        rw [hp] at hgo
        cases hgo
        cases ha
      · rwa [System.proc_after_of_ne hij] at ha
    rw [Standing, he]
    exact congrArg some (hu rfl row hrow j a hj hid.symm)

theorem current_of_run {w₀ w : Requests π} (h₀ : Start w₀) (h : (verification s).Run (Undisturbed s) w₀ w) : Current s w := by
  refine h.invariant (fun i a ha => ?_) fun v i c m hcur hu hm => hcur.step hu hm
  rcases h₀.cases i with ⟨c, hp⟩ | ⟨c, hp⟩ | ⟨c, hp⟩ | hp <;> (rw [hp] at ha; cases ha)

/-- Where no challenge is replaced under a check that is about to decide, the proof is written and the
failure stamped while the evaluated token stands. -/
theorem check_decides_standing {w₀ w : Requests π} (h₀ : Start w₀) (h : (verification s).Run (Undisturbed s) w₀ w) {i : π}
    {c : RunCheck} {a : Attempt} :
    (∀ v, w.proc i = .upsertProof c a v → Standing w.db a) ∧ (∀ code, w.proc i = .stampVerdict c a code → Standing w.db a) := by
  have hcur := current_of_run h₀ h
  constructor
  · intro v hp
    exact hcur i a (by rw [hp]; rfl)
  · intro code hp
    exact hcur i a (by rw [hp]; rfl)

/-! ### The overwrite -/

instance (d : Db) (a : Attempt) : Decidable (Standing d a) := inferInstanceAs (Decidable (_ = _))

namespace Superseded

def caller : Caller := ⟨100, some 5⟩

/-- Both tokens are published, and the one resolver validates. -/
def published (_ : String) : Option (List ResolverOutcome) :=
  some [{ resolverId := "dns.example", outcome := .answered, authenticated := true, strings := [[[116, 49]], [[116, 50]]] }]

/-- A challenge at `exact` and its check, a replacement at `zone` and its check. -/
def requests : Fin 4 → Proc
  | 0 => .startChallenge ⟨caller, 1, .exact, "t1", 0⟩
  | 1 => .runCheck ⟨caller, 1, Time.seconds 10, Time.seconds 11, published⟩
  | 2 => .startChallenge ⟨caller, 1, .zone, "t2", Time.seconds 12⟩
  | 3 => .runCheck ⟨caller, 1, Time.seconds 13, Time.seconds 14, published⟩

def begin : Requests (Fin 4) where
  db := { assets := Table.empty.insert ⟨1, 100, .domain, "example.lu"⟩, challenges := .empty, proofs := .empty,
          organizations := .empty }
  owner _ := none
  proc := requests
  trace := []

theorem start : Start begin where
  entry := fun | 0 | 1 | 2 | 3 => trivial
  unlocked _ := rfl
  claims p hp := by cases hp

/-- The first check reads that its token stands; then the second challenge is issued and proved. -/
def untilProved : List (Fin 4 × Choice) := steps 0 3 ++ steps 1 6 ++ steps 2 3 ++ steps 3 10

def scopeIs (w : Requests (Fin 4)) (scope : VerificationScope) : Bool :=
  (w.db.proofs.find 1).any fun p => p.verifiedScope = scope

/-- The first check is about to write its proof. -/
def stale (w : Requests (Fin 4)) : Bool :=
  match w.proc 1 with
  | .upsertProof _ a _ => !decide (Standing w.db a)
  | _ => false

end Superseded

open Superseded in
/-- A check of a replaced token writes its proof over the one the newer challenge earned. -/
theorem superseded_check_proves :
    ∃ w₀ w w' : Requests (Fin 4), Start w₀ ∧ (verification Settings.shipped).Run (fun _ _ => True) w₀ w ∧
      (verification Settings.shipped).Run (fun _ _ => True) w w' ∧
      (∃ c a v, w.proc 1 = .upsertProof c a v ∧ ¬ Standing w.db a) ∧
      (∃ p, w.db.proofs.find 1 = some p ∧ p.verifiedScope = .zone) ∧
      ∃ p, w'.db.proofs.find 1 = some p ∧ p.verifiedScope = .exact := by
  have run : ((verification Settings.shipped).exec (fun _ _ => True) begin untilProved).any (fun w =>
      stale w && (scopeIs w .zone && ((verification Settings.shipped).exec (fun _ _ => True) w (steps 1 4)).any fun w' =>
        scopeIs w' .exact)) = true := by
    decide +kernel
  obtain ⟨w, hw, hp⟩ := System.Run.of_exec_any run
  rw [Bool.and_eq_true, Bool.and_eq_true] at hp
  obtain ⟨hstale, hzone, hrun⟩ := hp
  obtain ⟨w', hw', hexact⟩ := System.Run.of_exec_any hrun
  have scope : ∀ {v : Requests (Fin 4)} {scope}, scopeIs v scope = true →
      ∃ p, v.db.proofs.find 1 = some p ∧ p.verifiedScope = scope := fun h => by
    obtain ⟨p, hp, hs⟩ := (Option.any_eq_true ..).1 h
    exact ⟨p, hp, by simpa using hs⟩
  refine ⟨begin, w, w', start, hw, hw', ?_, scope hzone, scope hexact⟩
  unfold stale at hstale
  split at hstale
  · next c a v hproc => exact ⟨c, a, v, hproc, by simpa using hstale⟩
  · cases hstale

open Superseded in
/-- The replacement comes before the check reads its token again, and the proof is that of the new challenge. -/
theorem check_decides_standing_after_replacement :
    ∃ (w : Requests (Fin 4)) (c : RunCheck) (a : Attempt) (v : CheckVerdict),
      (verification Settings.shipped).Run (Undisturbed Settings.shipped) begin w ∧ w.proc 3 = .upsertProof c a v ∧ Standing w.db a := by
  have run : ((verification Settings.shipped).exec (Undisturbed Settings.shipped) begin
      (steps 0 3 ++ steps 1 4 ++ steps 2 3 ++ steps 1 3 ++ steps 3 6)).any
        (fun w => w.proc 3 matches .upsertProof ..) = true := by
    decide +kernel
  obtain ⟨w, hw, hp⟩ := System.Run.of_exec_any run
  split at hp
  · next c a v hproc => exact ⟨w, c, a, v, hw, hproc, (check_decides_standing start hw).1 v hproc⟩
  · cases hp

end TestingPlatform.Assets
