import TestingPlatform.Auth.Factor

/-!
# The seed of a confirmed factor

`confirm_mfa` proves possession of the seed in the row it has locked. `enroll_mfa` reads that row without a
lock and later writes the new seed into it, whatever has become of it since; the locks on the sessions keep the
two apart, except where the session of the enrollment is revoked between its bootstrap and its touch
(`confirmed_seed_replaced`). Where an enrollment commits only over a pending factor, a confirmed factor has the
seed that was proven (`confirmed_seed_proven`).
-/

namespace TestingPlatform.Auth

open ReadCommitted

/-- The seed and the step that an answer confirms the factor with. -/
def Event.confirms (v : Uuid) : Event → Option (Bytes × Int)
  | .confirmed u secret step => if u = v then some (secret, step) else none
  | _ => none

/-- The latest confirmation of the factor. -/
def confirmation (before : Uuid → Option (Bytes × Int)) (v : Uuid) (trace : List Event) : Option (Bytes × Int) :=
  trace.foldl (fun latest e => (e.confirms v).or latest) (before v)

theorem Event.confirms_eq_none {e : Event} {v : Uuid} (h : e.factor ≠ some v) : e.confirms v = none := by
  cases e with
  | confirmed u secret step => exact if_neg fun he => h (congrArg some he)
  | _ => rfl

theorem confirmation_append (before : Uuid → Option (Bytes × Int)) (v : Uuid) (trace : List Event) (e : Event) :
    confirmation before v (trace ++ [e]) = (e.confirms v).or (confirmation before v trace) := by
  simp [confirmation]

theorem confirmation_refused {before : Uuid → Option (Bytes × Int)} {v : Uuid} {trace emit : List Event}
    (h : ∀ e ∈ emit, ∃ r, e = .refused r) : confirmation before v (trace ++ emit) = confirmation before v trace := by
  induction emit generalizing trace with
  | nil => rw [List.append_nil]
  | cons e emit ih =>
    obtain ⟨r, rfl⟩ := h e List.mem_cons_self
    rw [← List.singleton_append, ← List.append_assoc, ih fun e he => h e (List.mem_cons_of_mem _ he), confirmation_append]
    rfl

/-- A confirmed factor has the seed it was confirmed with, and has used that step or a later one. -/
def SeedProven (P : Primitives) (d : Db) (v : Uuid) (proof : Option (Bytes × Int)) : Prop :=
  ∀ row, d.mfa.find v = some row → row.confirmedAt.isSome = true →
    ∃ secret step, proof = some (secret, step) ∧ seed P d row = some secret ∧ ∃ l, row.lastUsedStep = some l ∧ step ≤ l

/-- The user for whom an enrollment is about to commit. -/
def Proc.enrolling : Proc → Option Uuid
  | .tail { todo := [], event := .enrolled u _, .. } => some u
  | _ => none

/-- An enrollment commits only while the factor is not confirmed. -/
def EnrollsPending {π : Type} (w : Requests π) (a : π × Choice) : Prop :=
  a.2 = .go → ∀ u ∈ (w.proc a.1).enrolling, (w.db.mfa.find u).bind UserMfa.confirmedAt = none

instance {π : Type} (w : Requests π) (a : π × Choice) : Decidable (EnrollsPending w a) :=
  inferInstanceAs (Decidable (a.2 = .go → ∀ u ∈ (w.proc a.1).enrolling, (w.db.mfa.find u).bind UserMfa.confirmedAt = none))

section Row
variable {P : Primitives} {s : Settings} {d d' : Db} {row row' : UserMfa} {e : Event}

theorem seed_of_ciphertext (row : UserMfa) (henv : d'.envelopes = d.envelopes)
    (h : row'.totpSecretCiphertext = row.totpSecretCiphertext) (huser : row'.userId = row.userId) : seed P d' row' = seed P d row := by
  rw [seed_congr henv, seed, seed, h, huser]

theorem SeedProven.steps {proof : Option (Bytes × Int)} (henv : d'.envelopes = d.envelopes) (hrow : d.mfa.find row.userId = some row)
    (hp : SeedProven P d row.userId proof) (h : row.Steps P s d e row') (hconf : row'.confirmedAt.isSome = true) :
    ∃ secret step, (e.confirms row.userId).or proof = some (secret, step) ∧ seed P d' row' = some secret ∧
      ∃ l, row'.lastUsedStep = some l ∧ step ≤ l := by
  cases h with
  | @confirmed secret step now hpending hseed =>
    refine ⟨secret, step, by simp [Event.confirms], ?_, step, rfl, Int.le_refl step⟩
    exact (seed_of_ciphertext row henv rfl rfl).trans hseed
  | wrongCode hcounted =>
    obtain ⟨hcipher, hat, hused⟩ := set_recordMfaFailure hcounted
    obtain ⟨secret, step, hproof, hseed, hstep⟩ := hp row hrow (hat ▸ hconf)
    exact ⟨secret, step, hproof, (seed_of_ciphertext row henv hcipher rfl).trans hseed, hused ▸ hstep⟩
  | @steppedUp spent sessionId hconfirmed hnew | @completed spent pendingId sessionId hconfirmed hnew =>
    obtain ⟨secret, step, hproof, hseed, l, hl, hle⟩ := hp row hrow hconfirmed
    refine ⟨secret, step, hproof, (seed_of_ciphertext row henv rfl rfl).trans hseed, ?_⟩
    cases spent with
    | step n => exact ⟨n, rfl, Int.le_trans hle (Int.le_of_lt (hnew n rfl l hl))⟩
    | recovery code => exact ⟨l, hl, hle⟩
  | disabled => cases hconf

end Row

section Runs
variable {π : Type} [DecidableEq π] {P : Primitives} {s : Settings} {w₀ w : Requests π} {before : Uuid → Option (Bytes × Int)}

theorem SeedProven.step {i : π} {c : Choice} {m : Step} (hat : (outline P s).At w i) (hC : EnrollsPending w (i, c))
    (hm : (authentication P s).Fires w i c m) (hp : ∀ v, SeedProven P w.db v (confirmation before v w.trace)) (v : Uuid) :
    SeedProven P ((authentication P s).after w i m).db v (confirmation before v ((authentication P s).after w i m).trace) := by
  have hstays : Stays w.db ((authentication P s).after w i m).db := Outline.guar_of_fires hat hm
  have henv := hstays.envelopes
  rcases fires_cases hat hm with ⟨t, hproc, rfl, htodo, rfl, hholds⟩ | ⟨hdb, hemit, -⟩
  · have hdecided := hholds.decided
    rw [Tail.plan, htodo, List.flatMap_nil, List.append_nil] at hdecided
    rw [System.trace_after, confirmation_append]
    intro row hrow hconf
    have hcommit := factor_commit hdecided v
    cases hcommit with
    | other he h =>
      rw [Event.confirms_eq_none he, Option.none_or]
      obtain ⟨secret, step, hproof, hseed, hstep⟩ := hp v row (h.symm.trans hrow) hconf
      exact ⟨secret, step, hproof, (seed_congr henv row).trans hseed, hstep⟩
    | @enrolled secret he h =>
      have henrolling : v ∈ (w.proc i).enrolling := by
        obtain ⟨request, writes, todo, event⟩ := t
        cases htodo
        cases he
        rw [hproc]
        rfl
      have hpending : (w.db.mfa.find v).bind UserMfa.confirmedAt = none := hC rfl v henrolling
      have hrow' : (t.writes.foldl Db.write w.db).mfa.find v = some row := hrow
      rw [hpending, hrow', Option.bind_some] at h
      rw [h] at hconf
      cases hconf
    | @stepped before_ row' h h' hsteps =>
      have hrow' : row = row' := Option.some.inj (hrow.symm.trans h')
      subst hrow'
      cases Table.key_of_find h
      exact (hp _).steps henv h hsteps hconf
  · rw [System.trace_after, confirmation_refused hemit, hdb]
    exact hp v

/-- Where an enrollment commits only while the factor is not confirmed, every confirmed factor has the seed that its
confirming code was accepted for, and has used at least the step accepted then. -/
theorem confirmed_seed_proven (h₀ : Start w₀) (hp : ∀ v, SeedProven P w₀.db v (before v))
    (h : (authentication P s).Run EnrollsPending w₀ w) (v : Uuid) :
    SeedProven P w.db v (confirmation before v w.trace) := by
  have hbegin : ∀ v, SeedProven P w₀.db v (confirmation before v w₀.trace) := fun v => by
    rw [h₀.trace]
    exact hp v
  exact (h.using fun hv => outline_of_run h₀ hv).invariant
    (I := fun w => ∀ v, SeedProven P w.db v (confirmation before v w.trace)) hbegin
    (fun x i c m hx ⟨hC, hat⟩ hm v => SeedProven.step (hat i) hC hm hx v) v

end Runs

/-! ### The race -/

namespace Race

/-- Two sessions of one user, whose enrollment is pending. -/
def db : Db where
  users := Table.empty.insert ⟨1, 2, "user@example.lu", none, none⟩
  envelopes := Table.empty.insert ⟨3, 2, 1, [7], []⟩
  credentials := Table.empty.insert { userId := 1, passwordCiphertext := encode "correct horse", passwordUpdatedAt := 0 }
  sessions := (Table.empty.insert ⟨10, 1, encode "first", 0, 0, none, none⟩).insert ⟨20, 1, encode "second", 0, 0, none, none⟩
  mfa := Table.empty.insert { userId := 1, totpSecretCiphertext := some Primitives.rfcSecret }
  codes := .empty

def codes : RecoveryCodes := ⟨"abcdefghij".toList.map fun c => String.ofList (List.replicate 16 c), rfl⟩

/-- The second session restarts the enrollment and logs out; the first confirms. -/
def requests : Fin 3 → Proc
  | 0 => .bootstrap ⟨"second", Time.seconds 60, .enrollMfa "correct horse" (encode "another-seed-of-20-b") []⟩
  | 1 => .bootstrap ⟨"second", Time.seconds 61, .logout⟩
  | 2 => .bootstrap ⟨"first", Time.seconds 62, .confirmMfa "359152" codes⟩

def begin : Requests (Fin 3) where
  db
  owner _ := none
  proc := requests
  trace := []

theorem start : Start begin where
  entry := fun | 0 | 1 | 2 => trivial
  trace := rfl

theorem pending (v : Uuid) : SeedProven Primitives.plain begin.db v none := by
  intro row hrow hconf
  have hmem : row ∈ begin.db.mfa.rows := Table.mem_of_find hrow
  rw [show begin.db.mfa.rows = [{ userId := 1, totpSecretCiphertext := some Primitives.rfcSecret }] from rfl, List.mem_singleton] at hmem
  cases hmem
  cases hconf

/-- The factor is confirmed, with a seed that was not. -/
def replaced (w : Requests (Fin 3)) : Bool :=
  (w.db.mfa.find 1).any fun row => row.confirmedAt.isSome &&
    (seed Primitives.plain w.db row != (confirmation (fun _ => none) 1 w.trace).map (·.1))

end Race

open Race in
/-- The session is revoked after the bootstrap of its enrollment; the confirmation has nothing to wait for, and the
enrollment then writes its seed over the confirmed one. -/
theorem confirmed_seed_replaced : ∃ w₀ w : Requests (Fin 3), Start w₀ ∧ (∀ v, SeedProven Primitives.plain w₀.db v none) ∧
    (authentication Primitives.plain Settings.shipped).Run (fun _ _ => True) w₀ w ∧
    ¬ SeedProven Primitives.plain w.db 1 (confirmation (fun _ => none) 1 w.trace) := by
  have run : ((authentication Primitives.plain Settings.shipped).exec (fun _ _ => True) begin
      (steps 0 1 ++ steps 1 5 ++ steps 0 4 ++ steps 2 19 ++ steps 0 2)).any replaced = true := by
    decide +kernel
  obtain ⟨w, hw, hp⟩ := System.Run.of_exec_any run
  refine ⟨begin, w, start, pending, hw, fun hproven => ?_⟩
  obtain ⟨row, hrow, hbad⟩ := (Option.any_eq_true ..).1 hp
  rw [Bool.and_eq_true] at hbad
  obtain ⟨secret, step, hproof, hseed, -⟩ := hproven row hrow hbad.1
  rw [hproof, hseed] at hbad
  simp at hbad

open Race in
/-- The first session confirms the pending factor. -/
theorem confirmed_seed_proven_after_confirm : ∃ (w : Requests (Fin 3)) (row : UserMfa), w.db.mfa.find 1 = some row ∧
    row.confirmedAt.isSome = true ∧ SeedProven Primitives.plain w.db 1 (confirmation (fun _ => none) 1 w.trace) := by
  have run : ((authentication Primitives.plain Settings.shipped).exec EnrollsPending begin (steps 2 20)).any
      (fun w => (w.db.mfa.find 1).any fun row => row.confirmedAt.isSome) = true := by
    decide +kernel
  obtain ⟨w, hw, hp⟩ := System.Run.of_exec_any run
  obtain ⟨row, hrow, hconf⟩ := (Option.any_eq_true ..).1 hp
  exact ⟨w, row, hrow, hconf, confirmed_seed_proven start pending hw 1⟩

end TestingPlatform.Auth
