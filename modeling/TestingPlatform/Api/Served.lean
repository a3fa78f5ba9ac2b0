import TestingPlatform.Api.Authentication
import TestingPlatform.Api.Verification
import TestingPlatform.Lib.ReadCommitted

/-!
# Programs by themselves

A server answers the statements of one program, over a database and the transaction that is open on it (`Server`). Served by
itself a program comes to a result or an exception, and leaves a database behind and a status (`Outcome.report`).
-/

namespace TestingPlatform.Api

open Dialogue

/-- What a commit and a rollback leave of an open transaction. -/
class Transactional (σ : Type) (δ : outParam Type) where
  committed : σ → δ
  kept : σ → δ

open Transactional

section Served
variable {σ δ α β γ : Type} [Transactional σ δ]

/-- The next transaction begins on this database. -/
def Begins (d : δ) (t : σ) : Prop := committed t = d ∧ kept t = d

variable (σ) in
structure Server where
  answer : (q : Question) → σ → Answer q × σ
  commits : ∀ engine t, ∃ t', answer ⟨engine, .commit⟩ t = (.ok (), t') ∧ Begins (committed t) t'
  rollsBack : ∀ engine t, ∃ t', answer ⟨engine, .rollback⟩ t = (.ok (), t') ∧ Begins (kept t) t'
  closes : ∀ engine t, ∃ t', answer ⟨engine, .close⟩ t = (.ok (), t') ∧ Begins (kept t) t'

abbrev Outcome (σ α : Type) := Except Exc α × σ

def Outcome.andThen (x : Outcome σ α) (f : α → σ → Outcome σ β) : Outcome σ β :=
  match x with
  | (.ok a, t) => f a t
  | (.error e, t) => (.error e, t)

/-- What a service decides without a statement. -/
def Outcome.ofExcept (t : σ) (x : Except Auth.Refusal α) : Outcome σ α := (x.mapError .auth, t)

def Exc.status : Exc → Nat
  | .http status => status
  | .auth r => authStatus r
  | .registration r => registrationStatus r
  | .verification r => refusalStatus r
  | .invalidMfaCode => 403
  | .db _ => 500

/-- The database after the unit of work, and the status of an error. -/
def Outcome.report : Outcome σ α → δ × Option Nat
  | (.ok _, t) => (committed t, none)
  | (.error e, t) => (kept t, some e.status)

/-- What the program comes to. -/
def Program.on (S : Server σ) (x : Program α) (t : σ) : Outcome σ α := x.run.served S.answer t

variable {S : Server σ} {t : σ}

@[simp] theorem Outcome.andThen_ok (a : α) (f : α → σ → Outcome σ β) : Outcome.andThen (.ok a, t) f = f a t := rfl

@[simp] theorem Outcome.andThen_error (e : Exc) (f : α → σ → Outcome σ β) :
    (Outcome.andThen (.error e, t) f : Outcome σ β) = (.error e, t) := rfl

@[simp] theorem Outcome.andThen_andThen (x : Outcome σ α) (f : α → σ → Outcome σ β) (g : β → σ → Outcome σ γ) :
    (x.andThen f).andThen g = x.andThen fun a t => (f a t).andThen g := by
  obtain ⟨_ | _, t⟩ := x <;> rfl

theorem Outcome.andThen_pure (x : Outcome σ α) : (x.andThen fun a t => (.ok a, t)) = x := by
  obtain ⟨_ | _, t⟩ := x <;> rfl

@[simp] theorem Outcome.ofExcept_ok (a : α) : Outcome.ofExcept t (.ok a) = (.ok a, t) := rfl

theorem on_bind (x : Program α) (f : α → Program β) :
    (x >>= f).on S t = (x.on S t).andThen fun a t => (f a).on S t := by
  show (x.run.bind (ExceptT.bindCont f)).served _ _ = _
  rw [served_bind]
  show _ = Outcome.andThen (x.run.served S.answer t) _
  cases x.run.served S.answer t with
  | mk result t' => cases result <;> rfl

theorem on_exec (engine : Engine) (st : Statement) :
    (exec engine st).on S t = ((S.answer ⟨engine, st⟩ t).1.mapError Exc.db, (S.answer ⟨engine, st⟩ t).2) := rfl

theorem on_tryCatch {x : Program α} {handle : Exc → Program α} : Program.on S (tryCatch x handle) t =
    match x.on S t with
    | (.ok a, t) => (.ok a, t)
    | (.error e, t) => (handle e).on S t := by
  show (x.run.bind _).served _ _ = _
  rw [served_bind, Program.on]
  cases x.run.served S.answer t with
  | mk result t' => cases result <;> rfl

/-- The outcome of a program as a value. -/
theorem on_attempt {x : Program α} {f : Except Exc α → Program β} :
    Program.on S (ExceptT.lift x.run >>= f) t = (f (x.on S t).1).on S (x.on S t).2 := by
  show (Dialogue.bind (Dialogue.bind x.run _) _).served _ _ = _
  rw [served_bind, served_bind]
  rfl

theorem on_ensuring {x : Program α} {cleanup : Program Unit} : Program.on S (ensuring x cleanup) t =
    (cleanup.on S (x.on S t).2).andThen fun _ t' => ((x.on S t).1, t') := by
  rw [ensuring, on_attempt, on_bind]
  rfl

/-- A unit of work ends as its body does. -/
theorem report_unitOfWork {engine : Engine} {body : Program α} :
    (Program.on S (unitOfWork engine body) t).report = (body.on S t).report := by
  have hends : ∀ {result : Except Exc α} {t : σ},
      (Outcome.andThen ((exec engine .close).on S t) fun _ t' => (result, t')).report =
        (kept t, (Outcome.report (result, t)).2) := by
    intro result t
    obtain ⟨t', hclose, hcommitted, hkept⟩ := S.closes engine t
    rw [on_exec, hclose]
    cases result with
    | ok a => exact Prod.ext hcommitted rfl
    | error e => exact Prod.ext hkept rfl
  rw [unitOfWork, on_ensuring, on_tryCatch, on_bind, hends]
  obtain ⟨e | a, t'⟩ := body.on S t
  · obtain ⟨t'', hrollback, -, hkept⟩ := S.rollsBack engine t'
    have hrun : Program.on S (exec engine .rollback >>= fun _ => (throw e : Program α)) t' = (.error e, t'') := by
      rw [on_bind, on_exec, hrollback]
      rfl
    simp only [Outcome.andThen_error, hrun, Outcome.report, hkept]
  · obtain ⟨t'', hcommit, -, hkept⟩ := S.commits engine t'
    have hrun : Program.on S (exec engine .commit >>= fun _ => pure a) t' = (.ok a, t'') := by
      rw [on_bind, on_exec, hcommit]
      rfl
    simp only [Outcome.andThen_ok, hrun, Outcome.report, hkept]

/-- Exceptions that are raised on with their status. -/
theorem report_tryCatch {x : Program α} {handle : Exc → Program α} (f : α → σ → Outcome σ β)
    (hhandle : ∀ e, ∃ e', handle e = throw e' ∧ e'.status = e.status) :
    ((Program.on S (tryCatch x handle) t).andThen f).report = ((x.on S t).andThen f).report := by
  rw [on_tryCatch]
  obtain ⟨e | a, t'⟩ := x.on S t
  · obtain ⟨e', he', hstatus⟩ := hhandle e
    dsimp only
    rw [he']
    exact Prod.ext rfl (congrArg some hstatus)
  · rfl

theorem report_answered {x : Program α} {f : α → σ → Outcome σ β} :
    (((answered x).on S t).andThen f).report = ((x.on S t).andThen f).report :=
  report_tryCatch f fun e => by cases e <;> exact ⟨_, rfl, rfl⟩

theorem report_asHttp {x : Program α} {f : α → σ → Outcome σ β} :
    (((asHttp x).on S t).andThen f).report = ((x.on S t).andThen f).report :=
  report_tryCatch f fun e => by cases e <;> exact ⟨_, rfl, rfl⟩

end Served

/-! ### Requests by themselves -/

section Requests
open ReadCommitted
variable {κ υ δ ρ ω : Type}

/-- The process comes to its last statement by itself; that leaves this database and answers with this status. -/
def Leaves (sys : System κ υ δ ρ Choice ω) (done : ρ) (status : ω → Option Nat) (d : δ) (p : ρ) (r : δ × Option Nat) : Prop :=
  ∃ q m, sys.Lone .go (d, p) (d, q) ∧ sys.move d q .go = some m ∧ (∀ owner, m.op.Allowed () owner) ∧ m.next = done ∧
    ∃ e ∈ m.emit, r = (m.op.effect sys.write d, status e)

variable {sys : System κ υ δ ρ Choice ω} {done : ρ} {status : ω → Option Nat} {d : δ} {p q : ρ} {r : δ × Option Nat}
  {m : Move κ υ ρ ω}

theorem Leaves.trans (hlone : sys.Lone .go (d, p) (d, q)) (h : Leaves sys done status d q r) : Leaves sys done status d p r := by
  obtain ⟨q', m, hq', hlast⟩ := h
  exact ⟨q', m, Relation.ReflTransGen.trans hlone hq', hlast⟩

/-- A statement that changes nothing. -/
theorem Leaves.step (hmove : sys.move d p .go = some m) (hop : m.op.effect sys.write d = d)
    (h : Leaves sys done status d m.next r) : Leaves sys done status d p r :=
  .trans (.single ⟨m, hmove, by rw [hop]⟩) h

/-- So it is in every run of the process by itself, and there is one. -/
theorem Leaves.run [DecidableEq κ] {w : World Unit κ δ ρ ω} (h : Leaves sys done status w.db (w.proc ()) r)
    (hfree : ∀ k, w.owner k = none) (hdone : ∀ d, sys.move d done .go = none) :
    (∃ v, sys.Run (fun _ a => a = ((), .go)) w v ∧ v.proc () = done) ∧
      ∀ v, sys.Run (fun _ a => a = ((), .go)) w v → v.proc () = done → ∃ e ∈ v.trace, r = (v.db, status e) := by
  obtain ⟨q, m, hlone, hmove, hallowed, hnext, e, he, hr⟩ := h
  obtain ⟨v, hrun, hdb, hproc, htrace⟩ := hlone.last (fun k => .inl (hfree k)) hmove hallowed
  have hstuck : ∀ x : World Unit κ δ ρ ω, x.proc () = done → sys.step x ((), .go) = none := fun x hx =>
    System.step_of_ended (by rw [hx, hdone])
  have hv : v.proc () = done := hproc.trans hnext
  refine ⟨⟨v, hrun, hv⟩, fun v' hrun' hv' => ?_⟩
  rw [← System.Run.unique hrun hrun' (hstuck v hv) (hstuck v' hv')]
  exact ⟨e, htrace e he, by rw [hr, hdb]⟩

end Requests

end TestingPlatform.Api
