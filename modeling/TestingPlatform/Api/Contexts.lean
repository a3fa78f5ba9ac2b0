import TestingPlatform.Api.Authentication
import TestingPlatform.Api.Verification

/-!
# Every tenant statement under the context of its caller

The context of a transaction ends with it, and a connection goes back to the pool and on to another request. A statement
on a tenant table without a context finds nothing and raises nothing, and one under the context of another request would
find the rows of somebody else. In no run does either happen: whatever the database answers and whatever it raises,
however the requests take turns, every such statement runs under the identity that the database gave for its request.
-/

namespace TestingPlatform.Api

open Dialogue Assets Auth

/-! ### Requests -/

section Requests
variable (P : Primitives) (auth : Auth.Settings) (settings : Assets.Settings)

/-- The routes that have a database session, with the token of the cookie, whether the rate limits let the request pass,
and what it brings and draws. -/
inductive Route where
  | auth (token : String) (allowed : Bool) (route : AuthRoute P)
  | getVerification (token : String) (assetId : Uuid)
  | createVerification (token : String) (allowed : Bool) (assetId : Uuid) (requestedScope : VerificationScope) (draws : String)
  | checkVerification (token : String) (allowed : Bool) (assetId : Uuid) (resolveTxt : String → Option (List ResolverOutcome))
  | regenerateVerificationToken (token : String) (allowed : Bool) (assetId : Uuid) (draws : String)

variable {P}

def Route.run : Route P → Program Unit
  | .auth token allowed route => route.run P auth token allowed
  | .getVerification token assetId => Api.getVerification P auth token assetId
  | .createVerification token allowed assetId requestedScope draws =>
    Api.createVerification P auth settings token allowed assetId requestedScope draws
  | .checkVerification token allowed assetId resolveTxt => Api.checkVerification P auth settings token allowed assetId resolveTxt
  | .regenerateVerificationToken token allowed assetId draws =>
    Api.regenerateVerificationToken P auth settings token allowed assetId draws

def Route.caller : Route P → Option Caller
  | .auth _ _ route => route.caller
  | _ => none

theorem Route.safe (route : Route P) {s : State} (hs : s.noted = route.caller) : Safe s (route.run auth settings) := by
  cases route with
  | auth token allowed route => exact safe_authRoute route hs
  | getVerification => exact safe_getVerification
  | createVerification => exact safe_createVerification
  | checkVerification => exact safe_checkVerification
  | regenerateVerificationToken => exact safe_regenerateVerificationToken

end Requests

/-- Requests over the two pools. -/
abbrev Traffic (κ π : Type) := Pool Question Answer Engine κ π Connection Context (Except Exc Unit)

/-- A statement runs under the context of `who`, and reaches what belongs to it. -/
structure InContext (who : Caller) (e : Event Question Answer Context) : Prop where
  asserted : who.context e.question.engine = some e.view.gucs
  reaches : ∀ organizationId userId, who = .member organizationId userId → e.question.engine = .app →
    ∀ db row, Rls.Member db userId organizationId →
      (e.view.gucs.Reaches db row ↔ row ∈ db ∧ (row.BelongsTo organizationId ∨ row.PrivateTo userId))

theorem InContext.of_asserted {who : Caller} {e : Event Question Answer Context}
    (h : who.context e.question.engine = some e.view.gucs) : InContext who e where
  asserted := h
  reaches organizationId userId hwho happ db row hmember := by
    rw [hwho, happ] at h
    rw [← Option.some.inj h]
    exact Rls.Gucs.reaches_member hmember

section Runs
variable {κ π : Type} [DecidableEq κ] [DecidableEq π] {P : Primitives} {auth : Auth.Settings} {settings : Assets.Settings}
  {w₀ w : Traffic κ π} {routes : π → Route P}

/-- In every run of any requests: every statement runs with the privileges it needs; one on a tenant table runs under the
context of the caller that the database gave for its request before; and a connection that no transaction holds carries no
context. -/
theorem tenant_statements_in_context (h₀ : w₀.Start pools) (hroutes : ∀ i, w₀.proc i = ((routes i).run auth settings).run)
    (h : Pool.Run pools w₀ w) :
    (∀ i l e l', w.log i = l ++ e :: l' → e.question.statement.granted e.question.engine = true ∧
      (e.question.statement.tenant = true → ∃ who, watch.noted (routes i).caller l = some who ∧ InContext who e)) ∧
    ∀ c, (∀ i engine, w.held i engine ≠ some c) → (w.resource c).context.gucs = {} := by
  have hapart : w.Apart pools watch fun i => (routes i).caller := by
    refine Pool.Apart.of_run h₀ (fun i => ?_) h
    rw [hroutes i]
    exact wp_mono (fun _ _ _ => trivial) ((routes i).safe auth settings rfl)
  refine ⟨fun i l e l' hlog => ?_, fun c hidle => ?_⟩
  · obtain ⟨hgranted, hcontext⟩ := hapart.permitted i l e l' hlog
    refine ⟨hgranted, fun htenant => ?_⟩
    obtain ⟨who, hknown, hasserted⟩ := hcontext htenant
    exact ⟨who, hknown, .of_asserted hasserted⟩
  · have hfresh : (w.resource c).context = {} := hapart.idle hidle
    rw [hfresh]

end Runs

/-! Two members of different organizations, and one connection for each role. -/
namespace Handed

/-- The requests are told apart by whether they come first. -/
def routes (i : Bool) : Route Primitives.plain := .getVerification (if i then "first" else "second") 7

/-- The database knows the session of a member, and the asset belongs to nobody. -/
def answer (organizationId userId : Uuid) : (q : Question) → Answer q
  | ⟨_, .sessionBootstrap _⟩ => .ok (some ⟨userId, userId, organizationId, 0, 0, none, none, Time.seconds 60⟩)
  | ⟨_, .mfaState ..⟩ => .ok ⟨none, false, .member⟩
  | ⟨_, .assetFor _⟩ => .ok none
  | ⟨_, .setOrgContext ..⟩ | ⟨_, .setUserContext _⟩ | ⟨_, .sessionTouch _⟩ | ⟨_, .rollback⟩ | ⟨_, .close⟩ => .ok ()
  | _ => .error .other

def begin : Traffic Engine (Bool) where
  resource _ := {}
  proc i := ((routes i).run .shipped .shipped).run
  held _ _ := none
  log _ := []

theorem start : begin.Start pools := ⟨fun _ _ => rfl, fun _ => rfl, fun _ => rfl⟩

def turns (i : Bool) (organizationId userId : Uuid) (connections : List Engine) :
    List (Bool × Engine × ((q : Question) → Answer q)) :=
  connections.map fun c => (i, c, answer organizationId userId)

/-- The first request runs to its end, and then the second reads the asset over the same two connections. -/
def schedule : List (Bool × Engine × ((q : Question) → Answer q)) :=
  turns true 10 1 [.auth, .auth, .auth, .auth, .app, .app, .app, .app, .auth, .auth] ++
    turns false 20 2 [.auth, .auth, .auth, .auth, .app, .app]

/-- The last statement of the second request is on a tenant table, by a member of the second organization. -/
def readsAsset (w : Traffic Engine (Bool)) : Bool :=
  (w.log false).getLast?.any fun e => e.question.statement.tenant && decide (e.question.engine = .app) &&
    decide (watch.noted none (w.log false).dropLast = some (.member 20 2))

end Handed

open Handed in
/-- A connection goes from one organization to the other. -/
theorem tenant_statements_in_context_of_handed_on :
    ∃ (w : Traffic Engine (Bool)) (e : Event Question Answer Context), Pool.Run pools begin w ∧ e ∈ w.log false ∧
      e.question.engine = .app ∧ e.question.statement.tenant = true ∧ InContext (.member 20 2) e := by
  have run : (begin.play pools schedule).any readsAsset = true := by decide +kernel
  obtain ⟨w, hw, hlast⟩ := (Option.any_eq_true ..).1 run
  obtain ⟨e, he, hp⟩ := (Option.any_eq_true ..).1 hlast
  simp only [Bool.and_eq_true, decide_eq_true_eq] at hp
  obtain ⟨⟨htenant, happ⟩, hnoted⟩ := hp
  have hrun := Pool.Run.of_play hw
  have hlog : w.log false = (w.log false).dropLast ++ e :: [] := (List.dropLast_append_getLast? e he).symm
  have hroutes : ∀ i, begin.proc i = ((routes i).run .shipped .shipped).run := fun _ => rfl
  obtain ⟨-, hcontext⟩ := (tenant_statements_in_context start hroutes hrun).1 false _ e [] hlog
  obtain ⟨who, hwho, hin⟩ := hcontext htenant
  obtain rfl := Option.some.inj (hwho.symm.trans hnoted)
  exact ⟨w, e, hrun, List.mem_of_getLast? he, happ, htenant, hin⟩

end TestingPlatform.Api
