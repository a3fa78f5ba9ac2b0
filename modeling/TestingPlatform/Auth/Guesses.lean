import TestingPlatform.Auth.Assurance
import TestingPlatform.Lib.Lockout
import Mathlib.Algebra.Order.Ring.Int

/-!
# Guessing the second factor

`verify_mfa` and `disable_mfa` one after the other, none of them with a right code. What the counters of the
factor go through is a run of the escalating lockout (`Lockout.Run`), and so the lockouts bound how many codes
are compared in any span of time. That is so while every failure can be counted: nothing bounds the settings from above,
and a lockout that would end past `datetime.max` is never imposed (`admits_iff_countable`, `endless_lockout_never_imposed`).
-/

namespace TestingPlatform.Auth

open ReadCommitted

/-- The counters of a factor; a user without one has counted nothing. -/
def counters (d : Db) (u : Uuid) : Lockout.State :=
  match d.mfa.find u with
  | none => ⟨0, 0, none⟩
  | some row => ⟨row.failedCount, row.lockoutCount, row.lockedUntil⟩

/-- The lockouts of `_record_mfa_failure`: doubled every time, up to the cap. -/
def mfaPolicy (s : Settings) : Lockout.Policy where
  threshold := s.authMfaFailedThreshold
  duration k := Time.seconds (min (s.authMfaLockoutBaseSeconds * 2 ^ k) s.authMfaLockoutCapSeconds)

/-- A failure can be counted: the lockout that it imposes ends by `datetime.max`, and the counters fit their columns. -/
def Countable (s : Settings) (σ : Lockout.State) (now : Time) : Prop :=
  if s.authMfaFailedThreshold ≤ σ.failed + 1 then
    now + (mfaPolicy s).duration σ.lockouts ≤ Time.datetimeMax ∧ σ.lockouts < integerMax
  else σ.failed < integerMax

instance (s : Settings) (σ : Lockout.State) (now : Time) : Decidable (Countable s σ now) :=
  inferInstanceAs (Decidable (if s.authMfaFailedThreshold ≤ σ.failed + 1 then
    now + (mfaPolicy s).duration σ.lockouts ≤ Time.datetimeMax ∧ σ.lockouts < integerMax else σ.failed < integerMax))

/-- What a request answers that has had a code accepted. -/
def Event.accepts (u : Uuid) : Event → Bool
  | .steppedUp v .. | .completed v .. | .disabled v .. => v = u
  | _ => false

/-- What a request answers that has had a code compared, and has decided. -/
def Event.compares (u : Uuid) (e : Event) : Bool := e = .wrongCode u || e.accepts u

/-- A code has been compared: the request has decided by it, or counting the failure has raised. -/
def Proc.compares (u : Uuid) : Proc → Bool
  | .tail t => t.event.compares u
  | .refuse r => r = .uncounted u
  | _ => false

section Alone
variable (P : Primitives) (s : Settings) (d : Db) (r : Request)

/-- The request is alone and nothing interrupts it. -/
def Alone (w : Requests Unit) : Prop := (authentication P s).Run (fun _ a => a.2 = .go) (alone d r) w

/-- `_spend_code` compares a code of the request for the factor of the user. -/
def Compared (u : Uuid) : Prop := ∃ w, Alone P s d r w ∧ (w.proc ()).compares u = true

/-- `_spend_code` accepts the code. -/
def Accepted (u : Uuid) : Prop := ∃ w t, Alone P s d r w ∧ w.proc () = .tail t ∧ t.event.accepts u = true

end Alone

/-- Failing attempts at the factor of a user, one after the other on a clock that does not run back. -/
inductive Guessing (P : Primitives) (s : Settings) (u : Uuid) (d₀ : Db) : List Lockout.Attempt → Db → Prop
  | start : Guessing P s u d₀ [] d₀
  | attempt {as : List Lockout.Attempt} {d : Db} {w : Requests Unit} (h : Guessing P s u d₀ as d) (c : Call) (compared : Bool)
      (hcode : c.operation.code.isSome = true) (hnow : ∀ a ∈ as, a.now ≤ c.now) (hrun : Alone P s d (.call c) w)
      (hdone : w.proc () = .done) (hfails : ¬ Accepted P s d (.call c) u)
      (hcompared : compared = true ↔ Compared P s d (.call c) u) :
      Guessing P s u d₀ (as ++ [⟨c.now, counters d u, compared, counters w.db u⟩]) w.db

/-! ### How a failure is counted -/

/-- A tail that counts a wrong code: it has found the factor open, and nothing can keep it from its commit. -/
structure Counting (d : Db) (u : Uuid) (t : Tail) : Prop where
  unlocked : ∃ row, d.mfa.find u = some row ∧ mfaLocked row t.request.now = false
  todo : ∀ stmt ∈ t.todo, ∃ v c, stmt = .updateMfa v c

/-- What a request finds out about a code that it compares. -/
structure Proc.Counts (s : Settings) (d : Db) (r : Request) (p : Proc) : Prop where
  request : ∀ r', p.request = some r' → r' = r
  counting : ∀ t u, p = .tail t → t.event = .wrongCode u → Counting d u t
  /-- Where counting raises, the factor was open too. -/
  uncounted : ∀ u, p = .refuse (.uncounted u) → ∃ row, d.mfa.find u = some row ∧ recordMfaFailure s row r.now = none

section Counts
variable {P : Primitives} {s : Settings} {held : Lock → Prop} {d : Db} {p : Proc} {r : Request}

theorem Begins.counts {t : Tail} {u : Uuid} (h : Begins P s d p t) (he : t.event = .wrongCode u) : Counting d u t := by
  cases h with
  | @wrongCode _ c current row _ hp htries =>
    cases he
    refine ⟨⟨row, htries.stored, htries.unlocked⟩, fun stmt hstmt => ?_⟩
    simp only [Call.tail, updateMfa] at hstmt
    split at hstmt
    · cases hstmt
    · exact ⟨_, _, List.mem_singleton.1 hstmt⟩
  | _ => cases he

theorem uncounted_next {m : Step} {u : Uuid} (h : go P s d p = some m) (hA : p.Holds P s held d)
    (hnext : m.next = .refuse (.uncounted u)) : ∃ c current row, p.call = some (c, current) ∧ Tries P d c current row ∧
      row.userId = u ∧ recordMfaFailure s row c.now = none := by
  have hleads := go_leads h hA
  rw [hnext] at hleads
  cases hleads with
  | refused _ hr => exact absurd rfl (hr u)
  | uncounted hp htries hnone => exact ⟨_, _, _, hp, htries, rfl, hnone⟩
  | lookedUp _ _ _ _ _ _ _ hq => split at hq <;> cases hq
  | undecided _ hq => cases hq

theorem counts_next {m : Step} (h : go P s d p = some m) (hA : p.Holds P s held d) (hp : p.Counts s d r) : m.next.Counts s d r := by
  constructor
  · exact fun r' hr => hp.request r' (request_next h hA hr)
  · intro t' u ht he
    rcases go_begins h hA ht with ⟨t, rfl, rfl⟩ | hbegins
    · obtain ⟨-, hevent, hrequest⟩ := plan_step ht
      obtain ⟨hunlocked, htodo⟩ := hp.counting t u rfl (hevent ▸ he)
      refine ⟨hrequest ▸ hunlocked, ?_⟩
      obtain ⟨first, rest, heq, ⟨-, -, -, -, rfl⟩ | ⟨todo, ho, -, -⟩⟩ := tail_step ht
      · exact fun stmt hstmt => htodo stmt (heq ▸ List.mem_cons_of_mem _ hstmt)
      · obtain ⟨v, change, rfl⟩ := htodo first (heq ▸ List.mem_cons_self)
        cases ho
    · exact hbegins.counts he
  · intro u hnext
    obtain ⟨c, current, row, hcall, htries, rfl, hnone⟩ := uncounted_next h hA hnext
    rw [← hp.request _ (request_of_call hcall)]
    exact ⟨row, htries.stored, hnone⟩

end Counts

/-! ### A request alone -/

section Runs
variable {P : Primitives} {s : Settings} {d : Db} {r : Request} {v w : Requests Unit} {u : Uuid} {t : Tail} {c : Call}

theorem Alone.run (h : Alone P s d r w) : (authentication P s).Run (fun _ _ => True) (alone d r) w :=
  System.Run.mono h fun _ _ _ => trivial

/-- Up to its commit the request sees the database that it has begun with. -/
theorem Alone.db_eq (h : Alone P s d r w) (hp : w.proc () ≠ .done) : w.db = d := by
  cases alone_at h.run with
  | before hdb => exact hdb
  | after hdone => exact absurd hdone hp

/-- The request is the only process. -/
theorem alone_iff : Alone P s d r w ↔ (authentication P s).Run (fun _ a => a = ((), .go)) (alone d r) w :=
  ⟨fun h => h.mono fun _ _ ha => Prod.ext rfl ha, fun h => h.mono fun _ _ ha => by rw [ha]⟩

theorem step_of_done (hdone : w.proc () = .done) : (authentication P s).step w ((), .go) = none :=
  System.step_of_ended (by rw [hdone]; rfl)

theorem Alone.onward (hv : Alone P s d r v) (hw : Alone P s d r w) (hdone : w.proc () = .done) :
    (authentication P s).Run (fun _ a => a.2 = .go) v w :=
  ((alone_iff.1 hv).onward (alone_iff.1 hw) (step_of_done hdone)).mono fun _ _ ha => by rw [ha]

theorem Alone.counts (h : Alone P s d r w) : (w.proc ()).Counts s d r := by
  have hend : Proc.done.Counts s d r := ⟨fun _ he => (by cases he), fun _ _ he => (by cases he), fun _ he => by cases he⟩
  have hentry : r.entry.Counts s d r := by
    cases r <;> exact ⟨fun _ he => (Option.some.inj he).symm, fun _ _ he => (by cases he), fun _ he => by cases he⟩
  have hkept := kept_of_run (I := Proc.Counts s d r) hentry hend (fun _ _ _ hA hgo hI => counts_next hgo hA hI) h.run
  cases hkept with
  | before _ _ hproc => exact hproc
  | after hdone =>
    rw [hdone]
    exact hend

theorem wrongCode_committed (hv : v.proc () = .tail t) (he : t.event = .wrongCode u) (htodo : ∀ stmt ∈ t.todo, ∃ v c, stmt = .updateMfa v c)
    (h : (authentication P s).Run (fun _ a => a.2 = .go) v w) (hdone : w.proc () = .done) : .wrongCode u ∈ w.trace := by
  have hinv : (∃ t, w.proc () = .tail t ∧ t.event = .wrongCode u ∧ ∀ stmt ∈ t.todo, ∃ v c, stmt = .updateMfa v c) ∨
      .wrongCode u ∈ w.trace := by
    refine h.invariant (I := fun w : Requests Unit => (∃ t, w.proc () = .tail t ∧ t.event = .wrongCode u ∧
      ∀ stmt ∈ t.todo, ∃ v c, stmt = .updateMfa v c) ∨ .wrongCode u ∈ w.trace) (.inl ⟨t, hv, he, htodo⟩) fun x i ch m hI hgo hm => ?_
    rw [System.proc_after_self, System.trace_after]
    cases hgo
    rcases hI with ⟨t, hp, he, htodo⟩ | htrace
    · have hmove := hm.1
      rw [hp] at hmove
      cases hmove
      unfold Tail.step
      split
      · exact .inr (by simp [he])
      next stmt rest heq =>
        obtain ⟨v, change, rfl⟩ := htodo stmt (heq ▸ List.mem_cons_self)
        exact .inl ⟨_, rfl, he, fun stmt hstmt => htodo stmt (heq ▸ List.mem_cons_of_mem _ hstmt)⟩
    · exact .inr (List.mem_append_left _ htrace)
  rcases hinv with ⟨t, hp, -⟩ | htrace
  · rw [hdone] at hp
    cases hp
  · exact htrace

theorem refuse_unchanged {reason : Refusal} (hv : v.proc () = .refuse reason) (h : (authentication P s).Run (fun _ a => a.2 = .go) v w) :
    w.db = v.db := by
  have hinv : (w.proc () = .refuse reason ∨ w.proc () = .done) ∧ w.db = v.db := by
    refine h.invariant (I := fun w : Requests Unit => (w.proc () = .refuse reason ∨ w.proc () = .done) ∧ w.db = v.db) ⟨.inl hv, rfl⟩
      fun x i ch m hI hgo hm => ?_
    cases hgo
    have hmove := hm.1
    rcases hI with ⟨hp | hp, hdb⟩
    · rw [hp] at hmove
      cases hmove
      exact ⟨.inr System.proc_after_self, hdb⟩
    · rw [hp] at hmove
      cases hmove
  exact hinv.2

theorem Alone.decides (h : Alone P s d r w) {e : Event} (he : e ∈ w.trace) :
    (∃ r, e = .refused r) ∨ ∃ v t, Alone P s d r v ∧ v.proc () = .tail t ∧ t.event = e := by
  have hrun := System.Run.using h fun {x} (hx : Alone P s d r x) => hx
  refine hrun.invariant (I := fun w => ∀ e ∈ w.trace, (∃ r, e = .refused r) ∨
    ∃ v t, Alone P s d r v ∧ v.proc () = .tail t ∧ t.event = e) (fun e he => by cases he) (fun x i ch m hI ⟨_, hx⟩ hm e he => ?_) e he
  rcases List.mem_append.1 he with he | he
  · exact hI e he
  · rcases fires_cases (outline_of_run (start_alone d r) hx.run i) hm with ⟨t, hp, -, -, rfl, -⟩ | ⟨-, hemit, -⟩
    · exact .inr ⟨x, t, hx, hp, (List.mem_singleton.1 he).symm⟩
    · exact .inl (hemit e he)

/-! ### One attempt -/

theorem recordMfaFailure_isSome_iff {row : UserMfa} {now : Time} : (∃ change, recordMfaFailure s row now = some change) ↔
    Countable s ⟨row.failedCount, row.lockoutCount, row.lockedUntil⟩ now := by
  unfold recordMfaFailure Countable Time.plusSeconds mfaPolicy
  dsimp only
  split_ifs <;> simp_all

theorem set_recordMfaFailure_counters {row : UserMfa} {now : Time} {change : MfaChange}
    (h : recordMfaFailure s row now = some change) :
    (⟨(row.set change).failedCount, (row.set change).lockoutCount, (row.set change).lockedUntil⟩ : Lockout.State) =
      (mfaPolicy s).fail ⟨row.failedCount, row.lockoutCount, row.lockedUntil⟩ now := by
  unfold Lockout.Policy.fail mfaPolicy
  dsimp only
  rcases recordMfaFailure_cases h with ⟨hfull, lockedUntil, -, hend, rfl⟩ | ⟨hopen, -, rfl⟩
  · rw [if_pos hfull, (Time.plusSeconds_eq_some.1 hend).2]
    rfl
  · rw [if_neg (Nat.not_le_of_lt hopen)]
    rfl

theorem Decided.code_event {held : Lock → Prop} {e : Event} {plan : List Write} (hd : Decided P s held d (.call c) e plan)
    (hcode : c.operation.code.isSome = true) (hfactor : e.factor = some u) : e.compares u = true := by
  have other : ∀ {o : Operation}, c.operation = o → o.code = none → False := fun hop hnone => by
    rw [hop, hnone] at hcode
    cases hcode
  cases hd with
  | loggedOut | passwordChanged | regenerated => cases hfactor
  | enrolled _ hop => exact (other hop rfl).elim
  | reenrolled _ _ hop => exact (other hop rfl).elim
  | confirmed _ hop => exact (other hop rfl).elim
  | wrongCode | steppedUp | completed | disabled =>
    cases Option.some.inj hfactor
    simp [Event.compares, Event.accepts]

theorem Accepted.accepts (h : Accepted P s d (.call c) u) : ∃ row code spent, d.mfa.find u = some row ∧
    c.operation.code = some code ∧ Accepts P d c row code spent := by
  obtain ⟨v, t, hv, hp, haccepts⟩ := h
  have hholds : (v.proc ()).Holds P s (fun k => v.owner k = some ()) v.db := outline_of_run (start_alone d _) hv.run ()
  rw [hp, hv.db_eq (by rw [hp]; exact fun he => by cases he)] at hholds
  have hdecided := hholds.decided
  have hrequest : Request.call c = t.request :=
    Option.some.inj (request_of_run (start_alone d _) hv.run () (r := t.request) (by rw [hp]; rfl))
  rw [← hrequest] at hdecided
  have spends : ∀ {current : AuthenticatedSession} {row : UserMfa} {spent : Spent},
      Spends P (fun k => v.owner k = some ()) d c current row spent → row.userId = u → ∃ row code spent,
        d.mfa.find u = some row ∧ c.operation.code = some code ∧ Accepts P d c row code spent := fun {_ row spent} hs hu => by
    obtain ⟨code, hcode, hacc⟩ := hs.accepts
    exact ⟨row, code, spent, hu ▸ hs.stored, hcode, hacc⟩
  generalize t.event = e at hdecided haccepts
  generalize t.plan = plan at hdecided
  cases hdecided with
  | steppedUp hspends | completed hspends | disabled hspends => exact spends hspends (of_decide_eq_true haccepts)
  | _ => cases haccepts

/-- A wrong code that has been decided on finds the factor open and counts the failure. -/
theorem failed_effect (hrun : Alone P s d (.call c) w) (hdone : w.proc () = .done) (hv : Alone P s d (.call c) v)
    (hp : v.proc () = .tail t) (hwrong : t.event = .wrongCode u) : ∃ row change, d.mfa.find u = some row ∧
      mfaLocked row c.now = false ∧ recordMfaFailure s row c.now = some change ∧ w.db.mfa.find u = some (row.set change) := by
  have hcounts := hv.counts
  obtain ⟨⟨row, hrow, hopen⟩, htodo⟩ := hcounts.counting t u hp hwrong
  have hrequest := hcounts.request t.request (by rw [hp]; rfl)
  rw [hrequest] at hopen
  have htrace := wrongCode_committed hp hwrong htodo (hv.onward hrun hdone) hdone
  cases alone_at hrun.run with
  | before _ hrefused =>
    obtain ⟨reason, hr⟩ := hrefused _ htrace
    cases hr
  | @after t' held refused _ hdb heq hrefused _ _ _ hdecided =>
    have he : .wrongCode u = t'.event := by
      rw [heq] at htrace
      rcases List.mem_append.1 htrace with hmem | hmem
      · obtain ⟨reason, hr⟩ := hrefused _ hmem
        cases hr
      · exact List.mem_singleton.1 hmem
    rw [← he] at hdecided
    generalize hplan : t'.writes.filter Write.planned = plan at hdecided
    cases hdecided with
    | @wrongCode _ current row' change hfactor hcounted =>
      cases hrow.symm.trans hfactor.stored
      refine ⟨row, change, hrow, hopen, hcounted, ?_⟩
      rw [hdb]
      exact find_changed (by rw [hplan]; simp) hfactor.stored

/-- A failing comparison is counted as the policy has it exactly when it can be counted; otherwise nothing changes. -/
theorem admits_iff_countable (hrun : Alone P s d (.call c) w) (hdone : w.proc () = .done) (hfails : ¬ Accepted P s d (.call c) u)
    (hcompared : Compared P s d (.call c) u) :
    (mfaPolicy s).Admits ⟨c.now, counters d u, true, counters w.db u⟩ ↔ Countable s (counters d u) c.now := by
  obtain ⟨v, hv, hcompares⟩ := hcompared
  cases hp : v.proc () with
  | tail t =>
    rw [hp] at hcompares
    have hwrong : t.event = .wrongCode u := by
      rcases Bool.or_eq_true_iff.1 hcompares with he | haccepts
      · exact of_decide_eq_true he
      · exact absurd ⟨v, t, hv, hp, haccepts⟩ hfails
    obtain ⟨row, change, hrow, hopen, hcounted, hrow'⟩ := failed_effect hrun hdone hv hp hwrong
    simp only [Lockout.Policy.Admits, counters, hrow, hrow', if_true]
    exact iff_of_true ⟨hopen, set_recordMfaFailure_counters hcounted⟩ (recordMfaFailure_isSome_iff.1 ⟨change, hcounted⟩)
  | refuse reason =>
    rw [hp] at hcompares
    have hreason : reason = .uncounted u := of_decide_eq_true hcompares
    obtain ⟨row, hrow, hnone⟩ := hv.counts.uncounted u (by rw [hp, hreason])
    have hdb : w.db = d := (refuse_unchanged hp (hv.onward hrun hdone)).trans (hv.db_eq (by rw [hp]; exact fun he => by cases he))
    simp only [Lockout.Policy.Admits, counters, hdb, hrow, if_true]
    refine iff_of_false (fun hadmits => ?_) fun hcountable => ?_
    · rcases (mfaPolicy s).fail_cases ⟨row.failedCount, row.lockoutCount, row.lockedUntil⟩ c.now with ⟨-, hfail⟩ | ⟨-, hfail⟩
      · rw [hfail] at hadmits
        exact absurd (congrArg Lockout.State.failed hadmits.2) (Nat.succ_ne_self _).symm
      · rw [hfail] at hadmits
        exact absurd (congrArg Lockout.State.lockouts hadmits.2) (Nat.succ_ne_self _).symm
    · obtain ⟨change, hcounted⟩ := recordMfaFailure_isSome_iff.2 hcountable
      cases hnone.symm.trans hcounted
  | _ =>
    rw [hp] at hcompares
    cases hcompares

theorem silent_effect (hcode : c.operation.code.isSome = true) (hrun : Alone P s d (.call c) w)
    (hsilent : ¬ Compared P s d (.call c) u) : w.db.mfa.find u = d.mfa.find u := by
  cases alone_at hrun.run with
  | before hdb => rw [hdb]
  | @after t held refused _ hdb htrace hrefused _ _ _ hdecided =>
    have hnone : t.event.factor ≠ some u := by
      intro hfactor
      have hcompares := hdecided.code_event hcode hfactor
      rcases hrun.decides (e := t.event) (by simp [htrace]) with ⟨reason, hr⟩ | ⟨v, t', hv, hp, he⟩
      · rw [hr] at hfactor
        cases hfactor
      · refine hsilent ⟨v, hv, ?_⟩
        rw [hp, Proc.compares, he]
        exact hcompares
    rw [hdb]
    cases factor_commit hdecided u with
    | other _ h => exact h
    | enrolled he => exact absurd (by rw [he]; rfl) hnone
    | stepped hrow _ hsteps =>
      refine absurd ?_ hnone
      cases Table.key_of_find hrow
      generalize t.event = e at hsteps
      cases hsteps <;> rfl

theorem accepted_effect (hrun : Alone P s d (.call c) w) {e : Event} (he : e ∈ w.trace) (haccepts : e.accepts u = true) :
    counters w.db u = ⟨0, 0, none⟩ := by
  cases alone_at hrun.run with
  | before _ hrefused =>
    obtain ⟨reason, rfl⟩ := hrefused e he
    cases haccepts
  | @after t held refused _ hdb htrace hrefused _ _ _ hdecided =>
    have heq : e = t.event := by
      rw [htrace] at he
      rcases List.mem_append.1 he with hmem | hmem
      · obtain ⟨reason, rfl⟩ := hrefused e hmem
        cases haccepts
      · exact List.mem_singleton.1 hmem
    subst heq
    rw [hdb]
    unfold counters
    cases factor_commit hdecided u with
    | other hne =>
      refine absurd ?_ hne
      cases he' : t.event <;> rw [he'] at haccepts <;> first | cases haccepts | exact congrArg some (of_decide_eq_true haccepts)
    | enrolled he' =>
      rw [he'] at haccepts
      cases haccepts
    | stepped _ hrow' hsteps =>
      rw [hrow']
      generalize t.event = e at hsteps haccepts
      cases hsteps with
      | confirmed | wrongCode => cases haccepts
      | steppedUp | completed | disabled => rfl

/-! ### A run of attempts -/

theorem Guessing.run {d₀ : Db} {as : List Lockout.Attempt} (h : Guessing P s u d₀ as d)
    (hcountable : ∀ a ∈ as, a.compared = true → Countable s a.found a.now) :
    Lockout.Run (mfaPolicy s) (counters d₀ u) as (counters d u) := by
  induction h with
  | start => exact .start
  | @attempt as d w _ c compared hcode hnow hrun hdone hfails hcompared ih =>
    have hrun' := ih fun a ha => hcountable a (List.mem_append_left _ ha)
    refine .attempt hrun' ⟨c.now, counters d u, compared, counters w.db u⟩ hnow rfl ?_
    cases compared with
    | true => exact (admits_iff_countable hrun hdone hfails (hcompared.1 rfl)).2 (hcountable _ (List.mem_append_right _ (List.mem_singleton_self _)) rfl)
    | false =>
      have hsame := silent_effect (u := u) hcode hrun fun h => Bool.false_ne_true (hcompared.2 h)
      simp [Lockout.Policy.Admits, counters, hsame]

theorem mfaPolicy_durations (hbase : 0 ≤ s.authMfaLockoutBaseSeconds)
    (hcap : s.authMfaLockoutBaseSeconds ≤ s.authMfaLockoutCapSeconds) (k : Nat) :
    Time.seconds s.authMfaLockoutBaseSeconds ≤ (mfaPolicy s).duration k ∧
      (mfaPolicy s).duration k ≤ (mfaPolicy s).duration (k + 1) ∧
      (mfaPolicy s).duration k ≤ Time.seconds s.authMfaLockoutCapSeconds := by
  have hpow : s.authMfaLockoutBaseSeconds * 1 ≤ s.authMfaLockoutBaseSeconds * 2 ^ k :=
    Int.mul_le_mul_of_nonneg_left (one_le_pow₀ (by decide)) hbase
  have hnext : s.authMfaLockoutBaseSeconds * 2 ^ (k + 1) = 2 * (s.authMfaLockoutBaseSeconds * 2 ^ k) := by
    rw [pow_succ, ← mul_assoc, mul_comm]
  have seconds : ∀ {a b : Int}, a ≤ b → Time.seconds a ≤ Time.seconds b := fun h =>
    Int.mul_le_mul_of_nonneg_right h (by decide)
  simp only [mfaPolicy, hnext]
  exact ⟨seconds (by omega), seconds (by omega), seconds (by omega)⟩

/-- However the factor stands: in failing attempts one after the other, each of which can be counted where a code is
compared, no code is compared while it is locked, there are exactly as many comparisons from one lockout to the next as
the threshold, each lockout lasts twice as long as the one before up to the cap, and in a span of time with `m` lockouts
at most `threshold * (m + 1)` codes are compared, while the first `m - 1` of them have run their time. Only a code that
is accepted takes the escalation back. -/
theorem mfa_lockout_bounds {d₀ : Db} {as : List Lockout.Attempt} (hthreshold : 1 ≤ s.authMfaFailedThreshold)
    (hbase : 0 ≤ s.authMfaLockoutBaseSeconds) (hcap : s.authMfaLockoutBaseSeconds ≤ s.authMfaLockoutCapSeconds)
    (h : Guessing P s u d₀ as d) (hcountable : ∀ a ∈ as, a.compared = true → Countable s a.found a.now) :
    Lockout.Bounds (mfaPolicy s) (counters d₀ u) as ∧
      (∀ k, Time.seconds s.authMfaLockoutBaseSeconds ≤ (mfaPolicy s).duration k ∧
        (mfaPolicy s).duration k ≤ (mfaPolicy s).duration (k + 1) ∧
        (mfaPolicy s).duration k ≤ Time.seconds s.authMfaLockoutCapSeconds) ∧
      ∀ c w, Alone P s d (.call c) w → ∀ e ∈ w.trace, e.accepts u = true → counters w.db u = ⟨0, 0, none⟩ :=
  ⟨(h.run hcountable).bounds hthreshold, mfaPolicy_durations hbase hcap, fun _ _ hrun _ he haccepts => accepted_effect hrun he haccepts⟩

end Runs

namespace Attempts

/-- A recovery code that does not exist. -/
def wrong : Call := ⟨"first", Time.seconds 62, .verifyMfa (.recovery "0000-0000") { id := 80, token := "eighth" }⟩

/-- Within the bounds of the fields, and the cap is not below the base. -/
def endless : Settings := { Settings.shipped with
  authMfaFailedThreshold := 1
  authMfaLockoutBaseSeconds := 1000000000000
  authMfaLockoutCapSeconds := 1000000000000 }

theorem wrong_fails (s : Settings) : ¬ Accepted Primitives.plain s Replay.db (.call wrong) 1 := by
  intro haccepted
  obtain ⟨row, code, spent, -, hcode, hacc⟩ := haccepted.accepts
  cases hcode
  cases hacc with
  | recovery hlive => cases hlive

theorem wrong_compared {s : Settings} (h : ((authentication Primitives.plain s).exec (fun _ a => a.2 = .go) (alone Replay.db (.call wrong))
    (steps () 5)).any (fun w => (w.proc ()).compares 1) = true) : Compared Primitives.plain s Replay.db (.call wrong) 1 :=
  System.Run.of_exec_any h

def ended (w : Requests Unit) : Bool := match w.proc () with | .done => true | _ => false

theorem done_of_ended {w : Requests Unit} (h : ended w = true) : w.proc () = .done := by
  unfold ended at h
  split at h
  · assumption
  · cases h

end Attempts

open Attempts in
/-- A recovery code that does not exist is one comparison. -/
theorem mfa_lockout_bounds_of_wrong_code : ∃ as d, Guessing Primitives.plain Settings.shipped 1 Replay.db as d ∧
    Lockout.compared as = 1 ∧ Lockout.Bounds (mfaPolicy Settings.shipped) (counters Replay.db 1) as := by
  have run : ((authentication Primitives.plain Settings.shipped).exec (fun _ a => a.2 = .go) (alone Replay.db (.call wrong))
      (steps () 7)).any ended = true := by
    decide +kernel
  obtain ⟨w, hw, hended⟩ := System.Run.of_exec_any run
  have hcompared := wrong_compared (s := Settings.shipped) (by decide +kernel)
  have h := Guessing.start.attempt wrong true rfl (by simp) hw (done_of_ended hended) (wrong_fails _) (iff_of_true rfl hcompared)
  have hcountable : Countable Settings.shipped (counters Replay.db 1) wrong.now := by decide
  exact ⟨_, _, h, rfl, (mfa_lockout_bounds (by decide) (by decide) (by decide) h fun a ha _ => by
    rw [List.mem_singleton.1 ha]
    exact hcountable).1⟩

open Attempts in
/-- The lockout at the threshold would end past `datetime.max`: the failure is rolled back, and the next code is compared too. -/
theorem endless_lockout_never_imposed : ∃ as d, Guessing Primitives.plain endless 1 Replay.db as d ∧ Lockout.compared as = 2 ∧
    Lockout.lockouts as = [] ∧ ¬ Lockout.Bounds (mfaPolicy endless) (counters Replay.db 1) as := by
  have run : ((authentication Primitives.plain endless).exec (fun _ a => a.2 = .go) (alone Replay.db (.call wrong))
      (steps () 6)).any ended = true := by
    decide +kernel
  obtain ⟨w, hw, hended⟩ := System.Run.of_exec_any run
  have hdone := done_of_ended hended
  have hcompared := wrong_compared (s := endless) (by decide +kernel)
  have hdb : w.db = Replay.db := by
    have run' : ((authentication Primitives.plain endless).exec (fun _ a => a.2 = .go) (alone Replay.db (.call wrong))
        (steps () 5)).any (fun w => match w.proc () with | .refuse _ => true | _ => false) = true := by
      decide +kernel
    obtain ⟨v, hv, hrefused⟩ := System.Run.of_exec_any run'
    cases hp : v.proc () with
    | refuse reason =>
      exact (refuse_unchanged hp (Alone.onward hv hw hdone)).trans (Alone.db_eq hv (by rw [hp]; exact fun he => by cases he))
    | _ => simp [hp] at hrefused
  have h := Guessing.start.attempt wrong true rfl (by simp) hw hdone (wrong_fails _) (iff_of_true rfl hcompared)
  rw [hdb] at h
  have h' := h.attempt wrong true rfl (by simp) hw hdone (wrong_fails _) (iff_of_true rfl hcompared)
  rw [hdb] at h'
  refine ⟨_, _, h', rfl, by decide, fun hbounds => ?_⟩
  have hspan := hbounds.span_compared 0 wrong.now
  revert hspan
  decide

end TestingPlatform.Auth
