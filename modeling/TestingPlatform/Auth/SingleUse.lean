import TestingPlatform.Auth.Enrollment
import TestingPlatform.Auth.Steps
import TestingPlatform.Lib.Once

/-!
# Second-factor codes are single use

While the row of the factor is locked nobody else reads or moves `last_used_step`, so every accepted step is
above all steps accepted before; and a recovery code is accepted by the commit that makes its row unusable,
which only one commit does. What a request grants for a code it grants in that same commit. Only `enroll_mfa`
takes the step of a factor back, so the life of a factor is a stretch of the trace without an enrollment.
-/

namespace TestingPlatform.Auth

open ReadCommitted

/-! ### Accepted codes -/

/-- The code that an answer has accepted, and whose. -/
def Event.spent : Event → Option (Uuid × Spent)
  | .confirmed u _ step => some (u, .step step)
  | .steppedUp u spent _ | .completed u spent _ _ | .disabled u spent _ => some (u, spent)
  | _ => none

/-- The step that an answer has accepted for the user. -/
def Event.step (v : Uuid) (e : Event) : Option Int :=
  match e.spent with
  | some (u, .step n) => if u = v then some n else none
  | _ => none

/-- The steps accepted for the user, oldest first; the first of a factor is the one that confirmed it. -/
def acceptedSteps (v : Uuid) (trace : List Event) : List Int := trace.filterMap (Event.step v)

def Event.spendsRecovery (v : Uuid) (codeHash : Bytes) (e : Event) : Bool := e.spent = some (v, .recovery codeHash)

/-- The last step that a confirmed factor has used. -/
def usedStep (d : Db) (v : Uuid) : Option Int :=
  (d.mfa.find v).bind fun row => if row.confirmedAt.isSome then row.lastUsedStep else none

theorem step_eq_none {e : Event} {v : Uuid} (h : e.factor ≠ some v) : e.step v = none := by
  cases e with
  | confirmed u => exact if_neg fun he => h (congrArg some he)
  | steppedUp u spent | completed u spent | disabled u spent =>
    have hne : u ≠ v := fun he => h (congrArg some he)
    cases spent with
    | step n => exact if_neg hne
    | recovery => rfl
  | _ => rfl

theorem acceptedSteps_append (v : Uuid) (l l' : List Event) : acceptedSteps v (l ++ l') = acceptedSteps v l ++ acceptedSteps v l' :=
  List.filterMap_append

theorem acceptedSteps_refused {v : Uuid} {emit : List Event} (h : ∀ e ∈ emit, ∃ r, e = .refused r) : acceptedSteps v emit = [] := by
  refine List.filterMap_eq_nil_iff.2 fun e he => ?_
  obtain ⟨r, rfl⟩ := h e he
  rfl

/-! ### Steps -/

/-- The steps accepted in the life of a factor so far: the row has used them, or the factor is over. -/
structure StepsUsed (row : Option UserMfa) (steps : List Int) : Prop where
  increasing : steps.Pairwise (· < ·)
  used : ∀ row' ∈ row, row'.confirmedAt.isSome = true → ∀ n ∈ steps, ∃ l, row'.lastUsedStep = some l ∧ n ≤ l
  ended : ∀ row' ∈ row, row'.confirmedAt = none → steps ≠ [] → row'.totpSecretCiphertext = none

theorem StepsUsed.nil (row : Option UserMfa) : StepsUsed row [] :=
  ⟨.nil, fun _ _ _ n hn => (by cases hn), fun _ _ _ hne => absurd rfl hne⟩

section Row
variable {P : Primitives} {s : Settings} {d : Db} {row row' : UserMfa} {e : Event} {steps : List Int}

theorem StepsUsed.extend (h : StepsUsed (some row) steps) (hconf : row.confirmedAt.isSome = true) {n : Int}
    (hnew : ∀ l ∈ row.lastUsedStep, l < n) : (steps ++ [n]).Pairwise (· < ·) := by
  refine List.pairwise_append.2 ⟨h.increasing, List.pairwise_singleton .., fun a ha b hb => ?_⟩
  cases List.mem_singleton.1 hb
  obtain ⟨l, hl, hle⟩ := h.used row rfl hconf a ha
  have hlt := hnew l hl
  omega

theorem StepsUsed.accept (h : StepsUsed (some row) steps) {spent : Spent} (hconf : row.confirmedAt.isSome = true)
    (hnew : row.Newer spent) (hconf' : row'.confirmedAt.isSome = true)
    (hused : row'.lastUsedStep = match spent with | .step n => some n | .recovery _ => row.lastUsedStep) :
    StepsUsed (some row') (steps ++ match spent with | .step n => [n] | .recovery _ => []) := by
  have standing : ∀ row'' ∈ some row', row''.confirmedAt = none → False := fun row'' hr hn => by
    cases hr
    rw [hn] at hconf'
    cases hconf'
  cases spent with
  | step n =>
    refine ⟨h.extend hconf (hnew n rfl), fun row'' hr _ a ha => ?_, fun row'' hr hn => (standing row'' hr hn).elim⟩
    cases hr
    refine ⟨n, hused, ?_⟩
    rcases List.mem_append.1 ha with ha | ha
    · obtain ⟨l, hl, hle⟩ := h.used row rfl hconf a ha
      have hlt := hnew n rfl l hl
      omega
    · cases List.mem_singleton.1 ha
      exact Int.le_refl n
  | recovery code =>
    rw [List.append_nil]
    refine ⟨h.increasing, fun row'' hr _ a ha => ?_, fun row'' hr hn => (standing row'' hr hn).elim⟩
    cases hr
    rw [hused]
    exact h.used row rfl hconf a ha

theorem StepsUsed.next (h : StepsUsed (some row) steps) (hs : row.Steps P s d e row') :
    StepsUsed (some row') (steps ++ (e.step row.userId).toList) := by
  cases hs with
  | @confirmed secret step now hpending hseed =>
    -- a pending factor with a seed has accepted nothing yet
    have hnone : steps = [] := by
      by_contra hne
      have hsecret := h.ended row rfl hpending hne
      rw [seed, hsecret] at hseed
      cases hseed
    subst hnone
    have hstep : Event.step row.userId (.confirmed row.userId secret step) = some step := if_pos rfl
    rw [hstep]
    refine ⟨List.pairwise_singleton .., fun row'' hr _ n hn => ?_, fun row'' hr hn => by cases hr; cases hn⟩
    cases hr
    cases List.mem_singleton.1 hn
    exact ⟨step, rfl, Int.le_refl step⟩
  | wrongCode hcounted =>
    obtain ⟨hcipher, hat, hused⟩ := set_recordMfaFailure hcounted
    rw [show Event.step row.userId (.wrongCode row.userId) = none from rfl, Option.toList_none, List.append_nil]
    refine ⟨h.increasing, fun row'' hr hc n hn => ?_, fun row'' hr hn hne => ?_⟩
    · cases hr
      rw [hused]
      exact h.used row rfl (hat ▸ hc) n hn
    · cases hr
      rw [hcipher]
      exact h.ended row rfl (hat ▸ hn) hne
  | @steppedUp spent _ hconf hnew | @completed spent _ _ hconf hnew =>
    have haccept := h.accept hconf hnew (show (row.set (acceptChange spent)).confirmedAt.isSome = true from hconf)
      (by cases spent <;> rfl)
    cases spent <;> simpa [Event.step, Event.spent] using haccept
  | @disabled spent _ hconf hnew =>
    refine ⟨?_, fun row'' hr hc => (by cases hr; cases hc), fun row'' hr _ _ => (by cases hr; rfl)⟩
    cases spent with
    | step n => simpa [Event.step, Event.spent] using h.extend hconf (hnew n rfl)
    | recovery code => simpa [Event.step, Event.spent] using h.increasing

end Row

theorem StepsUsed.commit {P : Primitives} {s : Settings} {d d' : Db} {e : Event} {v : Uuid} {steps : List Int}
    (h : StepsUsed (d.mfa.find v) steps) (hc : FactorEffect P s d d' e v) (he : ∀ secret, e ≠ .enrolled v secret) :
    StepsUsed (d'.mfa.find v) (steps ++ (e.step v).toList) := by
  cases hc with
  | other hv hrow =>
    rw [step_eq_none hv, hrow, Option.toList_none, List.append_nil]
    exact h
  | @enrolled secret hv _ => exact absurd hv (he secret)
  | @stepped row row' hrow hrow' hsteps =>
    cases Table.key_of_find hrow
    rw [hrow']
    rw [hrow] at h
    exact h.next hsteps

/-! ### Recovery codes -/

/-- The code is on record and can no longer be used. -/
def CodeGone (v : Uuid) (h : Bytes) (d : Db) : Prop := ∃ row, d.codes.find (v, h) = some row ∧ row.live = false

section Gone
variable {v : Uuid} {h : Bytes}

theorem CodeGone.write {d : Db} (hg : CodeGone v h d) (u : Write) : CodeGone v h (d.write u) := by
  obtain ⟨row, hrow, hlive⟩ := hg
  have modify : ∀ {k : Uuid × Bytes} {f : MfaRecoveryCode → MfaRecoveryCode} {hf : ∀ x, (f x).key = x.key},
      (f row).live = false → CodeGone v h { d with codes := d.codes.modify k f hf } := fun {k f hf} hgone => by
    by_cases he : (v, h) = k
    · subst he
      exact ⟨f row, by rw [Table.find_modify_self, hrow, Option.map_some], hgone⟩
    · exact ⟨row, by rw [Table.find_modify_of_ne he, hrow], hlive⟩
  cases u with
  | useCode => exact modify (by rw [MfaRecoveryCode.use, if_neg (by simp [hlive])]; exact hlive)
  | supersedeCode => exact modify (by rw [MfaRecoveryCode.supersede, if_neg (by simp [hlive])]; exact hlive)
  | insertCode row' =>
    refine ⟨row, ?_, hlive⟩
    exact Table.find_eq_some.2 ⟨Table.mem_insert_of_mem (Table.mem_of_find hrow), Table.key_of_find hrow⟩
  | _ => exact ⟨row, hrow, hlive⟩

theorem CodeGone.foldl {d : Db} (hg : CodeGone v h d) (ws : List Write) : CodeGone v h (ws.foldl Db.write d) := by
  induction ws generalizing d with
  | nil => exact hg
  | cons u ws ih => exact ih (hg.write u)

theorem find_codes_write {d : Db} {row : MfaRecoveryCode} (hrow : d.codes.find (v, h) = some row) (u : Write) :
    ∃ row', (d.write u).codes.find (v, h) = some row' := by
  cases u with
  | useCode | supersedeCode =>
    rw [Db.write, Table.find_modify, hrow]
    split <;> exact ⟨_, rfl⟩
  | insertCode =>
    exact ⟨row, Table.find_eq_some.2 ⟨Table.mem_insert_of_mem (Table.mem_of_find hrow), Table.key_of_find hrow⟩⟩
  | _ => exact ⟨row, hrow⟩

theorem codeGone_of_use {d : Db} {row : MfaRecoveryCode} {now : Time} {ws : List Write} (hrow : d.codes.find (v, h) = some row)
    (hu : .useCode v h now ∈ ws) : CodeGone v h (ws.foldl Db.write d) := by
  induction ws generalizing d row with
  | nil => cases hu
  | cons u ws ih =>
    rcases List.mem_cons.1 hu with rfl | hu
    · refine CodeGone.foldl ⟨row.use now, ?_, ?_⟩ ws
      · show (d.codes.modify (v, h) (·.use now) (·.key_use now)).find (v, h) = _
        rw [Table.find_modify_self, hrow, Option.map_some]
      · unfold MfaRecoveryCode.use
        split
        · rfl
        next hlive => simpa using hlive
    · obtain ⟨row', hrow'⟩ := find_codes_write hrow u
      exact ih hrow' hu

end Gone

/-- The right to accept a recovery code is used up once the code is gone. -/
def recoveryOnce (v : Uuid) (h : Bytes) : Once Db Proc Event where
  shows := Event.spendsRecovery v h
  owes _ := 0
  spent := CodeGone v h

/-- The write stamps a session, opens one, or removes the factor. -/
def Write.grants : Write → Bool
  | .stampSession .. | .insertSession _ => true
  | .mfa _ c => c.confirmedAt = some none || c.totpSecretCiphertext = some none
  | _ => false

/-- The code is right for the confirmed factor of the caller, which is not locked: of the steps around the clock
the first with this code is newer than the last one used, or the recovery code is neither used nor superseded. -/
def ValidCode (P : Primitives) (d : Db) (c : Call) (code : Code) : Prop :=
  ∃ x row spent, x ∈ d.sessions.rows ∧ x.tokenHash = P.hashSessionToken c.token ∧ d.mfa.find x.userId = some row ∧
    row.confirmedAt.isSome = true ∧ mfaLocked row c.now = false ∧ Accepts P d c row code spent

section Decided
variable {P : Primitives} {s : Settings} {held : Lock → Prop} {d : Db} {r : Request} {e : Event} {plan : List Write}

theorem Decided.uses {v : Uuid} {h : Bytes} (hd : Decided P s held d r e plan) (he : e.spent = some (v, .recovery h)) :
    (d.codes.find (v, h)).any MfaRecoveryCode.live = true ∧ ∃ now, .useCode v h now ∈ plan := by
  have accepted : ∀ {c : Call} {current : AuthenticatedSession} {row : UserMfa} {spent : Spent} {rest : List Write},
      Spends P held d c current row spent → some (row.userId, spent) = some (v, .recovery h) →
      (d.codes.find (v, h)).any MfaRecoveryCode.live = true ∧ ∃ now, .useCode v h now ∈ useWrites row spent c.now ++ rest :=
    fun {c current row spent rest} hs he => by
      cases he
      obtain ⟨code, -, hacc⟩ := hs.accepts
      cases hacc with
      | recovery hlive => exact ⟨hlive, c.now, List.mem_append_left _ List.mem_cons_self⟩
  cases hd with
  | steppedUp hspends | completed hspends | disabled hspends =>
    rw [List.append_assoc]
    exact accepted hspends he
  | _ => cases he

/-- Who presents a code to a confirmed factor is granted nothing, or the code is accepted. -/
theorem Decided.valid {c : Call} {code : Code} (hd : Decided P s held d (.call c) e plan) (hcode : c.operation.code = some code)
    (hgrants : ∃ u ∈ plan, u.grants = true) : ValidCode P d c code := by
  have spends : ∀ {current : AuthenticatedSession} {row : UserMfa} {spent : Spent}, Spends P held d c current row spent →
      ValidCode P d c code := fun {current row spent} hs => by
    obtain ⟨x, hx, huser, htoken⟩ := hs.calls
    obtain ⟨code', hcode', hacc⟩ := hs.accepts
    cases hcode.symm.trans hcode'
    exact ⟨x, row, spent, Table.mem_of_find hx, htoken, huser.trans hs.user.symm ▸ hs.stored, hs.confirmed, hs.unlocked, hacc⟩
  cases hd with
  | steppedUp hspends | completed hspends | disabled hspends => exact spends hspends
  | loggedOut =>
    obtain ⟨u, hu, -⟩ := hgrants
    cases hu
  | wrongCode _ hcounted =>
    obtain ⟨u, hu, hgrant⟩ := hgrants
    cases mem_mfaWrites hu
    rcases recordMfaFailure_cases hcounted with ⟨-, _, -, -, rfl⟩ | ⟨-, -, rfl⟩ <;> cases hgrant
  | passwordChanged _ _ hop | enrolled _ hop | reenrolled _ _ hop | confirmed _ hop | regenerated _ hop =>
    rw [hop] at hcode
    cases hcode

end Decided

/-! ### The request behind a control state -/

def Proc.request : Proc → Option Request
  | .login c | .recordFailure c _ | .loginCredential c _ _ _ => some (.login c)
  | .bootstrap c | .mfaState c _ _ | .touch c _ | .credential c _ _ | .enrollRow c _ _ | .regenerateRow c _ | .factor c _
  | .disableCredential c _ _ | .consume c _ _ _ => some (.call c)
  | .tail t => some t.request
  | .refuse _ | .done => none

section Request
variable {P : Primitives} {s : Settings} {held : Lock → Prop} {d : Db} {p : Proc}

theorem request_of_call {c : Call} {current : AuthenticatedSession} (h : p.call = some (c, current)) : p.request = some (.call c) := by
  cases p with
  | credential | enrollRow | regenerateRow | factor | disableCredential | consume =>
    cases h
    rfl
  | _ => cases h

theorem Begins.request {t : Tail} (h : Begins P s d p t) : p.request = some t.request := by
  cases h with
  | wrongCode hp | steppedUp hp | completed hp | disabled hp => exact request_of_call hp
  | _ => rfl

theorem request_next {m : Step} {r : Request} (h : go P s d p = some m) (hA : p.Holds P s held d) (hr : m.next.request = some r) :
    p.request = some r := by
  have hleads := go_leads h hA
  generalize m.next = q at hleads hr
  cases hleads with
  | refused | uncounted | ended => cases hr
  | @lookedUp _ _ _ _ _ _ verified _ _ _ _ _ _ _ hq =>
    subst hq
    cases verified <;> exact hr
  | letIn | passed => exact hr
  | undecided hp hq =>
    rw [request_of_call hq] at hr
    rcases hp with rfl | hp
    · exact hr
    · rw [request_of_call hp]
      exact hr
  | decided hbegins =>
    rw [hbegins.request]
    exact hr
  | went hstep =>
    rw [Proc.request, ← hr, Proc.request, (plan_step hstep).2.2]

end Request

section Runs
variable {π : Type} [DecidableEq π] {P : Primitives} {s : Settings} {w₀ w : Requests π}

theorem request_of_run {C : Requests π → π × Choice → Prop} (h₀ : Start w₀) (h : (authentication P s).Run C w₀ w) (i : π) {r : Request}
    (hr : (w.proc i).request = some r) : (w₀.proc i).request = some r := by
  have hrun := h.using fun hv => outline_of_run h₀ hv
  refine hrun.invariant (I := fun w => ∀ r, (w.proc i).request = some r → (w₀.proc i).request = some r) (fun _ => id)
    (fun w j c m hI ⟨_, hat⟩ hm r hr => ?_) r hr
  by_cases hij : i = j
  · subst hij
    rw [System.proc_after_self] at hr
    rcases System.move_abortable hm.1 with hgo | rfl
    · exact hI r (request_next hgo (hat i) hr)
    · cases hr
  · rw [System.proc_after_of_ne hij] at hr
    exact hI r hr

/-! ### Every run -/

/-- What has been accepted for the user: in a life of the factor newer and newer steps, and each recovery code once. -/
structure SingleUse (P : Primitives) (w₀ w : Requests π) (v : Uuid) : Prop where
  increasing : ∀ m, m <:+ w.trace → (∀ secret, .enrolled v secret ∉ m) → (acceptedSteps v m).Pairwise (· < ·)
  /-- A factor confirmed before the run goes on from the step it has used. -/
  above : (∀ secret, .enrolled v secret ∉ w.trace) → ∀ l ∈ usedStep w₀.db v, ∀ n ∈ acceptedSteps v w.trace, l < n
  recovery : ∀ code, w.trace.countP (Event.spendsRecovery v (P.hashRecoveryCode code)) ≤ 1

/-- The account of every life of the factor, those that began before the run included. -/
structure StepsAccount (w₀ w : Requests π) (v : Uuid) : Prop where
  stretch : ∀ m, m <:+ w.trace → (∀ secret, .enrolled v secret ∉ m) → StepsUsed (w.db.mfa.find v) (acceptedSteps v m)
  whole : (∀ secret, .enrolled v secret ∉ w.trace) →
    StepsUsed (w.db.mfa.find v) ((usedStep w₀.db v).toList ++ acceptedSteps v w.trace)

theorem suffix_append {α : Type} {m l l' : List α} (h : m <:+ l ++ l') : m <:+ l' ∨ ∃ m', m = m' ++ l' ∧ m' <:+ l := by
  obtain ⟨k, hk⟩ := h
  rcases List.append_eq_append_iff.1 hk with ⟨m', rfl, rfl⟩ | ⟨k', rfl, rfl⟩
  · exact .inr ⟨m', rfl, List.suffix_append ..⟩
  · exact .inl (List.suffix_append ..)

omit [DecidableEq π] in
theorem StepsAccount.start (htrace : w₀.trace = []) (v : Uuid) : StepsAccount w₀ w₀ v := by
  constructor
  · intro m hm _
    rw [htrace, List.suffix_nil] at hm
    rw [hm]
    exact .nil _
  · intro _
    rw [htrace, show acceptedSteps v [] = [] from rfl, List.append_nil, usedStep]
    cases hrow : w₀.db.mfa.find v with
    | none => exact .nil _
    | some row =>
      rw [Option.bind_some]
      cases hconf : row.confirmedAt with
      | none => exact .nil _
      | some t =>
        cases hused : row.lastUsedStep with
        | none => exact .nil _
        | some l =>
          refine ⟨List.pairwise_singleton .., fun row' hr _ n hn => ?_, fun row' hr hn => ?_⟩
          · cases hr
            cases List.mem_singleton.1 hn
            exact ⟨l, hused, Int.le_refl l⟩
          · cases hr
            rw [hconf] at hn
            cases hn

theorem StepsAccount.step {i : π} {c : Choice} {m : Step} (hat : (outline P s).At w i) (hm : (authentication P s).Fires w i c m)
    {v : Uuid} (ha : StepsAccount w₀ w v) : StepsAccount w₀ ((authentication P s).after w i m) v := by
  rcases fires_cases hat hm with ⟨t, hproc, rfl, htodo, rfl, hholds⟩ | ⟨hdb, hemit, -⟩
  · have hdecided := hholds.decided
    rw [Tail.plan, htodo, List.flatMap_nil, List.append_nil] at hdecided
    have heffect := factor_commit hdecided v
    have hevent : acceptedSteps v [t.event] = (t.event.step v).toList := by
      cases h : t.event.step v <;> simp [acceptedSteps, h]
    constructor
    · intro l hl hno
      rw [System.trace_after] at hl
      have he : ∀ m' : List Event, l = m' ++ [t.event] → ∀ secret, t.event ≠ .enrolled v secret := fun m' hm' secret he => by
        refine hno secret ?_
        rw [hm', he]
        exact List.mem_append_right _ List.mem_cons_self
      rcases suffix_append hl with hl | ⟨m', hm', hsuffix⟩
      · rcases List.suffix_cons_iff.1 hl with heq | hnil
        · have hstep := (StepsUsed.nil _).commit heffect (he [] heq)
          rw [heq, hevent]
          exact hstep
        · rw [List.suffix_nil.1 hnil]
          exact .nil _
      · have hbefore := ha.stretch m' hsuffix fun secret hin => hno secret (by rw [hm']; exact List.mem_append_left _ hin)
        have hstep := hbefore.commit heffect (he m' hm')
        rw [hm', acceptedSteps_append, hevent]
        exact hstep
    · intro hno
      rw [System.trace_after] at hno ⊢
      have hbefore := ha.whole fun secret hin => hno secret (List.mem_append_left _ hin)
      have hstep := hbefore.commit heffect fun secret he => hno secret (by rw [he]; exact List.mem_append_right _ List.mem_cons_self)
      rw [acceptedSteps_append, hevent, ← List.append_assoc]
      exact hstep
  · have hnone := acceptedSteps_refused (v := v) hemit
    constructor
    · intro l hl hno
      rw [System.trace_after] at hl
      rw [hdb]
      rcases suffix_append hl with hl | ⟨m', rfl, hsuffix⟩
      · rw [acceptedSteps_refused fun e he => hemit e (hl.subset he)]
        exact .nil _
      · rw [acceptedSteps_append, hnone, List.append_nil]
        exact ha.stretch m' hsuffix fun secret hin => hno secret (List.mem_append_left _ hin)
    · intro hno
      rw [System.trace_after] at hno ⊢
      rw [hdb, acceptedSteps_append, hnone, List.append_nil]
      exact ha.whole fun secret hin => hno secret (List.mem_append_left _ hin)

/-- Only the commit that makes a code unusable accepts it. -/
theorem Account_recovery_step {i : π} {c : Choice} {m : Step} (hat : (outline P s).At w i) (hm : (authentication P s).Fires w i c m)
    {v : Uuid} {h : Bytes} (ha : (recoveryOnce v h).Account w) : (recoveryOnce v h).Account ((authentication P s).after w i m) := by
  rcases fires_cases hat hm with ⟨t, hproc, rfl, htodo, rfl, hholds⟩ | ⟨hdb, hemit, -⟩
  · have hdecided := hholds.decided
    rw [Tail.plan, htodo, List.flatMap_nil, List.append_nil] at hdecided
    refine ha.step (fun hg => CodeGone.foldl hg t.writes) ?_
    by_cases he : t.event.spent = some (v, .recovery h)
    · obtain ⟨hlive, now, huse⟩ := hdecided.uses he
      obtain ⟨row, hrow, hl⟩ := (Option.any_eq_true ..).1 hlive
      refine .inr ⟨?_, codeGone_of_use hrow (List.mem_of_mem_filter huse), ?_⟩
      · rintro ⟨row', hrow', hdead⟩
        cases hrow.symm.trans hrow'
        rw [hdead] at hl
        cases hl
      · exact List.countP_le_length
    · left
      refine Nat.le_of_eq (Once.count_eq_zero _ fun e hmem => ?_)
      cases List.mem_singleton.1 hmem
      exact decide_eq_false he
  · refine ha.step (fun hg => ?_) (.inl (Nat.le_of_eq (Once.count_eq_zero _ fun e he => ?_)))
    · rw [hdb]
      exact hg
    · obtain ⟨r, rfl⟩ := hemit e he
      rfl

/-- In every run the codes of a second factor are single use, and a request that presents a code commits a stamp, a new
session or the removal of the factor only where the code is valid in the database it commits to. -/
theorem codes_single_use (h₀ : Start w₀) (h : (authentication P s).Run (fun _ _ => True) w₀ w) :
    (∀ v, SingleUse P w₀ w v) ∧
      ∀ i c code, w₀.proc i = .bootstrap c → c.operation.code = some code →
        ∀ choice m ws, (authentication P s).Fires w i choice m → m.op = .commit ws → (∃ u ∈ ws, u.grants = true) →
          ValidCode P w.db c code := by
  have hrun := h.using fun hv => outline_of_run h₀ hv
  constructor
  · intro v
    have hsteps : StepsAccount w₀ w v := hrun.invariant (I := fun w => StepsAccount w₀ w v) (.start h₀.trace v)
      fun x i c m hx ⟨_, hat⟩ hm => hx.step (hat i) hm
    refine ⟨fun m hm hno => (hsteps.stretch m hm hno).increasing, fun hno l hl n hn => ?_, fun code => ?_⟩
    · have hincreasing := (hsteps.whole hno).increasing
      refine (List.pairwise_append.1 hincreasing).2.2 l ?_ n hn
      rw [hl]
      exact List.mem_singleton.2 rfl
    · have haccount := hrun.invariant (I := (recoveryOnce v (P.hashRecoveryCode code)).Account)
        (.start h₀.trace fun _ => rfl) fun x i c m hx ⟨_, hat⟩ hm => Account_recovery_step (hat i) hm hx
      exact haccount.total
  · intro i c code hbegin hcode choice m ws hm hop hgrants
    rcases fires_cases (outline_of_run h₀ h i) hm with ⟨t, hproc, -, htodo, rfl, hholds⟩ | ⟨-, -, hno⟩
    · cases hop
      have hrequest := request_of_run h₀ h i (r := t.request) (by rw [hproc]; rfl)
      rw [hbegin] at hrequest
      cases hreq : t.request with
      | login => rw [hreq] at hrequest; cases hrequest
      | call c' =>
        rw [hreq] at hrequest
        cases hrequest
        have hdecided := hholds.decided
        rw [Tail.plan, htodo, List.flatMap_nil, List.append_nil, hreq] at hdecided
        obtain ⟨u, hu, hgrant⟩ := hgrants
        refine hdecided.valid hcode ⟨u, List.mem_filter.2 ⟨hu, ?_⟩, hgrant⟩
        cases u <;> first | rfl | cases hgrant
    · exact absurd hop (hno ws)

end Runs

/-! ### Two requests with one code -/

namespace Replay

/-- The factor of `Race.db`, confirmed. -/
def db : Db := Race.db.write (.mfa 1 { confirmedAt := some (some 0), lastUsedStep := some (some 1) })

def requests : Fin 2 → Proc
  | 0 => .bootstrap ⟨"first", Time.seconds 91, .verifyMfa (.totp "969429") { id := 30, token := "fifth" }⟩
  | 1 => .bootstrap ⟨"second", Time.seconds 92, .verifyMfa (.totp "969429") { id := 40, token := "sixth" }⟩

def begin : Requests (Fin 2) where
  db
  owner _ := none
  proc := requests
  trace := []

theorem start : Start begin where
  entry := fun | 0 | 1 => trivial
  trace := rfl

end Replay

open Replay in
/-- Both pending logins pass the gate; the second waits for the factor until the first has committed, and its code
has been used then. -/
theorem codes_single_use_of_replay : ∃ w : Requests (Fin 2), acceptedSteps 1 w.trace = [3] ∧ .wrongCode 1 ∈ w.trace ∧
    (∀ v, SingleUse Primitives.plain begin w v) := by
  have run : ((authentication Primitives.plain Settings.shipped).exec (fun _ _ => True) begin
      (steps 0 3 ++ steps 1 3 ++ steps 0 5 ++ steps 1 3)).any (fun w => acceptedSteps 1 w.trace = [3] ∧ .wrongCode 1 ∈ w.trace) = true := by
    decide +kernel
  obtain ⟨w, hw, hp⟩ := System.Run.of_exec_any run
  obtain ⟨hsteps, hwrong⟩ := of_decide_eq_true hp
  exact ⟨w, hsteps, hwrong, (codes_single_use start hw).1⟩

end TestingPlatform.Auth
