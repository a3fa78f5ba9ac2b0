import TestingPlatform.Auth.SingleUse
import TestingPlatform.Auth.Sessions
import TestingPlatform.Lib.Lockout
import TestingPlatform.Lib.Snapshots

/-!
# The login lockout

A login tests the lockout in its lookup, and only then verifies the password. `_record_failure` reads the credential
again, increments the counter in memory and writes it back, without a lock before that write: of the failures
that read one counter, the last one counts (`failures_are_lost`). Where no failed login of an account commits when
another one has since its lookup, the counter is that of the lockout policy (`Lockout.Policy`), and no failure is
counted while the account is locked (`failures_counted`).
-/

namespace TestingPlatform.Auth

open ReadCommitted

/-! ### Failures of an account -/

section Histories
variable {π : Type}

/-- The step is the lookup of a login that finds the password wrong. -/
def misses (u : Uuid) (x : Taken π Lock Write Db Proc Event) : Bool :=
  match x.world.proc x.proc, x.move.next with
  | .login _, .recordFailure _ v => v = u
  | _, _ => false

/-- The time of the failed login that the step commits. -/
def failedAt (u : Uuid) (x : Taken π Lock Write Db Proc Event) : Option Time :=
  match x.world.proc x.proc, x.move.op with
  | .tail t, .commit _ => if t.event = .loginFailed u then some t.request.now else none
  | _, _ => none

/-- A failure is counted on what the lookup has found. -/
def failedLogins (u : Uuid) : Snapshots π Lock Write Db Proc Event where
  takes := misses u
  lands x := (failedAt u x).isSome

/-- The step applies a lockout: it begins when the login was observed, and the counter starts again. -/
def locksOut (s : Settings) (u : Uuid) (x : Taken π Lock Write Db Proc Event) : Bool :=
  (failedAt u x).any fun now => ((x.move.op.effect Db.write x.world.db).credentials.find u).any fun row =>
    row.failedLoginCount = 0 ∧ row.lockedUntil = some (now + Time.seconds s.authLockoutSeconds)

/-- The wrong passwords that have been answered. -/
def failures (u : Uuid) (w : Requests π) : Nat := w.trace.count (.loginFailed u)

/-- What the lockout is for, from a credential with `k` failures on. -/
structure FailuresCounted (s : Settings) (u : Uuid) (k : Nat) (H : List (Taken π Lock Write Db Proc Event)) (w : Requests π) :
    Prop where
  grows : k + failures u w < s.authLockoutThreshold →
    ∃ row, w.db.credentials.find u = some row ∧ row.failedLoginCount = k + failures u w
  locks : s.authLockoutThreshold ≤ failures u w → 0 < H.countP (locksOut s u)
  /-- The threshold is what there is to a lockout. -/
  between : k < s.authLockoutThreshold → ∃ row, w.db.credentials.find u = some row ∧
    row.failedLoginCount < s.authLockoutThreshold ∧
    row.failedLoginCount + s.authLockoutThreshold * H.countP (locksOut s u) = k + failures u w
  /-- No wrong password is counted under a standing lockout. -/
  tested : ∀ x ∈ H, ∀ now, failedAt u x = some now → ∃ row, x.world.db.credentials.find u = some row ∧
    ∀ t, row.lockedUntil = some t → t ≤ now

end Histories

/-- The lockouts of `_record_failure`, all of one length. -/
def loginPolicy (s : Settings) : Lockout.Policy where
  threshold := s.authLockoutThreshold
  duration _ := Time.seconds s.authLockoutSeconds

/-! ### The counters after a commit -/

/-- The credential has these counters; the number of lockouts is not stored. -/
structure UserCredential.Counts (row : UserCredential) (σ : Lockout.State) : Prop where
  failed : row.failedLoginCount = σ.failed
  lockedUntil : row.lockedUntil = σ.lockedUntil

/-- The counters of the user in the database. -/
def HasCounters (d : Db) (u : Uuid) (σ : Lockout.State) : Prop := ∃ row, d.credentials.find u = some row ∧ row.Counts σ

section Commit
variable {P : Primitives} {s : Settings} {held : Lock → Prop} {d : Db} {r : Request} {e : Event} {ws : List Write} {u : Uuid}
  {row : UserCredential} {σ : Lockout.State} {c : CredentialChange}

theorem UserCredential.Counts.set (h : row.Counts σ) (hfailed : c.failedLoginCount = none) (hlocked : c.lockedUntil = none) :
    (row.set c).Counts σ := by
  refine ⟨?_, ?_⟩
  · rw [UserCredential.set, hfailed, Option.getD_none]
    exact h.failed
  · rw [UserCredential.set, hlocked, Option.getD_none]
    exact h.lockedUntil

theorem UserCredential.Counts.set_flush {loaded : UserCredential} (h : row.Counts σ) (hloaded : loaded.Counts σ) :
    (row.set (loaded.flush c)).failedLoginCount = c.failedLoginCount.getD σ.failed ∧
      (row.set (loaded.flush c)).lockedUntil = c.lockedUntil.getD σ.lockedUntil := by
  simp only [UserCredential.set, UserCredential.flush, h.failed, h.lockedUntil, ← hloaded.failed, ← hloaded.lockedUntil, getD_net,
    and_self]

/-- Counting a failure on the counters that are stored is the policy. -/
theorem UserCredential.Counts.fail {loaded : UserCredential} {now : Time} (h : row.Counts σ) (hloaded : loaded.Counts σ) :
    (row.set (loaded.flush (recordFailure s loaded now))).Counts ((loginPolicy s).fail σ now) := by
  obtain ⟨hfailed, hlocked⟩ := h.set_flush (c := recordFailure s loaded now) hloaded
  rcases (loginPolicy s).fail_cases σ now with ⟨hlt, hfail⟩ | ⟨hle, hfail⟩
  · have hrecord : recordFailure s loaded now = { failedLoginCount := some (loaded.failedLoginCount + 1) } :=
      if_neg (by rw [hloaded.failed]; exact Nat.not_le_of_lt hlt)
    refine ⟨hfailed.trans ?_, hlocked.trans ?_⟩
    · rw [hrecord, hfail, hloaded.failed]
      rfl
    · rw [hrecord, hfail]
      rfl
  · have hrecord : recordFailure s loaded now =
        { failedLoginCount := some 0, lockedUntil := some (some (now + Time.seconds s.authLockoutSeconds)) } :=
      if_pos (by rw [hloaded.failed]; exact hle)
    refine ⟨hfailed.trans ?_, hlocked.trans ?_⟩
    · rw [hrecord, hfail]
      rfl
    · rw [hrecord, hfail]
      rfl

theorem HasCounters.written (h : HasCounters d u σ) (hwrites : (ws.filter Write.planned).filter Write.onCredential = credentialWrites u c)
    {σ' : Lockout.State} (hset : ∀ row : UserCredential, row.Counts σ → (row.set c).Counts σ') :
    HasCounters (ws.foldl Db.write d) u σ' := by
  obtain ⟨row, hrow, hcounts⟩ := h
  refine ⟨row.set c, ?_, hset row hcounts⟩
  rw [credentials_planned, credentials_foldl (ws.filter Write.planned) rfl, hwrites, find_credentialWrites, if_pos rfl, hrow]
  rfl

theorem HasCounters.commit (h : HasCounters d u σ) (hd : Decided P s held d r e (ws.filter Write.planned))
    (hfailed : e ≠ .loginFailed u) (hlogged : ∀ p sid, e ≠ .loggedIn u p sid) : HasCounters (ws.foldl Db.write d) u σ := by
  generalize hplan : ws.filter Write.planned = plan at hd
  have other : plan.filter Write.onCredential = [] → HasCounters (ws.foldl Db.write d) u σ := fun hnone => by
    obtain ⟨row, hrow, hcounts⟩ := h
    refine ⟨row, ?_, hcounts⟩
    rw [credentials_planned, hplan, credentials_foldl plan rfl, hnone]
    exact hrow
  have elsewhere : ∀ {v : Uuid} {c : CredentialChange}, plan.filter Write.onCredential = credentialWrites v c → u ≠ v →
      HasCounters (ws.foldl Db.write d) u σ := fun {v c} hwrites hne => by
    obtain ⟨row, hrow, hcounts⟩ := h
    refine ⟨row, ?_, hcounts⟩
    rw [credentials_planned, hplan, credentials_foldl plan rfl, hwrites, find_credentialWrites, if_neg hne]
    exact hrow
  cases hd with
  | @loginFailed c row => exact elsewhere (onCredential_credentialWrites ..) fun hu => hfailed (by rw [hu])
  | @loggedIn c userId kek stored credential =>
    cases credential with
    | none => exact other rfl
    | some row => exact elsewhere (onCredential_insertSession ..) fun hu => hlogged _ _ (by rw [hu])
  | @passwordChanged c current row currentPassword newPassword salt nonce kek stored opens =>
    by_cases hu : u = row.userId
    · subst hu
      refine h.written (by rw [hplan]; exact onCredential_insertSession ..) fun row' hcounts => hcounts.set rfl rfl
    · exact elsewhere (onCredential_insertSession ..) hu
  | loggedOut | enrolled | regenerated => exact other (by simp [Write.onCredential])
  | reenrolled | wrongCode => exact other (by simp)
  | confirmed | steppedUp | completed | disabled => exact other (by simp [Write.onCredential])

end Commit

/-! ### A failing login -/

/-- What a failing login of the user has seen of the counters: no lockout stood, and it counts on what is stored. -/
def Proc.CountsOn (s : Settings) (u : Uuid) (σ : Lockout.State) : Proc → Prop
  | .recordFailure c v => v = u → σ.locked c.now = false
  | .tail t => t.event = .loginFailed u → σ.locked t.request.now = false ∧
      ∃ loaded : UserCredential, loaded.Counts σ ∧ t.plan = credentialWrites u (loaded.flush (Auth.recordFailure s loaded t.request.now))
  | _ => True

section Login
variable {P : Primitives} {s : Settings} {held : Lock → Prop} {d : Db} {u : Uuid} {p : Proc} {t : Tail} {σ : Lockout.State}

theorem Begins.countsOn (h : Begins P s d p t) (hc : HasCounters d u σ) (hp : p.CountsOn s u σ) : (Proc.tail t).CountsOn s u σ := by
  intro he
  cases h with
  | @loginFailed c _ loaded hloaded =>
    cases he
    obtain ⟨row, hrow, hcounts⟩ := hc
    cases hrow.symm.trans hloaded
    refine ⟨hp rfl, loaded, hcounts, ?_⟩
    rw [Tail.plan, plans_updateCredential]
    rfl
  | _ => cases he

theorem next_countsOn {m : Step} (hA : p.Holds P s held d) (h : go P s d p = some m) (hc : HasCounters d u σ) (hp : p.CountsOn s u σ) :
    m.next.CountsOn s u σ := by
  have hleads := go_leads h hA
  generalize m.next = q at hleads
  cases hleads with
  | @lookedUp c a credential _ _ _ verified _ hcredential _ hopen _ _ _ hq =>
    subst hq
    cases verified with
    | true => trivial
    | false =>
      rintro rfl
      -- the lookup has tested the lockout
      obtain ⟨row, hrow, hcounts⟩ := hc
      cases hrow.symm.trans hcredential
      cases hlocked : credential.lockedUntil with
      | none => rw [Lockout.State.locked, ← hcounts.lockedUntil, hlocked, Option.any_none]
      | some t =>
        rw [Lockout.State.locked, ← hcounts.lockedUntil, hlocked]
        simpa using hopen t hlocked
  | undecided _ hq =>
    cases q with
    | recordFailure | tail => cases hq
    | _ => trivial
  | decided hbegins => exact hbegins.countsOn hc hp
  | went hstep =>
    intro he
    obtain ⟨hplan, hevent, hrequest⟩ := plan_step hstep
    rw [hplan, hrequest]
    exact hp (hevent ▸ he)
  | _ => trivial

end Login

/-! ### Every run -/

/-- The counters that the policy makes of the failures of a history. -/
def expected (s : Settings) (u : Uuid) {π : Type} (σ₀ : Lockout.State) (H : List (Taken π Lock Write Db Proc Event)) : Lockout.State :=
  (H.filterMap (failedAt u)).foldl (loginPolicy s).fail σ₀

/-- The account of the failures of a user in a world of the run. -/
structure FailureAccount {π : Type} [DecidableEq π] (s : Settings) (u : Uuid) (σ₀ : Lockout.State)
    (H : List (Taken π Lock Write Db Proc Event)) (w : Requests π) : Prop where
  stands : HasCounters w.db u (expected s u σ₀ H)
  answers : w.trace.count (.loginFailed u) = (H.filterMap (failedAt u)).length
  lockouts : σ₀.lockouts + H.countP (locksOut s u) = (expected s u σ₀ H).lockouts
  tested : ∀ x ∈ H, ∀ now, failedAt u x = some now → ∃ row, x.world.db.credentials.find u = some row ∧
    ∀ t, row.lockedUntil = some t → t ≤ now
  rests : ∀ i, (failedLogins u).overtaken H i = false → (w.proc i).CountsOn s u (expected s u σ₀ H)

section Runs
variable {π : Type} [DecidableEq π] {P : Primitives} {s : Settings} {u : Uuid} {σ₀ : Lockout.State}
  {H : List (Taken π Lock Write Db Proc Event)} {w₀ w : Requests π} {i : π} {c : Choice} {m : Step}

omit [DecidableEq π] in
theorem expected_append {x : Taken π Lock Write Db Proc Event} {t : Time} (h : failedAt u x = some t) :
    expected s u σ₀ (H ++ [x]) = (loginPolicy s).fail (expected s u σ₀ H) t := by
  rw [expected, List.filterMap_append, List.filterMap_cons_some h, List.filterMap_nil, Lockout.foldl_fail_append, expected]

omit [DecidableEq π] in
theorem expected_append_of_none {x : Taken π Lock Write Db Proc Event} (h : failedAt u x = none) :
    expected s u σ₀ (H ++ [x]) = expected s u σ₀ H := by
  rw [expected, List.filterMap_append, List.filterMap_cons_none h, List.filterMap_nil, List.append_nil, expected]

omit [DecidableEq π] in
theorem failedAt_commit {t : Tail} {ws : List Write} (hproc : w.proc i = .tail t) (hop : m.op = .commit ws) :
    failedAt u ⟨w, i, m⟩ = if t.event = .loginFailed u then some t.request.now else none := by
  simp only [failedAt, hproc, hop]

omit [DecidableEq π] in
theorem failedAt_eq_none (h : ∀ ws, m.op ≠ .commit ws) : failedAt u ⟨w, i, m⟩ = none := by
  unfold failedAt
  split
  next hop => exact absurd hop (h _)
  · rfl

omit [DecidableEq π] in
theorem countsOn_of_misses (h : misses u ⟨w, i, m⟩ = true) : (w.proc i).CountsOn s u σ₀ := by
  unfold misses at h
  split at h
  next heq _ =>
    have hproc : w.proc i = .login _ := heq
    rw [hproc]
    trivial
  · cases h

/-- A step that counts no failure of the user keeps the account where it keeps the counters. -/
theorem FailureAccount.other (ha : FailureAccount s u σ₀ H w) (hnone : failedAt u ⟨w, i, m⟩ = none)
    (hstands : HasCounters ((authentication P s).after w i m).db u (expected s u σ₀ H))
    (hanswers : m.emit.count (.loginFailed u) = 0)
    (hrests : (w.proc i).CountsOn s u (expected s u σ₀ H) → m.next.CountsOn s u (expected s u σ₀ H)) :
    FailureAccount s u σ₀ (H ++ [⟨w, i, m⟩]) ((authentication P s).after w i m) := by
  have hlocks : locksOut s u ⟨w, i, m⟩ = false := by rw [locksOut, hnone]; rfl
  refine ⟨?_, ?_, ?_, fun x hx => ?_, fun j hj => ?_⟩
  · rw [expected_append_of_none hnone]
    exact hstands
  · rw [System.trace_after, List.count_append, hanswers, List.filterMap_append, List.filterMap_cons_none hnone, List.filterMap_nil,
      List.append_nil]
    exact ha.answers
  · rw [expected_append_of_none hnone, List.countP_append, List.countP_singleton, hlocks]
    exact ha.lockouts
  · rcases List.mem_append.1 hx with hx | hx
    · exact ha.tested x hx
    · cases List.mem_singleton.1 hx
      intro now hnow
      rw [hnone] at hnow
      cases hnow
  · rw [expected_append_of_none hnone]
    have hj := (Snapshots.overtaken_eq_false hj).2
    by_cases hij : j = i
    · subst hij
      rw [System.proc_after_self]
      refine hrests ?_
      rcases hj with ⟨htakes, -⟩ | hj
      · exact countsOn_of_misses htakes
      · exact ha.rests j hj
    · rw [System.proc_after_of_ne hij]
      rcases hj with ⟨-, hi⟩ | hj
      · exact absurd hi (Ne.symm hij)
      · exact ha.rests j hj

/-- A failure that is counted on the counters that are stored. -/
theorem FailureAccount.fails {t : Tail} (ha : FailureAccount s u σ₀ H w) (hproc : w.proc i = .tail t) (htodo : t.todo = [])
    (he : t.event = .loginFailed u) (hm : m = { op := .commit t.writes, next := .done, emit := [t.event] })
    (hcurrent : (failedLogins u).overtaken H i = false) :
    FailureAccount s u σ₀ (H ++ [⟨w, i, m⟩]) ((authentication P s).after w i m) := by
  have hfailed : failedAt u ⟨w, i, m⟩ = some t.request.now := (failedAt_commit hproc (by rw [hm])).trans (if_pos he)
  have hrests := ha.rests i hcurrent
  rw [hproc] at hrests
  obtain ⟨hopen, loaded, hloaded, hplan⟩ := hrests he
  rw [Tail.plan, htodo, List.flatMap_nil, List.append_nil] at hplan
  have hstands : HasCounters (t.writes.foldl Db.write w.db) u ((loginPolicy s).fail (expected s u σ₀ H) t.request.now) :=
    ha.stands.written (by rw [hplan, onCredential_credentialWrites]) fun row hrow => hrow.fail hloaded
  have hlocks : (H ++ [(⟨w, i, m⟩ : Taken π Lock Write Db Proc Event)]).countP (locksOut s u) + σ₀.lockouts =
      ((loginPolicy s).fail (expected s u σ₀ H) t.request.now).lockouts := by
    obtain ⟨row, hrow, hcounts⟩ := hstands
    have hrow' : (m.op.effect Db.write w.db).credentials.find u = some row := by rw [hm]; exact hrow
    have hlockouts := ha.lockouts
    rw [List.countP_append, List.countP_singleton, locksOut, hfailed, Option.any_some, hrow', Option.any_some, hcounts.failed,
      hcounts.lockedUntil]
    rcases (loginPolicy s).fail_cases (expected s u σ₀ H) t.request.now with ⟨-, hfail⟩ | ⟨-, hfail⟩
    · rw [hfail, if_neg (by simp)]
      simp only
      omega
    · rw [hfail, if_pos (by simp [loginPolicy])]
      simp only
      omega
  refine ⟨?_, ?_, ?_, fun x hx => ?_, fun j hj => ?_⟩
  · rw [expected_append hfailed, hm]
    exact hstands
  · have hemit : m.emit = [.loginFailed u] := by rw [hm, he]
    rw [System.trace_after, List.count_append, ha.answers, hemit, List.filterMap_append, List.filterMap_cons_some hfailed,
      List.length_append]
    simp
  · rw [expected_append hfailed, ← hlocks, Nat.add_comm]
  · rcases List.mem_append.1 hx with hx | hx
    · exact ha.tested x hx
    · cases List.mem_singleton.1 hx
      intro now hnow
      cases hfailed.symm.trans hnow
      obtain ⟨row, hrow, hcounts⟩ := ha.stands
      refine ⟨row, hrow, fun until_ huntil => ?_⟩
      rw [Lockout.State.locked, ← hcounts.lockedUntil, huntil] at hopen
      simpa using hopen
  · have hlands : (failedLogins u).lands (⟨w, i, m⟩ : Taken π Lock Write Db Proc Event) = true := by
      show (failedAt u ⟨w, i, m⟩).isSome = true
      rw [hfailed]
      rfl
    rw [Snapshots.overtaken_of_lands hlands] at hj
    cases hj

theorem FailureAccount.step (hat : (outline P s).At w i) (hm : (authentication P s).Fires w i c m)
    (hsuccess : ∀ p sid, .loggedIn u p sid ∉ ((authentication P s).after w i m).trace)
    (hcurrent : (failedLogins u).lands ⟨w, i, m⟩ = true → (failedLogins u).overtaken H i = false)
    (ha : FailureAccount s u σ₀ H w) : FailureAccount s u σ₀ (H ++ [⟨w, i, m⟩]) ((authentication P s).after w i m) := by
  rcases fires_cases hat hm with ⟨t, hproc, -, htodo, hmove, hholds⟩ | ⟨hdb, hemit, hno⟩
  · have hfailed : failedAt u ⟨w, i, m⟩ = if t.event = .loginFailed u then some t.request.now else none :=
      failedAt_commit hproc (by rw [hmove])
    by_cases he : t.event = .loginFailed u
    · refine ha.fails hproc htodo he hmove (hcurrent ?_)
      show (failedAt u ⟨w, i, m⟩).isSome = true
      rw [hfailed, if_pos he]
      rfl
    · have hdecided := hholds.decided
      rw [Tail.plan, htodo, List.flatMap_nil, List.append_nil] at hdecided
      have hemit : m.emit = [t.event] := by rw [hmove]
      have hlogged : ∀ p sid, t.event ≠ .loggedIn u p sid := fun p sid heq => by
        refine hsuccess p sid ?_
        rw [System.trace_after, hemit, heq]
        exact List.mem_append_right _ List.mem_cons_self
      refine ha.other (by rw [hfailed, if_neg he]) ?_ ?_ fun _ => ?_
      · rw [hmove]
        exact ha.stands.commit hdecided he hlogged
      · rw [hemit, List.count_singleton, beq_eq_false_iff_ne.2 he]
        rfl
      · rw [hmove]
        trivial
  · refine ha.other (failedAt_eq_none hno) ?_ ?_ fun hrests => ?_
    · rw [hdb]
      exact ha.stands
    · refine List.count_eq_zero.2 fun hmem => ?_
      obtain ⟨r, hr⟩ := hemit _ hmem
      cases hr
    · rcases System.move_abortable hm.1 with hgo | rfl
      · exact next_countsOn hat hgo ha.stands hrests
      · trivial

/-- In a run without a success, where no failed login of the account commits when another one has since its lookup: the
counter grows with every failure, at the threshold a lockout is applied, the failures make the threshold to every
lockout, and none is counted under a standing one. -/
theorem failures_counted (hthreshold : 1 ≤ s.authLockoutThreshold) (h₀ : Start w₀) {row₀ : UserCredential}
    (hrow : w₀.db.credentials.find u = some row₀) (h : (authentication P s).Path (fun _ _ => True) w₀ H w)
    (hsuccess : ∀ p sid, .loggedIn u p sid ∉ w.trace) (hundisturbed : (failedLogins u).Undisturbed H) :
    FailuresCounted s u row₀.failedLoginCount H w := by
  have hstart : FailureAccount s u ⟨row₀.failedLoginCount, 0, row₀.lockedUntil⟩ [] w₀ := by
    refine ⟨⟨row₀, hrow, rfl, rfl⟩, by rw [h₀.trace]; rfl, rfl, fun x hx => (by cases hx), fun i _ => ?_⟩
    have he := h₀.entry i
    generalize w₀.proc i = p at he
    cases p with
    | recordFailure | tail => cases he
    | _ => trivial
  have hall : (∀ p sid, .loggedIn u p sid ∉ w.trace) → FailureAccount s u ⟨row₀.failedLoginCount, 0, row₀.lockedUntil⟩ H w :=
    h.undisturbed (I := fun H w => (∀ p sid, .loggedIn u p sid ∉ w.trace) → FailureAccount s u _ H w) hundisturbed
      (fun _ => hstart) fun H w i c m hrun ih hm hcurrent hsuccess =>
        (ih fun p sid hmem => hsuccess p sid (List.mem_append_left _ hmem)).step (outline_of_run h₀ hrun i) hm hsuccess hcurrent
  have ha := hall hsuccess
  obtain ⟨row, hfind, hcounts⟩ := ha.stands
  have hlockouts := ha.lockouts
  rw [Nat.zero_add] at hlockouts
  refine ⟨fun hlt => ⟨row, hfind, ?_⟩, fun hle => ?_, fun hlt => ⟨row, hfind, ?_⟩, ha.tested⟩
  · rw [hcounts.failed, expected, Lockout.Policy.foldl_fail_of_lt (by rw [← ha.answers]; exact hlt), failures, ha.answers]
  · have hpos : 0 < (loginPolicy s).threshold := hthreshold
    have hlength := Lockout.Policy.length_le hpos ⟨row₀.failedLoginCount, 0, row₀.lockedUntil⟩ (H.filterMap (failedAt u))
    rw [failures, ha.answers] at hle
    by_contra hnone
    rw [← expected, ← hlockouts, Nat.le_zero.1 (Nat.not_lt.1 hnone)] at hlength
    simp only [loginPolicy] at hlength
    omega
  · have hbelow : (⟨row₀.failedLoginCount, 0, row₀.lockedUntil⟩ : Lockout.State).failed < (loginPolicy s).threshold := hlt
    have hexact := Lockout.Policy.foldl_fail_eq hbelow (H.filterMap (failedAt u))
    rw [hcounts.failed, hlockouts, failures, ha.answers]
    exact hexact

end Runs

/-! ### Ten wrong passwords -/

namespace Guesses

def login : LoginCall where
  email := "user@example.lu"
  password := "battery staple"
  now := Time.seconds 60
  salt := []
  nonce := []
  opens := { id := 90, token := "ninth" }

def begin : Requests (Fin 10) where
  db := Race.db
  owner _ := none
  proc _ := .login login
  trace := []

theorem start : Start begin where
  entry _ := trivial
  trace := rfl

/-- So many statements of every login, one login after the other. -/
def rounds (n : Nat) : List (Fin 10 × Choice) := (List.finRange 10).flatMap fun i => steps i n

theorem no_success {w : Requests (Fin 10)} (h : w.trace = List.replicate 10 (.loginFailed 1)) (p : String) (sid : Uuid) :
    .loggedIn 1 p sid ∉ w.trace := by
  rw [h, List.mem_replicate]
  rintro ⟨-, heq⟩
  cases heq

end Guesses

open Guesses in
/-- One login after the other: the tenth failure locks the account. -/
theorem failures_counted_in_turn : ∃ H w, (authentication Primitives.plain Settings.shipped).Path (fun _ _ => True) begin H w ∧
    failures 1 w = 10 ∧ H.countP (locksOut Settings.shipped 1) = 1 ∧ FailuresCounted Settings.shipped 1 0 H w := by
  have run : ((authentication Primitives.plain Settings.shipped).trail (fun _ _ => True) begin (rounds 4)).any
      (fun x => x.2.trace = List.replicate 10 (.loginFailed 1) ∧ x.1.countP (locksOut Settings.shipped 1) = 1 ∧
        (failedLogins 1).Undisturbed x.1) = true := by
    decide +kernel
  obtain ⟨H, w, hpath, hp⟩ := System.Path.of_trail_any run
  obtain ⟨htrace, hlocks, hundisturbed⟩ := of_decide_eq_true hp
  have hfailures : failures 1 w = 10 := by
    have htrace' : w.trace = List.replicate 10 (.loginFailed 1) := htrace
    rw [failures, htrace', List.count_replicate_self]
  exact ⟨H, w, hpath, hfailures, hlocks, failures_counted (by decide) start rfl hpath (no_success htrace) hundisturbed⟩

open Guesses in
/-- All ten read the counter before the first writes it: no lockout, and one failure counted. -/
theorem failures_are_lost : ∃ (w₀ w : Requests (Fin 10)) (H : List (Taken (Fin 10) Lock Write Db Proc Event)) (row : UserCredential),
    Start w₀ ∧ w₀.db.credentials.find 1 = some row ∧ row.failedLoginCount = 0 ∧ row.lockedUntil = none ∧
    (authentication Primitives.plain Settings.shipped).Path (fun _ _ => True) w₀ H w ∧ (∀ p sid, .loggedIn 1 p sid ∉ w.trace) ∧
    failures 1 w = Settings.shipped.authLockoutThreshold ∧
    (w.db.credentials.find 1).map UserCredential.failedLoginCount = some 1 ∧ ¬ FailuresCounted Settings.shipped 1 0 H w := by
  have run : ((authentication Primitives.plain Settings.shipped).trail (fun _ _ => True) begin (rounds 2 ++ rounds 2)).any
      (fun x => x.2.trace = List.replicate 10 (.loginFailed 1) ∧ x.1.countP (locksOut Settings.shipped 1) = 0 ∧
        (x.2.db.credentials.find 1).map UserCredential.failedLoginCount = some 1) = true := by
    decide +kernel
  obtain ⟨H, w, hpath, hp⟩ := System.Path.of_trail_any run
  obtain ⟨htrace, hlocks, hcount⟩ := of_decide_eq_true hp
  have hfailures : failures 1 w = Settings.shipped.authLockoutThreshold := by
    have htrace' : w.trace = List.replicate 10 (.loginFailed 1) := htrace
    rw [failures, htrace', List.count_replicate_self]
    rfl
  refine ⟨begin, w, H, _, start, rfl, rfl, rfl, hpath, no_success htrace, hfailures, hcount, fun hcounted => ?_⟩
  have hpos := hcounted.locks (Nat.le_of_eq hfailures.symm)
  have hnone : H.countP (locksOut Settings.shipped 1) = 0 := hlocks
  rw [hnone] at hpos
  exact absurd hpos (Nat.lt_irrefl 0)

end TestingPlatform.Auth
