import TestingPlatform.Auth.Registration
import TestingPlatform.Auth.SingleUse
import TestingPlatform.Auth.Sessions

/-!
# Assurance belongs to the current factor

Requests and registrations one after the other, each alone with the database. A stamp on a live session is then
one that a code for the confirmed factor has earned: disabling the factor ends every session of the user, so
none outlives it, and a factor is confirmed only where no live session is stamped.
-/

namespace TestingPlatform.Auth

open ReadCommitted

/-! ### One after the other -/

def Request.entry : Request → Proc
  | .login c => .login c
  | .call c => .bootstrap c

/-- A request that is alone with the database. -/
def alone (d : Db) (r : Request) : Requests Unit where
  db := d
  owner _ := none
  proc _ := r.entry
  trace := []

/-- Requests and registrations one after the other, on a clock that never runs back: the answers so far with their
requests, and the database. A request may be aborted at any statement. -/
inductive Serial (P : Primitives) (s : Settings) (t₀ : Time) (d₀ : Db) : Time → List (Request × Event) → Db → Prop
  | start : Serial P s t₀ d₀ t₀ [] d₀
  | registered {now : Time} {log : List (Request × Event)} {d d' : Db} (h : Serial P s t₀ d₀ now log d)
      (statements : Statements) (x : Registration P) (hnow : now ≤ x.now) (hregister : register P statements d x = .ok d') :
      Serial P s t₀ d₀ x.now log d'
  | request {now : Time} {log : List (Request × Event)} {d : Db} {w : Requests Unit} (h : Serial P s t₀ d₀ now log d) (r : Request)
      (hnow : now ≤ r.now) (hrun : (authentication P s).Run (fun _ _ => True) (alone d r) w) (hdone : w.proc () = .done) :
      Serial P s t₀ d₀ r.now (log ++ w.trace.map fun e => (r, e)) w.db

/-- The request has accepted a code and stamped the session at this time. -/
def assures (P : Primitives) (x : UserSession) (t : Time) : Request × Event → Prop
  | (.call c, .confirmed u _ _) => u = x.userId ∧ c.now = t ∧ P.hashSessionToken c.token = x.tokenHash
  | (.call c, .steppedUp u _ sid) | (.call c, .completed u _ _ sid) => u = x.userId ∧ c.now = t ∧ sid = x.id
  | _ => False

/-- The answer begins or ends the time of a factor. -/
def Event.turns (u : Uuid) : Event → Bool
  | .confirmed v .. | .disabled v .. => v = u
  | _ => false

/-- The answer ends every session of the user but the one it opens. -/
def Event.ends (u : Uuid) : Event → Bool
  | .passwordChanged v .. | .disabled v .. => v = u
  | _ => false

/-- The stamp was earned with a code, and the factor has been the same since. -/
def Assured (P : Primitives) (log : List (Request × Event)) (x : UserSession) (t : Time) : Prop :=
  ∃ l a l', log = l ++ a :: l' ∧ assures P x t a ∧ ∀ b ∈ l', b.2.turns x.userId = false

/-- A stamp on a live session belongs to the confirmed factor of the user. -/
structure Assurance (P : Primitives) (now : Time) (log : List (Request × Event)) (d : Db) : Prop where
  clock : ∀ v row t, d.mfa.find v = some row → row.confirmedAt = some t → t ≤ now
  stamps : ∀ x ∈ d.sessions.rows, x.live = true → ∀ t, x.mfaVerifiedAt = some t →
    Assured P log x t ∧ ∃ row t₀, d.mfa.find x.userId = some row ∧ row.confirmedAt = some t₀ ∧ t₀ ≤ t
  ended : ∀ l r e u, log = l ++ [(r, e)] → e.ends u = true → ∀ x ∈ d.sessions.rows, x.userId = u → x.live = true →
    x.mfaVerifiedAt = none

theorem Assured.append {P : Primitives} {log : List (Request × Event)} {x x' : UserSession} {t : Time} (h : Assured P log x t)
    (hb : x.Becomes x') (hid : x'.id = x.id) {more : List (Request × Event)} (hmore : ∀ b ∈ more, b.2.turns x.userId = false) :
    Assured P (log ++ more) x' t := by
  obtain ⟨l, a, l', rfl, ha, hl'⟩ := h
  refine ⟨l, a, l' ++ more, by simp, ?_, fun b hb' => ?_⟩
  · obtain ⟨r, e⟩ := a
    unfold assures at ha ⊢
    rw [hb.userId, hb.tokenHash, hid]
    exact ha
  · rw [hb.userId]
    exact (List.mem_append.1 hb').elim (hl' b) (hmore b)

/-! ### A request alone -/

/-- What the tail of a request that is alone has found, which is still so. -/
structure Tail.Steady (d : Db) (t : Tail) : Prop where
  rotates : ∀ u, t.event.ends u = true → t.Rotates u (fun _ => True) (fun _ => False) d
  pending : ∀ u secret, t.event = .enrolled u secret → (d.mfa.find u).bind UserMfa.confirmedAt = none

/-- What a request that is alone has come to, where its statements keep `I`. -/
inductive Kept (P : Primitives) (s : Settings) (d : Db) (r : Request) (I : Proc → Prop) (w : Requests Unit) : Prop
  | before (hdb : w.db = d) (htrace : ∀ e ∈ w.trace, ∃ reason, e = .refused reason) (hproc : I (w.proc ()))
  | after {t : Tail} {held : Lock → Prop} {refused : List Event} (hdone : w.proc () = .done)
      (hdb : w.db = t.writes.foldl Db.write d) (htrace : w.trace = refused ++ [t.event])
      (hrefused : ∀ e ∈ refused, ∃ reason, e = .refused reason) (hkept : I (.tail t)) (htodo : t.todo = [])
      (hdecided : Decided P s held d r t.event (t.writes.filter Write.planned))

section Alone
variable {P : Primitives} {s : Settings} {d : Db} {r : Request} {w : Requests Unit}

theorem Tail.Opens.steady {t : Tail} (h : t.Opens d) : t.Steady d := by
  refine ⟨fun u hends => ?_, h.pending⟩
  have hrot : t.event.rotates = some u := by
    cases he : t.event with
    | passwordChanged | disabled =>
      rw [he] at hends
      rw [Event.rotates, of_decide_eq_true hends]
    | _ =>
      rw [he] at hends
      cases hends
  obtain ⟨keep, hlists, hkeep, -, hrev | ⟨secret, step, he⟩⟩ := h.rotates u hrot
  · exact .ahead hlists hkeep (.inr fun _ _ _ => .inr hrev)
  · rw [he] at hends
    cases hends

theorem Tail.Steady.step {t t' : Tail} (h : (t.step d).next = .tail t') (hs : t.Steady d) : t'.Steady d := by
  obtain ⟨-, hevent, -⟩ := plan_step h
  exact ⟨fun u hends => (hs.rotates u (hevent ▸ hends)).step h, fun u secret he => hs.pending u secret (hevent ▸ he)⟩

/-- A request that is alone: it has changed nothing, or has committed what it has decided. -/
inductive AloneAt (P : Primitives) (s : Settings) (d : Db) (r : Request) (w : Requests Unit) : Prop
  | before (hdb : w.db = d) (htrace : ∀ e ∈ w.trace, ∃ r, e = .refused r) (hsteady : ∀ t, w.proc () = .tail t → t.Steady d)
  | after {t : Tail} {held : Lock → Prop} {refused : List Event} (hdone : w.proc () = .done)
      (hdb : w.db = t.writes.foldl Db.write d) (htrace : w.trace = refused ++ [t.event])
      (hrefused : ∀ e ∈ refused, ∃ r, e = .refused r) (htodo : t.todo = []) (hsteady : t.Steady d) (hfresh : t.Fresh d)
      (hdecided : Decided P s held d r t.event (t.writes.filter Write.planned))

theorem start_alone (d : Db) (r : Request) : Start (alone d r) where
  entry _ := by cases r <;> trivial
  trace := rfl

theorem kept_of_run {I : Proc → Prop} (h₀ : I r.entry) (hend : I .done)
    (hI : ∀ held p m, p.Holds P s held d → go P s d p = some m → I p → I m.next)
    (h : (authentication P s).Run (fun _ _ => True) (alone d r) w) : Kept P s d r I w := by
  have hrun := h.using fun {v} (hv : (authentication P s).Run (fun _ _ => True) (alone d r) v) =>
    And.intro (outline_of_run (start_alone d r) hv) fun r' => request_of_run (start_alone d r) hv () (r := r')
  refine hrun.invariant (I := Kept P s d r I) (.before rfl (fun e he => by cases he) h₀) fun w i c m hkept hC hm => ?_
  obtain ⟨-, hat, hrequest⟩ := hC
  rcases fires_cases (hat i) hm with ⟨t, hp, rfl, htodo, rfl, hholds⟩ | ⟨hdb', hemit, -⟩
  · cases hkept with
    | before hdb htrace hproc =>
      have hdecided := hholds.decided
      rw [Tail.plan, htodo, List.flatMap_nil, List.append_nil, hdb] at hdecided
      have hr : r = t.request := by
        have hreq := hrequest t.request (by rw [hp]; rfl)
        cases r <;> exact Option.some.inj hreq
      rw [← hr] at hdecided
      have hkept : I (.tail t) := hp ▸ hproc
      exact .after System.proc_after_self (by rw [System.db_after, hdb]; rfl) rfl htrace hkept htodo hdecided
    | after hdone =>
      rw [hdone] at hp
      cases hp
  · cases hkept with
    | before hdb htrace hproc =>
      refine .before (hdb'.trans hdb) (fun e he => (List.mem_append.1 he).elim (htrace e) (hemit e)) ?_
      rw [System.proc_after_self]
      rcases System.move_abortable hm.1 with hgo | rfl
      · have hholds : (w.proc i).Holds P s (fun k => w.owner k = some i) w.db := hat i
        rw [hdb] at hgo hholds
        exact hI _ _ m hholds hgo hproc
      · exact hend
    | after hdone hdb htrace hrefused hkept htodo hdecided =>
      have hmove := hm.1
      rw [hdone] at hmove
      cases c with
      | go => cases hmove
      | fail | crash =>
        cases hmove
        refine .after System.proc_after_self (hdb'.trans hdb) ?_ hrefused hkept htodo hdecided
        rw [System.trace_after, htrace, List.append_nil]

theorem alone_at (h : (authentication P s).Run (fun _ _ => True) (alone d r) w) : AloneAt P s d r w := by
  have hkept := kept_of_run (I := fun p => ∀ t, p = .tail t → t.Steady d ∧ t.Fresh d) (fun t ht => by cases r <;> cases ht)
    (fun t ht => by cases ht) (fun held p m hA hgo hI t ht => ?_) h
  · cases hkept with
    | before hdb htrace hproc => exact .before hdb htrace fun t ht => (hproc t ht).1
    | after hdone hdb htrace hrefused hkept htodo hdecided =>
      obtain ⟨hsteady, hfresh⟩ := hkept _ rfl
      exact .after hdone hdb htrace hrefused htodo hsteady hfresh hdecided
  · rcases go_begins hgo hA ht with ⟨t₀, hp, rfl⟩ | hbegins
    · obtain ⟨hsteady, hfresh⟩ := hI t₀ hp
      exact ⟨hsteady.step ht, hfresh.step ht⟩
    · exact ⟨hbegins.opens.steady, fun x hx => absurd hx (hbegins.opens.unopened x)⟩

end Alone

/-! ### A commit -/

section Commit
variable {P : Primitives} {s : Settings} {held : Lock → Prop} {d : Db} {r : Request} {e : Event} {ws : List Write} {now : Time}
  {log : List (Request × Event)}

theorem turns_of_other {v : Uuid} (h : e.factor ≠ some v) : e.turns v = false := by
  cases e with
  | confirmed | disabled => exact decide_eq_false fun hv => h (congrArg some hv)
  | _ => rfl

theorem confirmedAt_after (hd : Decided P s held d r e (ws.filter Write.planned)) {v : Uuid} {row' : UserMfa} {t : Time}
    (hrow' : (ws.foldl Db.write d).mfa.find v = some row') (ht : row'.confirmedAt = some t) :
    (e.turns v = false ∧ ∃ row, d.mfa.find v = some row ∧ row.confirmedAt = some t) ∨
      (t = r.now ∧ ∃ secret step, e = .confirmed v secret step) := by
  by_cases he : ∃ secret step, e = .confirmed v secret step
  · obtain ⟨secret, step, rfl⟩ := he
    refine .inr ⟨?_, secret, step, rfl⟩
    generalize hplan : ws.filter Write.planned = plan at hd
    cases hd with
    | @confirmed c current row code codes secret step hfactor =>
      have hfind : (ws.foldl Db.write d).mfa.find row.userId = some (row.set (confirmChange step c.now)) :=
        find_changed (by rw [hplan]; simp [Write.onMfa]) hfactor.stored
      cases hrow'.symm.trans hfind
      exact (Option.some.inj ht).symm
  left
  cases factor_commit hd v with
  | other hv h => exact ⟨turns_of_other hv, row', h.symm.trans hrow', ht⟩
  | enrolled he' h =>
    rw [hrow', Option.bind_some, ht] at h
    obtain ⟨row, hrow, hrowt⟩ := Option.bind_eq_some_iff.1 h.symm
    exact ⟨by rw [he']; rfl, row, hrow, hrowt⟩
  | @stepped row₀ row₁ hrow₀ hrow₁ hsteps =>
    cases hrow'.symm.trans hrow₁
    cases Table.key_of_find hrow₀
    cases hsteps with
    | confirmed => exact absurd ⟨_, _, rfl⟩ he
    | wrongCode hcounted =>
      obtain ⟨-, hat, -⟩ := set_recordMfaFailure hcounted
      exact ⟨rfl, row₀, hrow₀, hat.symm.trans ht⟩
    | steppedUp => exact ⟨rfl, row₀, hrow₀, ht⟩
    | completed => exact ⟨rfl, row₀, hrow₀, ht⟩
    | disabled => cases ht

theorem confirmed_after (hd : Decided P s held d r e (ws.filter Write.planned))
    (hpending : ∀ u secret, e = .enrolled u secret → (d.mfa.find u).bind UserMfa.confirmedAt = none) {v : Uuid} {row : UserMfa}
    {t : Time} (hrow : d.mfa.find v = some row) (ht : row.confirmedAt = some t) :
    (∃ spent sid, e = .disabled v spent sid) ∨
      (e.turns v = false ∧ ∃ row', (ws.foldl Db.write d).mfa.find v = some row' ∧ row'.confirmedAt = some t) := by
  cases factor_commit hd v with
  | other he h =>
    exact .inr ⟨turns_of_other he, row, h.trans hrow, ht⟩
  | @enrolled secret he _ =>
    have hnone := hpending v secret he
    rw [hrow, Option.bind_some, ht] at hnone
    cases hnone
  | @stepped row₀ row' hrow₀ hrow' hsteps =>
    cases hrow.symm.trans hrow₀
    cases Table.key_of_find hrow
    cases hsteps with
    | confirmed _ hnone =>
      rw [ht] at hnone
      cases hnone
    | wrongCode hcounted =>
      obtain ⟨-, hat, -⟩ := set_recordMfaFailure hcounted
      exact .inr ⟨rfl, _, hrow', hat.trans ht⟩
    | steppedUp => exact .inr ⟨rfl, _, hrow', ht⟩
    | completed => exact .inr ⟨rfl, _, hrow', ht⟩
    | @disabled spent sid => exact .inl ⟨spent, sid, rfl⟩

theorem accepted_after (hd : Decided P s held d r e (ws.filter Write.planned)) {x : UserSession} {t : Time} (ha : assures P x t (r, e)) :
    ∃ row' t₀, (ws.foldl Db.write d).mfa.find x.userId = some row' ∧ row'.confirmedAt = some t₀ := by
  have hfactor : e.factor = some x.userId ∧ e.ends x.userId = false ∧ ∀ secret, e ≠ .enrolled x.userId secret := by
    cases r with
    | login => cases ha
    | call c =>
      cases e with
      | confirmed | steppedUp | completed =>
        obtain ⟨rfl, -⟩ := ha
        exact ⟨rfl, rfl, fun _ he => by cases he⟩
      | _ => cases ha
  obtain ⟨hfactor, hends, henrolled⟩ := hfactor
  cases factor_commit hd x.userId with
  | other hv => exact absurd hfactor hv
  | @enrolled secret he _ => exact absurd he (henrolled secret)
  | @stepped row row' hrow hrow' hsteps =>
    have hconf : row'.confirmedAt.isSome = true := by
      cases hsteps with
      | confirmed => rfl
      | wrongCode =>
        cases r <;> cases ha
      | steppedUp hc | completed hc => exact hc
      | disabled =>
        cases r <;> cases ha
    obtain ⟨t₀, ht₀⟩ := Option.isSome_iff_exists.1 hconf
    exact ⟨row', t₀, hrow', ht₀⟩

/-- The stamp of a session after a commit is that of before, or this request has earned it, or there is none. -/
theorem stamp_origin (hd : Decided P s held d r e (ws.filter Write.planned)) {x' : UserSession}
    (hmem : x' ∈ (ws.foldl Db.write d).sessions.rows) :
    (∃ x ∈ d.sessions.rows, x.After ws x' ∧ x'.mfaVerifiedAt = x.mfaVerifiedAt) ∨
      (x'.mfaVerifiedAt = some r.now ∧ assures P x' r.now (r, e)) ∨ x'.mfaVerifiedAt = none := by
  have hmints := hd.mints
  have hplanned : ∀ {u : Write}, u ∈ ws → u.mints = true → u ∈ (ws.filter Write.planned).filter Write.mints := fun {u} hu hm =>
    List.mem_filter.2 ⟨List.mem_filter.2 ⟨hu, by cases u <;> first | rfl | cases hm⟩, hm⟩
  generalize (ws.filter Write.planned).filter Write.mints = l at hmints hplanned
  rcases session_origin hmem with ⟨x, hx, hafter⟩ | ⟨x, hx, -, hafter⟩
  · rcases hafter.stamp with hsame | ⟨now', hstamp, hnow'⟩
    · exact .inl ⟨x, hx, hafter, hsame⟩
    · right; left
      have hin := hplanned hstamp rfl
      cases hmints with
      | nothing => cases hin
      | opened => cases List.mem_singleton.1 hin
      | @stamped c e id u hcalls he =>
        cases List.mem_singleton.1 hin
        obtain ⟨x₀, hx₀, huser, htoken⟩ := hcalls
        cases hx₀.symm.trans (Table.find_of_mem hx)
        refine ⟨hnow', ?_⟩
        rcases he with ⟨secret, step, rfl⟩ | ⟨spent, rfl⟩
        · exact ⟨huser.symm.trans hafter.userId.symm, rfl, htoken.symm.trans hafter.tokenHash.symm⟩
        · exact ⟨huser.symm.trans hafter.userId.symm, rfl, hafter.id.symm⟩
  · have hin := hplanned hx rfl
    cases hmints with
    | nothing => cases hin
    | stamped => cases List.mem_singleton.1 hin
    | @opened r e x₀ he hx₀ =>
      cases List.mem_singleton.1 hin
      have hsame : x'.mfaVerifiedAt = x.mfaVerifiedAt := by
        rcases hafter.stamp with hsame | ⟨now', hstamp, -⟩
        · exact hsame
        · cases List.mem_singleton.1 (hplanned hstamp rfl)
      rw [hsame]
      rcases hx₀ with hnone | ⟨c, spent, pendingId, rfl, hverified, rfl⟩
      · exact .inr (.inr hnone)
      · exact .inr (.inl ⟨hverified, hafter.userId.symm, rfl, hafter.id.symm⟩)

end Commit

section Serial
variable {P : Primitives} {s : Settings} {held : Lock → Prop} {d : Db} {r : Request} {t : Tail} {now : Time}
  {log : List (Request × Event)}

theorem Assurance.refused (ha : Assurance P now log d) (hnow : now ≤ r.now) {refused : List Event}
    (hrefused : ∀ e ∈ refused, ∃ r, e = .refused r) : Assurance P r.now (log ++ refused.map fun e => (r, e)) d := by
  refine ⟨fun v row t hrow ht => Int.le_trans (ha.clock v row t hrow ht) hnow, fun x hx hlive t ht => ?_, fun l r' e u hlog hends => ?_⟩
  · obtain ⟨hassured, hrow⟩ := ha.stamps x hx hlive t ht
    refine ⟨hassured.append (.refl x) rfl fun b hb => ?_, hrow⟩
    obtain ⟨e, he, rfl⟩ := List.mem_map.1 hb
    obtain ⟨r', rfl⟩ := hrefused e he
    rfl
  · rcases List.eq_nil_or_concat refused with rfl | ⟨init, last, rfl⟩
    · rw [List.map_nil, List.append_nil] at hlog
      exact ha.ended l r' e u hlog hends
    · obtain ⟨reason, rfl⟩ := hrefused last (by simp)
      rw [List.concat_eq_append, List.map_append, ← List.append_assoc] at hlog
      have hlast := List.append_inj_right' hlog rfl
      cases hlast
      cases hends

theorem Assurance.commit (ha : Assurance P now log d) (hnow : now ≤ r.now) (htodo : t.todo = []) (hsteady : t.Steady d)
    (hd : Decided P s held d r t.event (t.writes.filter Write.planned)) :
    Assurance P r.now (log ++ [(r, t.event)]) (t.writes.foldl Db.write d) := by
  have hclock : ∀ v row t', (t.writes.foldl Db.write d).mfa.find v = some row → row.confirmedAt = some t' → t' ≤ r.now :=
    fun v row t' hrow ht => by
      rcases confirmedAt_after hd hrow ht with ⟨-, row₀, hrow₀, ht₀⟩ | ⟨rfl, -⟩
      · exact Int.le_trans (ha.clock v row₀ t' hrow₀ ht₀) hnow
      · exact Int.le_refl _
  -- a request that ends the sessions of the user leaves none of them
  have hended : ∀ u, t.event.ends u = true → ∀ x ∈ d.sessions.rows, x.userId = u → ∀ x', x.After t.writes x' →
      x' ∈ (t.writes.foldl Db.write d).sessions.rows → x'.live = true → False := fun u hends x hx huser x' hafter hmem' hlive' =>
    (hsteady.rotates u hends).commit htodo hx huser trivial (hafter.id ▸ Table.find_of_mem hmem') hlive'
  refine ⟨hclock, fun x' hmem' hlive' t' ht' => ?_, fun l r' e u hlog hends x' hmem' huser hlive' => ?_⟩
  · rcases stamp_origin hd hmem' with ⟨x, hx, hafter, hsame⟩ | ⟨hverified, hassures⟩ | hnone
    · have hlive : x.live = true := by
        by_contra hdead
        rw [hafter.revoked (by simpa using hdead)] at hlive'
        cases hlive'
      obtain ⟨hassured, row, t₀, hrow, ht₀, hle⟩ := ha.stamps x hx hlive t' (hsame.symm.trans ht')
      rcases confirmed_after hd hsteady.pending hrow ht₀ with ⟨spent, sid, he⟩ | ⟨hturns, row', hrow', ht₀'⟩
      · exact (hended x.userId (by rw [he]; exact decide_eq_true rfl) x hx rfl x' hafter hmem' hlive').elim
      · refine ⟨hassured.append hafter.toBecomes hafter.id fun b hb => ?_, row', t₀, hafter.userId ▸ hrow', ht₀', hle⟩
        cases List.mem_singleton.1 hb
        exact hturns
    · cases ht'.symm.trans hverified
      obtain ⟨row', t₀, hrow', ht₀⟩ := accepted_after hd hassures
      exact ⟨⟨log, _, [], rfl, hassures, fun b hb => by cases hb⟩, row', t₀, hrow', ht₀, hclock _ row' t₀ hrow' ht₀⟩
    · rw [hnone] at ht'
      cases ht'
  · have hlast := List.append_inj_right' hlog rfl
    cases hlast
    rcases stamp_origin hd hmem' with ⟨x, hx, hafter, -⟩ | ⟨-, hassures⟩ | hnone
    · exact (hended u hends x hx (hafter.userId.symm.trans huser) x' hafter hmem' hlive').elim
    · cases r with
      | login => cases hassures
      | call c => cases he : t.event <;> rw [he] at hassures hends <;> first | cases hends | cases hassures
    · exact hnone

/-- `require_session` on a database that stands still. -/
def passesGate (P : Primitives) (s : Settings) (d : Db) (c : Call) : Option AuthenticatedSession :=
  match (go P s d (.bootstrap c)).map Move.next with
  | some (.mfaState c sessionId userId) =>
    match (go P s d (.mfaState c sessionId userId)).map Move.next with
    | some (.touch _ current) => some current
    | _ => none
  | _ => none

/-- Who passes the gate with a confirmed factor has a stamped session. -/
theorem stamped_of_passesGate {c : Call} {current : AuthenticatedSession} (h : passesGate P s d c = some current)
    (hpending : c.operation.allowPending = false) (henrolled : mfaEnrolled d current.userId = true) :
    ∃ x ∈ d.sessions.rows, x.id = current.sessionId ∧ x.userId = current.userId ∧ x.live = true ∧ x.mfaVerifiedAt.isSome = true := by
  unfold passesGate at h
  split at h
  next c' sessionId userId heq =>
    simp only [go, Option.map_some, Option.some.injEq] at heq
    split at heq
    · cases heq
    split at heq
    · cases heq
    split at heq
    · cases heq
    next x u hfound =>
      split at heq
      · cases heq
      next hok =>
        cases heq
        obtain ⟨x', hx, hu⟩ := Option.bind_eq_some_iff.1 hfound
        obtain ⟨u', -, hpair⟩ := Option.map_eq_some_iff.1 hu
        cases hpair
        have hmem := List.mem_of_find?_eq_some hx
        simp only [go, Option.map_some, Table.find_of_mem hmem] at h
        split at h
        next heq' =>
          cases h
          split at heq'
          · cases heq'
          next hgate =>
            cases heq'
            rw [hpending, henrolled] at hgate
            refine ⟨x, hmem, rfl, rfl, ?_, ?_⟩
            · cases hr : x.revokedAt with
              | none => exact decide_eq_true hr
              | some => exact absurd (.inl (by rw [hr]; rfl)) hok
            · cases hv : x.mfaVerifiedAt with
              | none =>
                rw [hv] at hgate
                exact absurd rfl hgate
              | some => rfl
        · cases h
  · cases h

theorem Serial.assurance {t₀ : Time} {d₀ : Db} (h : Serial P s t₀ d₀ now log d) (h₀ : Assurance P t₀ [] d₀) : Assurance P now log d := by
  induction h with
  | start => exact h₀
  | @registered now log d d' _ statements x hnow hregister ih =>
    obtain ⟨hsessions, hmfa⟩ := register_frame hregister
    refine ⟨fun v row t hrow ht => Int.le_trans (ih.clock v row t (hmfa ▸ hrow) ht) hnow, ?_, ?_⟩
    · rw [hsessions, hmfa]
      exact ih.stamps
    · rw [hsessions]
      exact ih.ended
  | @request now log d w _ r hnow hrun hdone ih =>
    cases alone_at hrun with
    | before hdb htrace =>
      rw [hdb]
      exact ih.refused hnow htrace
    | @after t held refused _ hdb htrace hrefused htodo hsteady _ hdecided =>
      rw [hdb, htrace, List.map_append, ← List.append_assoc]
      exact (ih.refused hnow hrefused).commit (Int.le_refl _) htodo hsteady hdecided

/-- From a database without stamps on live sessions, after any requests and registrations one after the other: a stamp on a
live session was earned with a code for the factor that is confirmed now, at or after its confirmation; without a
confirmed factor no live session is stamped; who passes the gate while a factor is confirmed has earned such a stamp;
and no stamp outlives a password change or the end of its factor. -/
theorem assurance_current {t₀ : Time} {d₀ : Db} (hclock : ∀ row ∈ d₀.mfa.rows, ∀ t, row.confirmedAt = some t → t ≤ t₀)
    (hstamps : ∀ x ∈ d₀.sessions.rows, x.live = true → x.mfaVerifiedAt = none) (h : Serial P s t₀ d₀ now log d) :
    (∀ x ∈ d.sessions.rows, x.live = true → ∀ t, x.mfaVerifiedAt = some t →
        Assured P log x t ∧ ∃ row t₀, d.mfa.find x.userId = some row ∧ row.confirmedAt = some t₀ ∧ t₀ ≤ t) ∧
      (∀ u, mfaEnrolled d u = false → ∀ x ∈ d.sessions.rows, x.userId = u → x.live = true → x.mfaVerifiedAt = none) ∧
      (∀ c current, passesGate P s d c = some current → c.operation.allowPending = false → mfaEnrolled d current.userId = true →
        ∃ x ∈ d.sessions.rows, x.id = current.sessionId ∧ x.live = true ∧ ∃ t, x.mfaVerifiedAt = some t ∧ Assured P log x t) ∧
      ∀ l r e u, log = l ++ [(r, e)] → e.ends u = true → ∀ x ∈ d.sessions.rows, x.userId = u → x.live = true →
        x.mfaVerifiedAt = none := by
  have ha : Assurance P now log d := h.assurance
    ⟨fun v row t hrow ht => hclock row (Table.mem_of_find hrow) t ht,
      fun x hx hlive t ht => (by rw [hstamps x hx hlive] at ht; cases ht),
      fun l r e u hlog => by simp at hlog⟩
  refine ⟨ha.stamps, fun u hnone x hx huser hlive => ?_, fun c current hgate hpending henrolled => ?_, ha.ended⟩
  · cases ht : x.mfaVerifiedAt with
    | none => rfl
    | some t =>
      obtain ⟨-, row, t₁, hrow, ht₁, -⟩ := ha.stamps x hx hlive t ht
      rw [huser] at hrow
      rw [mfaEnrolled, hrow, Option.any_some, ht₁] at hnone
      cases hnone
  · obtain ⟨x, hx, hid, -, hlive, hsome⟩ := stamped_of_passesGate hgate hpending henrolled
    obtain ⟨t, ht⟩ := Option.isSome_iff_exists.1 hsome
    exact ⟨x, hx, hid, hlive, t, ht, (ha.stamps x hx hlive t ht).1⟩

end Serial

/-- A confirmation of the pending factor, from the first of two sessions. -/
theorem assurance_current_after_confirm : ∃ (log : List (Request × Event)) (d : Db),
    Serial Primitives.plain Settings.shipped 0 Race.db (Time.seconds 62) log d ∧
      ∃ x ∈ d.sessions.rows, x.live = true ∧ x.mfaVerifiedAt = some (Time.seconds 62) ∧
        Assured Primitives.plain log x (Time.seconds 62) := by
  have run : ((authentication Primitives.plain Settings.shipped).exec (fun _ _ => True)
      (alone Race.db (.call ⟨"first", Time.seconds 62, .confirmMfa "359152" Race.codes⟩)) (steps () 20)).any
      (fun w => (match w.proc () with | .done => true | _ => false) &&
        w.db.sessions.rows.any fun x => x.live && x.mfaVerifiedAt = some (Time.seconds 62)) = true := by
    decide +kernel
  obtain ⟨w, hw, hp⟩ := System.Run.of_exec_any run
  rw [Bool.and_eq_true] at hp
  have hdone : w.proc () = .done := by
    cases hproc : w.proc () <;> rw [hproc] at hp <;> first | rfl | cases hp.1
  obtain ⟨x, hmem, hx⟩ := List.any_eq_true.1 hp.2
  rw [Bool.and_eq_true, decide_eq_true_eq] at hx
  have hbegin : Serial Primitives.plain Settings.shipped 0 Race.db 0 [] Race.db := .start
  have hserial := hbegin.request (.call ⟨"first", Time.seconds 62, .confirmMfa "359152" Race.codes⟩) (by decide) hw hdone
  have hstart : ∀ row ∈ Race.db.mfa.rows, ∀ t, row.confirmedAt = some t → t ≤ (0 : Time) := by decide +kernel
  refine ⟨_, _, hserial, x, hmem, hx.1, hx.2, ?_⟩
  exact ((assurance_current hstart (by decide +kernel) hserial).1 x hmem hx.1 _ hx.2).1

end TestingPlatform.Auth
