import TestingPlatform.Auth.Enrollment
import TestingPlatform.Auth.Sessions

/-!
# Sessions opened from a revoked one

The session touch locks the row of the calling session, so nobody revokes that session between the touch and the
commit; but the touch itself does not look at `revoked_at`, and the bootstrap before it holds no lock. A stamp is
a conditional update whose miss is an error. A rotation revokes with an update whose miss is ignored, so it opens
its session in any case: it is right only where its touch has found the session unrevoked.
-/

namespace TestingPlatform.Auth

open ReadCommitted

def sessionLive (d : Db) (id : Uuid) : Bool := (d.sessions.find id).any UserSession.live

/-- The requests that replace the calling session by a new one. -/
def Call.rotates (c : Call) (current : AuthenticatedSession) : Bool :=
  match c.operation with
  | .changePassword .. | .disableMfa .. => true
  | .verifyMfa .. => current.mfaEnrolled && current.mfaVerifiedAt.isNone
  | _ => false

section Stamps
variable {P : Primitives}

@[simp] theorem stampSession_updateMfa {id userId : Uuid} {c : MfaChange} : .stampSession id ∉ updateMfa userId c := by
  unfold updateMfa
  split <;> simp

@[simp] theorem stampSession_updateCredential {id userId : Uuid} {c : CredentialChange} :
    .stampSession id ∉ updateCredential userId c := by
  unfold updateCredential
  split <;> simp

@[simp] theorem stampSession_insertRecoveryCodes {id userId : Uuid} {codes : RecoveryCodes} :
    .stampSession id ∉ insertRecoveryCodes P userId codes := by
  simp [insertRecoveryCodes]

end Stamps

/-! ### What a mint rests on -/

/-- A tail behind the cookie touches and stamps one session, which is live where the tail stamps or opens. -/
structure Tail.Rests (d : Db) (t : Tail) (sid : Uuid) : Prop where
  touches : ∀ id now, .touch id now ∈ t.writes → id = sid
  stamps : ∀ id, .stampSession id ∈ t.todo → id = sid
  stamped : ∀ id now, .stampSession id now ∈ t.writes → id = sid ∧ sessionLive d sid = true
  opens : t.event.opens.isSome = true → sessionLive d sid = true

/-- What a request that may rotate knows about its session from its touch on. -/
def Proc.Rests (d : Db) : Proc → Prop
  | .tail t => (∀ id now, .touch id now ∉ t.writes) ∨ ∃ sid, (∃ now, .touch sid now ∈ t.writes) ∧ t.Rests d sid
  | p => ∀ c current, p.call = some (c, current) → c.rotates current = true → sessionLive d current.sessionId = true

section Rests
variable {P : Primitives} {s : Settings} {d : Db} {c : Call} {current : AuthenticatedSession} {p : Proc}

theorem useCode_of_mem {row : UserMfa} {spent : Spent} {now : Time} {u : Write} (h : u ∈ useWrites row spent now) :
    ∃ v hash now', u = .useCode v hash now' := by
  cases spent with
  | step => cases h
  | recovery hash => exact ⟨row.userId, hash, now, List.mem_singleton.1 h⟩

/-- What a request behind the cookie decides rests on its session, which is live where a new one is to replace it. -/
theorem rests_tail {writes : List Write} {todo : List Stmt} {event : Event}
    (hopens : event.opens.isSome = true → sessionLive d current.sessionId = true)
    (hstamps : ∀ id, .stampSession id ∈ todo → id = current.sessionId)
    (hcodes : ∀ u ∈ writes, ∃ v hash now, u = .useCode v hash now) : (Proc.tail (c.tail current writes todo event)).Rests d := by
  refine .inr ⟨current.sessionId, ⟨c.now, List.mem_cons_self⟩, fun id now hid => ?_, hstamps, fun id now hid => ?_, hopens⟩
  · rcases List.mem_cons.1 hid with heq | hid
    · cases heq
      rfl
    · obtain ⟨v, hash, now', heq⟩ := hcodes _ hid
      cases heq
  · rcases List.mem_cons.1 hid with heq | hid
    · cases heq
    · obtain ⟨v, hash, now', heq⟩ := hcodes _ hid
      cases heq

theorem Begins.rests {t : Tail} (h : Begins P s d p t)
    (hlive : ∀ c current, p = .touch c current ∨ p.call = some (c, current) → c.rotates current = true →
      sessionLive d current.sessionId = true) : (Proc.tail t).Rests d := by
  cases h with
  | loginFailed | loggedIn => exact .inl fun _ _ hid => by cases hid
  | loggedOut | enrolled | reenrolled | confirmed | wrongCode | regenerated =>
    exact rests_tail (fun hopens => by cases hopens) (by simp) fun u hu => by cases hu
  | passwordChanged _ hop =>
    exact rests_tail (fun _ => hlive _ _ (.inr rfl) (by rw [Call.rotates, hop])) (by simp) fun u hu => by cases hu
  | steppedUp => exact rests_tail (fun hopens => by cases hopens) (by simp) fun u => useCode_of_mem
  | completed hp _ hop hpending =>
    exact rests_tail (fun _ => hlive _ _ (.inr hp) (by rw [Call.rotates, hop]; exact hpending)) (by simp) fun u => useCode_of_mem
  | disabled hp _ hop => exact rests_tail (fun _ => hlive _ _ (.inr hp) (by rw [Call.rotates, hop])) (by simp) fun u => useCode_of_mem

/-- A tail adds no touch, and a stamp only of a live session that it was to stamp. -/
theorem write_step {t t' : Tail} (h : (t.step d).next = .tail t') {u : Write} (hu : u ∈ t'.writes) :
    u ∈ t.writes ∨ (∀ id now, u ≠ .touch id now) ∧
      ∀ id now, u = .stampSession id now → .stampSession id ∈ t.todo ∧ sessionLive d id = true := by
  obtain ⟨stmt, rest, htodo, ⟨ks, w, ho, -, rfl⟩ | ⟨todo, -, -, rfl⟩⟩ := tail_step h
  · rcases List.mem_append.1 hu with hu | hu
    · exact .inl hu
    · right
      cases List.mem_singleton.1 hu
      rw [htodo]
      cases stmt with
      | stampSession id =>
        simp only [Stmt.outcome] at ho
        split at ho
        next hlive =>
          cases ho
          refine ⟨fun _ _ hne => (by cases hne), fun id' now' heq => ?_⟩
          cases heq
          exact ⟨List.mem_cons_self, hlive⟩
        · cases ho
      | updateCredential | updateMfa =>
        cases ho
        exact ⟨fun _ _ hne => (by cases hne), fun _ _ heq => by cases heq⟩
      | revokeOtherSessions | burnRecoveryCodes => cases ho
      | _ =>
        simp only [Stmt.outcome] at ho
        split at ho <;> cases ho
        exact ⟨fun _ _ hne => (by cases hne), fun _ _ heq => by cases heq⟩
  · exact .inl hu

theorem Tail.Rests.step {t t' : Tail} {sid : Uuid} (h : (t.step d).next = .tail t') (hr : t.Rests d sid) : t'.Rests d sid := by
  obtain ⟨-, hevent, -⟩ := plan_step h
  refine ⟨fun id now hid => ?_, fun id hid => ?_, fun id now hid => ?_, fun hopens => hr.opens (hevent ▸ hopens)⟩
  · rcases write_step h hid with hid | ⟨hne, -⟩
    · exact hr.touches id now hid
    · exact absurd rfl (hne id now)
  · obtain ⟨stmt, rest, htodo, hcase⟩ := tail_step h
    have hrest : .stampSession id ∈ rest → id = sid := fun hin => hr.stamps id (by rw [htodo]; exact List.mem_cons_of_mem _ hin)
    obtain ⟨ks, w, -, -, rfl⟩ | ⟨todo, ho, -, rfl⟩ := hcase
    · exact hrest hid
    · rcases List.mem_append.1 hid with hin | hin
      · -- no statement turns out to be a stamp
        cases stmt with
        | revokeOtherSessions | burnRecoveryCodes =>
          cases ho
          obtain ⟨x, -, hx⟩ := List.mem_map.1 hin
          cases hx
        | updateCredential | updateMfa => cases ho
        | _ =>
          simp only [Stmt.outcome] at ho
          split at ho <;> cases ho
          try cases hin
      · exact hrest hin
  · rcases write_step h hid with hid | ⟨-, hstamp⟩
    · exact hr.stamped id now hid
    · obtain ⟨htodo, hlive⟩ := hstamp id now rfl
      obtain rfl := hr.stamps id htodo
      exact ⟨rfl, hlive⟩

end Rests

/-! ### Every run -/

/-- The request that is about to touch its session. -/
def Proc.touching : Proc → Option (Call × AuthenticatedSession)
  | .touch c current => some (c, current)
  | _ => none

/-- The touch of a request that rotates finds its session unrevoked. -/
def TouchesLive {π : Type} (w : Requests π) (a : π × Choice) : Prop :=
  a.2 = .go → ∀ x ∈ (w.proc a.1).touching, x.1.rotates x.2 = true → sessionLive w.db x.2.sessionId = true

instance {π : Type} (w : Requests π) (a : π × Choice) : Decidable (TouchesLive w a) :=
  inferInstanceAs (Decidable (a.2 = .go → ∀ x ∈ (w.proc a.1).touching, x.1.rotates x.2 = true →
    sessionLive w.db x.2.sessionId = true))

/-- Whoever commits a session or a stamp has touched a session that is not revoked when it commits. -/
def MintsFromLive {π : Type} [DecidableEq π] (P : Primitives) (s : Settings) (w : Requests π) : Prop :=
  ∀ i choice m ws, (authentication P s).Fires w i choice m → m.op = .commit ws → (∃ u ∈ ws, u.mints = true) →
    ∀ sid now, .touch sid now ∈ ws → sessionLive w.db sid = true

section Runs
variable {π : Type} [DecidableEq π] {P : Primitives} {s : Settings} {w₀ w : Requests π}

theorem sessionLive_congr {d d' : Db} {id : Uuid} (h : (Lock.session id).agree d d') : sessionLive d' id = sessionLive d id := by
  rw [sessionLive, sessionLive, show d'.sessions.find id = d.sessions.find id from h]

theorem Proc.Rests.stable {held : Lock → Prop} {d d' : Db} {p : Proc} (hp : p.Holds P s held d)
    (hagree : ∀ k, held k → k.agree d d') (hr : p.Rests d) : p.Rests d' := by
  have session : ∀ {id}, held (.session id) → sessionLive d id = true → sessionLive d' id = true := fun hheld hlive =>
    (sessionLive_congr (hagree _ hheld)).trans hlive
  cases p with
  | tail t =>
    rcases hr with hno | ⟨sid, ⟨now, htouch⟩, hr⟩
    · exact .inl hno
    · have hlock := hp.covered _ htouch (.session sid) rfl
      refine .inr ⟨sid, ⟨now, htouch⟩, hr.touches, hr.stamps, fun id now hid => ?_, fun hopens => session hlock (hr.opens hopens)⟩
      obtain ⟨rfl, hlive⟩ := hr.stamped id now hid
      exact ⟨rfl, session hlock hlive⟩
  | credential | enrollRow =>
    intro c' current' hcall hrot
    cases hcall
    exact session hp.1.session_lock (hr _ _ rfl hrot)
  | regenerateRow | factor =>
    intro c' current' hcall hrot
    cases hcall
    have hsession : Holding P held d _ _ := hp
    exact session hsession.session_lock (hr _ _ rfl hrot)
  | disableCredential =>
    intro c' current' hcall hrot
    cases hcall
    have htrying : Trying P held d _ _ _ := hp
    exact session htrying.session_lock (hr _ _ rfl hrot)
  | consume =>
    intro c' current' hcall hrot
    cases hcall
    exact session hp.1.session_lock (hr _ _ rfl hrot)
  | _ => exact fun _ _ hcall => by cases hcall

theorem Proc.Rests.next {held : Lock → Prop} {d : Db} {p : Proc} {m : Step} (h : go P s d p = some m) (hA : p.Holds P s held d)
    (htouch : ∀ c current, p = .touch c current → c.rotates current = true → sessionLive d current.sessionId = true)
    (hr : p.Rests d) : m.next.Rests d := by
  have hlive : ∀ c current, p = .touch c current ∨ p.call = some (c, current) → c.rotates current = true →
      sessionLive d current.sessionId = true := by
    rintro c current (hp | hp)
    · exact htouch c current hp
    · cases p with
      | tail => cases hp
      | _ => exact hr c current hp
  have hleads := go_leads h hA
  generalize m.next = q at hleads
  cases hleads with
  | @lookedUp _ _ _ _ _ _ verified _ _ _ _ _ _ _ hq =>
    subst hq
    cases verified <;> exact fun _ _ hcall => by cases hcall
  | undecided hp hq =>
    cases q with
    | tail => cases hq
    | _ =>
      intro c' current' hcall hrot
      cases hq.symm.trans hcall
      exact hlive _ _ hp hrot
  | decided hbegins => exact hbegins.rests hlive
  | went hstep =>
    rcases hr with hno | ⟨sid, ⟨now, htouched⟩, hr⟩
    · refine .inl fun id now hid => ?_
      rcases write_step hstep hid with hid | ⟨hne, -⟩
      · exact hno id now hid
      · exact hne id now rfl
    · refine .inr ⟨sid, ⟨now, ?_⟩, hr.step hstep⟩
      obtain ⟨_, _, _, ⟨_, _, _, _, rfl⟩ | ⟨_, _, _, rfl⟩⟩ := tail_step hstep
      · exact List.mem_append_left _ htouched
      · exact htouched
  | _ => exact fun _ _ hcall => by cases hcall

theorem rests_of_run (h₀ : Start w₀) (h : (authentication P s).Run TouchesLive w₀ w) (i : π) : (w.proc i).Rests w.db := by
  have hrun := h.using fun hv => outline_of_run h₀ hv
  refine hrun.invariant (I := fun w => ∀ i, (w.proc i).Rests w.db) (fun j => ?_) (fun w j c m hI ⟨hC, hat⟩ hm k => ?_) i
  · have he := h₀.entry j
    generalize w₀.proc j = p at he
    cases p with
    | login | bootstrap | done => exact fun _ _ hcall => by cases hcall
    | _ => cases he
  by_cases hjk : k = j
  · subst hjk
    rw [System.proc_after_self]
    cases c with
    | go =>
      rcases fires_cases (hat k) hm with ⟨t, hp, -, -, rfl, -⟩ | ⟨hdb, -⟩
      · exact fun _ _ hcall => by cases hcall
      rw [hdb]
      exact (hI k).next hm.1 (hat k) fun c current hp hrot => hC rfl (c, current) (by rw [hp]; rfl) hrot
    | fail | crash =>
      cases hm.1
      exact fun _ _ hcall => by cases hcall
  · rw [System.proc_after_of_ne hjk]
    have hholds : (w.proc k).Holds P s (fun x => w.owner x = some k) w.db := hat k
    exact (hI k).stable hholds fun x hx =>
      (rows P s).agree_of_owner (fun _ hop u hu y hy => (outline P s).covered hm.1 (hat j) hop u hu y hy) hjk hx

/-- Where the touch of every request that rotates finds its session unrevoked, sessions and stamps are committed from
unrevoked sessions only. -/
theorem mints_from_live (h₀ : Start w₀) (h : (authentication P s).Run TouchesLive w₀ w) : MintsFromLive P s w := by
  intro i choice m ws hm hop hmints sid now htouch
  rcases fires_cases (outline_of_run h₀ h i) hm with ⟨t, hp, -, htodo, rfl, hholds⟩ | ⟨-, -, hno⟩
  · cases hop
    have hrests : (w.proc i).Rests w.db := rests_of_run h₀ h i
    rw [hp] at hrests
    rcases hrests with hnone | ⟨sid', -, hr⟩
    · exact absurd htouch (hnone sid now)
    obtain rfl := hr.touches sid now htouch
    have hdecided := hholds.decided
    rw [Tail.plan, htodo, List.flatMap_nil, List.append_nil] at hdecided
    obtain ⟨u, hu, hmint⟩ := hmints
    cases u with
    | insertSession x =>
      have hopens := hdecided.opens (List.mem_filter.2 ⟨hu, rfl⟩)
      exact hr.opens (by rw [hopens]; rfl)
    | stampSession id now' =>
      obtain ⟨-, hlive⟩ := hr.stamped id now' hu
      exact hlive
    | _ => cases hmint
  · exact absurd hop (hno ws)

end Runs

/-! ### A rotation after a logout -/

namespace LateRotation

/-- A password change and a logout from one session. -/
def requests : Fin 2 → Proc
  | 0 => .bootstrap ⟨"second", Time.seconds 60, .changePassword "correct horse" "battery staple" [] [] { id := 40, token := "seventh" }⟩
  | 1 => .bootstrap ⟨"second", Time.seconds 61, .logout⟩

def begin : Requests (Fin 2) where
  db := Race.db
  owner _ := none
  proc := requests
  trace := []

theorem start : Start begin where
  entry := fun | 0 | 1 => trivial
  trace := rfl

/-- What the change is about to commit. -/
def staged (w : Requests (Fin 2)) : Option (List Write) :=
  match w.proc 0 with
  | .tail { todo := [], writes, .. } => some writes
  | _ => none

theorem fires_staged {w : Requests (Fin 2)} {ws : List Write} (h : staged w = some ws) :
    ∃ m, (authentication Primitives.plain Settings.shipped).Fires w 0 .go m ∧ m.op = .commit ws := by
  unfold staged at h
  split at h
  next heq =>
    cases h
    exact ⟨_, ⟨congrArg (go Primitives.plain Settings.shipped w.db) heq, trivial⟩, rfl⟩
  · cases h

end LateRotation

open LateRotation in
/-- The session is revoked between the bootstrap of the change and its touch. -/
theorem revoked_session_mints : ∃ w₀ w : Requests (Fin 2), Start w₀ ∧
    (authentication Primitives.plain Settings.shipped).Run (fun _ _ => True) w₀ w ∧ ¬ MintsFromLive Primitives.plain Settings.shipped w := by
  have run : ((authentication Primitives.plain Settings.shipped).exec (fun _ _ => True) begin (steps 0 2 ++ steps 1 5 ++ steps 0 7)).any
      (fun w => (staged w).any fun ws => ws.any Write.mints && .touch 20 (Time.seconds 60) ∈ ws && !sessionLive w.db 20) = true := by
    decide +kernel
  obtain ⟨w, hw, hp⟩ := System.Run.of_exec_any run
  obtain ⟨ws, hstaged, hws⟩ := (Option.any_eq_true ..).1 hp
  simp only [Bool.and_eq_true, decide_eq_true_eq, Bool.not_eq_true'] at hws
  obtain ⟨⟨hany, htouch⟩, hdead⟩ := hws
  obtain ⟨m, hm, hop⟩ := fires_staged hstaged
  refine ⟨begin, w, start, hw, fun hmints => ?_⟩
  have hlive := hmints 0 .go m ws hm hop (List.any_eq_true.1 hany) 20 _ htouch
  rw [hdead] at hlive
  cases hlive

open LateRotation in
/-- The change is about to commit its session before the logout begins. -/
theorem mints_from_live_before_logout : ∃ (w : Requests (Fin 2)) (ws : List Write), staged w = some ws ∧ (∃ u ∈ ws, u.mints = true) ∧
    MintsFromLive Primitives.plain Settings.shipped w := by
  have run : ((authentication Primitives.plain Settings.shipped).exec TouchesLive begin (steps 0 9)).any
      (fun w => (staged w).any fun ws => ws.any Write.mints) = true := by
    decide +kernel
  obtain ⟨w, hw, hp⟩ := System.Run.of_exec_any run
  obtain ⟨ws, hstaged, hany⟩ := (Option.any_eq_true ..).1 hp
  exact ⟨w, ws, hstaged, List.any_eq_true.1 hany, mints_from_live start hw⟩

end TestingPlatform.Auth
