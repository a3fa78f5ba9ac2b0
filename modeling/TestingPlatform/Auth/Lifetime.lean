import TestingPlatform.Auth.Enrollment
import TestingPlatform.Lib.History

/-!
# The lifetime of a session

`_resolve_session` compares ages with the caps, `session_expiries` and `_session_info` report instants. Here the
policy stands before any handler at all: a request is let in, its touch waits for the commit of the unit of work, and
what the handler does in between, and when it fails, is arbitrary. Whatever the requests do, a session is let in
until the instants that its row reports, and the row moves by the commits of requests that were let in
(`session_lifetime`).
-/

namespace TestingPlatform.Auth

open ReadCommitted

section Policy
variable (P : Primitives) (s : Settings)

/-! ### The policy -/

/-- `_resolve_session` up to the user context: the token, the lookup, revocation and both caps. -/
def resolve (d : Db) (token : String) (now : Time) : Except Refusal UserSession :=
  if token = "" then .error .notAuthenticated
  else if !isAscii token then .error .internalError
  else
    match sessionBootstrap d (P.hashSessionToken token) with
    | none => .error .notAuthenticated
    | some (x, u) =>
      if x.revokedAt.isSome ∨ u.disabledAt.isSome ∨ expired s x now then .error .notAuthenticated else .ok x

/-- What follows `_MFA_STATE`. -/
def mfaGate (d : Db) (sessionId userId : Uuid) (now : Time) (allowPending : Bool) : Except Refusal AuthenticatedSession :=
  match d.sessions.find sessionId with
  | none => .error .internalError
  | some x =>
    if !allowPending && mfaEnrolled d userId && x.mfaVerifiedAt.isNone then .error .mfaRequired
    else .ok ⟨sessionId, userId, mfaEnrolled d userId, x.mfaVerifiedAt, now⟩

/-- When the session ends by idling, and when in any case. -/
def sessionExpiries (x : UserSession) : Time × Time :=
  (x.lastSeenAt + Time.seconds s.authSessionIdleSeconds, x.createdAt + Time.seconds s.authSessionAbsoluteSeconds)

/-- Whether the user has a factor, and how many recovery codes are left of it. -/
def mfaStatus (d : Db) (userId : Uuid) : Bool × Option ℕ :=
  let enrolled := mfaEnrolled d userId
  (enrolled, if enrolled then some (d.codes.rows.countP fun c => c.userId = userId ∧ c.live = true) else none)

structure SessionInfo where
  userId : Uuid
  organizationId : Uuid
  email : String
  displayName : Option String
  sessionCreatedAt : Time
  lastSeenAt : Time
  idleExpiresAt : Time
  absoluteExpiresAt : Time
  mfaEnrolled : Bool
  mfaRequired : Bool
  mfaVerifiedAt : Option Time
  mfaAssuranceExpiresAt : Option Time
  recoveryCodesRemaining : Option ℕ

def sessionInfo (d : Db) (u : AppUser) (x : UserSession) : SessionInfo :=
  let (idleExpiresAt, absoluteExpiresAt) := sessionExpiries s x
  let (mfaEnrolled, codesRemaining) := mfaStatus d u.id
  let mfaRequired := mfaEnrolled && x.mfaVerifiedAt.isNone
  { userId := u.id, organizationId := u.organizationId, email := u.email,
    displayName := if mfaRequired then none else u.displayName,
    sessionCreatedAt := x.createdAt, lastSeenAt := x.lastSeenAt, idleExpiresAt, absoluteExpiresAt, mfaEnrolled, mfaRequired,
    mfaVerifiedAt := x.mfaVerifiedAt,
    mfaAssuranceExpiresAt := x.mfaVerifiedAt.map (· + Time.seconds s.authMfaAssuranceMaxAgeSeconds),
    recoveryCodesRemaining := codesRemaining }

variable {P s} {d : Db} {token : String} {now : Time} {x : UserSession}

/-- The requests behind the cookie begin with this policy. -/
theorem go_bootstrap (c : Call) :
    go P s d (.bootstrap c) = some {
      op := .read
      next := match resolve P s d c.token c.now with
        | .error r => .refuse r
        | .ok x => .mfaState c x.id x.userId } := by
  rw [go, resolve]
  split_ifs
  · rfl
  · rfl
  · cases sessionBootstrap d (P.hashSessionToken c.token) with
    | none => rfl
    | some found =>
      obtain ⟨x, u⟩ := found
      dsimp only
      split_ifs <;> rfl

theorem go_mfaState (c : Call) (sessionId userId : Uuid) :
    go P s d (.mfaState c sessionId userId) = some {
      op := .read
      next := match mfaGate d sessionId userId c.now c.operation.allowPending with
        | .error r => .refuse r
        | .ok current => .touch c current } := by
  rw [go, mfaGate]
  cases d.sessions.find sessionId with
  | none => rfl
  | some x =>
    dsimp only
    split_ifs <;> rfl

theorem lt_add_iff_age (now since cap : Int) : ¬ cap ≤ now - since ↔ now < since + cap := by omega

theorem expired_eq_false_iff : expired s x now = false ↔ now < (sessionExpiries s x).1 ∧ now < (sessionExpiries s x).2 := by
  rw [expired, decide_eq_false_iff_not, not_or, and_comm]
  exact and_congr (lt_add_iff_age ..) (lt_add_iff_age ..)

/-- The request carries the token of the session. -/
structure Presents (P : Primitives) (d : Db) (token : String) (x : UserSession) (u : AppUser) : Prop where
  token_ne : token ≠ ""
  ascii : isAscii token = true
  found : sessionBootstrap d (P.hashSessionToken token) = some (x, u)

theorem Presents.resolve_iff {u : AppUser} (h : Presents P d token x u) (now : Time) :
    resolve P s d token now = .ok x ↔
      x.revokedAt = none ∧ u.disabledAt = none ∧ now < (sessionExpiries s x).1 ∧ now < (sessionExpiries s x).2 := by
  have hascii : ¬ (!isAscii token) = true := by simp [h.ascii]
  have hlive : ¬ (x.revokedAt.isSome = true ∨ u.disabledAt.isSome = true ∨ expired s x now = true) ↔
      x.revokedAt = none ∧ u.disabledAt = none ∧ expired s x now = false := by simp [not_or]
  rw [resolve, if_neg h.token_ne, if_neg hascii, h.found, ← expired_eq_false_iff, ← hlive]
  dsimp only
  split_ifs with hdead
  · exact iff_of_false (fun h => by cases h) (not_not.2 hdead)
  · exact iff_of_true rfl hdead

theorem presents_of_resolve (h : resolve P s d token now = .ok x) : ∃ u, Presents P d token x u := by
  unfold resolve at h
  split_ifs at h with hempty hascii
  cases hfound : sessionBootstrap d (P.hashSessionToken token) with
  | none =>
    rw [hfound] at h
    cases h
  | some found =>
    obtain ⟨y, u⟩ := found
    rw [hfound] at h
    dsimp only at h
    split_ifs at h
    obtain rfl := Except.ok.inj h
    exact ⟨u, hempty, by simpa using hascii, hfound⟩

theorem Presents.find {u : AppUser} (h : Presents P d token x u) : d.sessions.find x.id = some x := by
  obtain ⟨y, hy, hu⟩ := Option.bind_eq_some_iff.1 h.found
  obtain ⟨_, -, hpair⟩ := Option.map_eq_some_iff.1 hu
  obtain ⟨rfl, -⟩ := Prod.mk.inj hpair
  exact Table.find_of_mem (List.mem_of_find?_eq_some hy)

/-- Assurance is current exactly until the instant that is reported. -/
theorem requireCurrentMfaAssurance_iff {u : AppUser} {userId : Uuid} {allowPending : Bool} {current : AuthenticatedSession}
    (hx : d.sessions.find x.id = some x) (h : mfaGate d x.id userId now allowPending = .ok current)
    (henrolled : current.mfaEnrolled = true) :
    requireCurrentMfaAssurance s current = none ↔ ∃ e, (sessionInfo s d u x).mfaAssuranceExpiresAt = some e ∧ now < e := by
  rw [mfaGate, hx] at h
  dsimp only at h
  split_ifs at h
  obtain rfl := Except.ok.inj h
  have hreported : (sessionInfo s d u x).mfaAssuranceExpiresAt =
      x.mfaVerifiedAt.map (· + Time.seconds s.authMfaAssuranceMaxAgeSeconds) := rfl
  rw [requireCurrentMfaAssurance, hreported]
  simp only at henrolled
  simp only [henrolled]
  cases x.mfaVerifiedAt with
  | none => simp
  | some t =>
    have hage : now - t < Time.seconds s.authMfaAssuranceMaxAgeSeconds ↔ now < t + Time.seconds s.authMfaAssuranceMaxAgeSeconds := by
      rw [← lt_add_iff_age]
      exact Int.not_le.symm
    simp [hage]

end Policy

/-! ### What commits do to the times -/

/-- The time that the write gives to `last_seen_at` of the session. -/
def Write.touchOf (id : Uuid) : Write → Option Time
  | .touch sessionId now => if sessionId = id then some now else none
  | _ => none

def lastTouch (id : Uuid) : List Write → Option Time
  | [] => none
  | u :: ws => (lastTouch id ws).or (u.touchOf id)

/-- The row as of a touch. -/
def UserSession.asOf (x : UserSession) (touch : Option Time) : UserSession := { x with lastSeenAt := touch.getD x.lastSeenAt }

/-- The session is the same one at these times. -/
structure UserSession.SameTimes (x x' : UserSession) : Prop where
  createdAt : x'.createdAt = x.createdAt
  lastSeenAt : x'.lastSeenAt = x.lastSeenAt

section Times
variable {d : Db} {id : Uuid} {x : UserSession} {u : Write} {t : Time}

theorem touchOf_eq_some : u.touchOf id = some t ↔ u = .touch id t := by
  cases u with
  | touch sessionId now =>
    by_cases hid : sessionId = id
    · simp [Write.touchOf, hid]
    · simp [Write.touchOf, hid]
  | _ => simp [Write.touchOf]

theorem lastTouch_eq_some {ws : List Write} (h : lastTouch id ws = some t) : .touch id t ∈ ws := by
  induction ws with
  | nil => cases h
  | cons u ws ih =>
    rw [lastTouch, Option.or_eq_some_iff] at h
    rcases h with h | ⟨-, h⟩
    · exact List.mem_cons_of_mem _ (ih h)
    · rw [touchOf_eq_some.1 h]
      exact List.mem_cons_self

theorem UserSession.SameTimes.refl (x : UserSession) : x.SameTimes x := ⟨rfl, rfl⟩

theorem times_write (h : d.sessions.find id = some x) :
    ∃ x', (d.write u).sessions.find id = some x' ∧ (x.asOf (u.touchOf id)).SameTimes x' := by
  have modified : ∀ {sessionId : Uuid} {f : UserSession → UserSession} (hf : ∀ x, (f x).id = x.id),
      (∀ x : UserSession, x.SameTimes (f x)) → ∃ x', (d.sessions.modify sessionId f hf).find id = some x' ∧ x.SameTimes x' := by
    intro sessionId f hf hsame
    rw [Table.find_modify, h]
    split
    · exact ⟨f x, rfl, hsame x⟩
    · exact ⟨x, rfl, .refl x⟩
  cases u with
  | touch sessionId now =>
    by_cases hid : sessionId = id
    · subst hid
      have hown : Write.touchOf sessionId (.touch sessionId now) = some now := if_pos rfl
      rw [hown]
      exact ⟨x.touch now, by rw [Db.write, Table.find_modify_self, h, Option.map_some], rfl, rfl⟩
    · have hother : Write.touchOf id (.touch sessionId now) = none := if_neg hid
      rw [hother]
      exact ⟨x, by rw [Db.write, Table.find_modify_of_ne (Ne.symm hid), h], .refl x⟩
  | revokeSession sessionId now =>
    refine modified (·.id_revoke now) fun x => ?_
    unfold UserSession.revoke
    split <;> exact ⟨rfl, rfl⟩
  | stampSession sessionId now =>
    refine modified (·.id_stamp now) fun x => ?_
    unfold UserSession.stamp
    split <;> exact ⟨rfl, rfl⟩
  | insertSession row =>
    exact ⟨x, Table.find_eq_some.2 ⟨Table.mem_insert_of_mem (Table.mem_of_find h), Table.key_of_find h⟩, .refl x⟩
  | _ => exact ⟨x, h, .refl x⟩

/-- The times of a row after any commits: `created_at` stays, `last_seen_at` is that of the last touch. -/
theorem times_foldl (ws : List Write) (h : d.sessions.find id = some x) :
    ∃ x', (ws.foldl Db.write d).sessions.find id = some x' ∧ (x.asOf (lastTouch id ws)).SameTimes x' := by
  induction ws generalizing d x with
  | nil => exact ⟨x, h, .refl x⟩
  | cons u ws ih =>
    obtain ⟨x₁, hx₁, hsame₁⟩ := times_write (u := u) h
    obtain ⟨x₂, hx₂, hsame₂⟩ := ih hx₁
    refine ⟨x₂, hx₂, hsame₂.createdAt.trans hsame₁.createdAt, hsame₂.lastSeenAt.trans ?_⟩
    have hseen := hsame₁.lastSeenAt
    simp only [UserSession.asOf, lastTouch] at hseen ⊢
    cases lastTouch id ws with
    | none => exact hseen
    | some t => rfl

theorem UserSession.SameTimes.sessionExpiries {x x' : UserSession} (h : x.SameTimes x') (s : Settings) :
    sessionExpiries s x' = sessionExpiries s x := by
  rw [Auth.sessionExpiries, Auth.sessionExpiries, h.createdAt, h.lastSeenAt]

end Times

/-! ### Requests with any handler -/

/-- What a handler does next, from the committed rows and its own state. The touch is left to the policy. -/
structure Handler (η : Type) where
  next : Db → η → Option (Move Lock Write η Event)
  untouched : ∀ d h m, next d h = some m → ∀ u ∈ m.op.writes, ∀ id, u.touchOf id = none

structure Visit (η : Type) where
  token : String
  now : Time
  allowPending : Bool
  /-- How the handler begins. -/
  start : AuthenticatedSession → η

inductive Visiting (η : Type) where
  | bootstrap (v : Visit η)
  | mfaState (v : Visit η) (sessionId userId : Uuid)
  | touch (v : Visit η) (current : AuthenticatedSession)
  /-- The handler, with what the policy has written and the unit of work has not committed. Work without a cookie, such
  as a login, is here from the start. -/
  | handling (pending : List Write) (h : η)
  | refuse (r : Refusal)
  | done

/-- A statement of the handler inside the unit of work, whose first commit takes the touch along. -/
def inUnit {η : Type} (pending : List Write) (m : Move Lock Write η Event) : Move Lock Write (Visiting η) Event :=
  match m.op with
  | .commit ws => { op := .commit (pending ++ ws), next := .handling [] m.next, emit := m.emit }
  | .rollback => { op := .rollback, next := .handling [] m.next, emit := m.emit }
  | .read => { op := .read, next := .handling pending m.next, emit := m.emit }
  | .lock ks => { op := .lock ks, next := .handling pending m.next, emit := m.emit }
  | .unlock ks => { op := .unlock ks, next := .handling pending m.next, emit := m.emit }

section Visits
variable {η : Type} (P : Primitives) (s : Settings) (handler : Handler η)

def visit (d : Db) : Visiting η → Option (Move Lock Write (Visiting η) Event)
  | .bootstrap v =>
    some {
      op := .read
      next := match resolve P s d v.token v.now with
        | .error r => .refuse r
        | .ok x => .mfaState v x.id x.userId }
  | .mfaState v sessionId userId =>
    some {
      op := .read
      next := match mfaGate d sessionId userId v.now v.allowPending with
        | .error r => .refuse r
        | .ok current => .touch v current }
  | .touch v current =>
    some { op := .lock [.session current.sessionId], next := .handling [.touch current.sessionId v.now] (v.start current) }
  | .handling pending h =>
    match handler.next d h with
    -- the handler has returned, and the unit of work commits
    | none => some { op := .commit pending, next := .done }
    | some m => some (inUnit pending m)
  | .refuse r => some { op := .rollback, next := .done, emit := [.refused r] }
  | .done => none

/-- Any number of requests with any handlers, of which each statement may fail. -/
def visits : System Lock Write Db (Visiting η) Choice Event := System.abortable Db.write (visit P s handler) .done

variable {P s handler}

/-- Where a statement may have come from. -/
structure Visiting.Leads (P : Primitives) (s : Settings) (d : Db) (p : Visiting η) (m : Move Lock Write (Visiting η) Event) : Prop where
  gate : ∀ v id userId, m.next = .mfaState v id userId →
    p = .bootstrap v ∧ ∃ x, resolve P s d v.token v.now = .ok x ∧ x.id = id
  touch : ∀ v current, m.next = .touch v current → ∃ userId, p = .mfaState v current.sessionId userId
  pending : ∀ ws h, m.next = .handling ws h → ∀ u ∈ ws,
    (∃ v current, p = .touch v current ∧ u = .touch current.sessionId v.now) ∨ ∃ ws' h', p = .handling ws' h' ∧ u ∈ ws'
  writes : ∀ id t, .touch id t ∈ m.op.writes → ∃ ws h, p = .handling ws h ∧ .touch id t ∈ ws

theorem leads_ended {d : Db} {p : Visiting η} {m : Move Lock Write (Visiting η) Event} (hop : m.op.writes = [])
    (hnext : m.next = .done ∨ (∃ r, m.next = .refuse r) ∨ ∃ h, m.next = .handling [] h) : Visiting.Leads P s d p m := by
  constructor
  · intro v id userId he
    rw [he] at hnext
    simp at hnext
  · intro v current he
    rw [he] at hnext
    simp at hnext
  · intro ws h he u hu
    rw [he] at hnext
    obtain rfl : ws = [] := by simpa using hnext
    cases hu
  · intro id t ht
    rw [hop] at ht
    cases ht

theorem sessionId_of_mfaGate {d : Db} {sessionId userId : Uuid} {now : Time} {allowPending : Bool} {current : AuthenticatedSession}
    (h : mfaGate d sessionId userId now allowPending = .ok current) : current.sessionId = sessionId := by
  unfold mfaGate at h
  split at h
  · cases h
  · split_ifs at h
    obtain rfl := Except.ok.inj h
    rfl

theorem leads_commit {d : Db} {pending : List Write} {h : η} {m : Move Lock Write (Visiting η) Event} (ws : List Write)
    (hop : m.op = .commit (pending ++ ws)) (hws : ∀ u ∈ ws, ∀ id, u.touchOf id = none)
    (hnext : m.next = .done ∨ ∃ h', m.next = .handling [] h') : Visiting.Leads P s d (.handling pending h) m := by
  constructor
  · intro v id userId he
    rw [he] at hnext
    simp at hnext
  · intro v current he
    rw [he] at hnext
    simp at hnext
  · intro ws' h' he u hu
    rw [he] at hnext
    obtain rfl : ws' = [] := by simpa using hnext
    cases hu
  · intro id t ht
    rw [hop] at ht
    rcases List.mem_append.1 ht with ht | ht
    · exact ⟨pending, h, rfl, ht⟩
    · have hown := hws _ ht id
      rw [touchOf_eq_some.2 rfl] at hown
      cases hown

theorem leads_pending {d : Db} {pending : List Write} {h h' : η} {m : Move Lock Write (Visiting η) Event}
    (hop : m.op.writes = []) (hnext : m.next = .handling pending h') : Visiting.Leads P s d (.handling pending h) m := by
  constructor
  · intro v id userId he
    rw [hnext] at he
    cases he
  · intro v current he
    rw [hnext] at he
    cases he
  · intro ws' h'' he u hu
    rw [hnext] at he
    cases he
    exact .inr ⟨pending, h, rfl, hu⟩
  · intro id t ht
    rw [hop] at ht
    cases ht

theorem leads_inUnit {d : Db} {pending : List Write} {h : η} {m : Move Lock Write η Event}
    (hm : handler.next d h = some m) : Visiting.Leads P s d (.handling pending h) (inUnit pending m) := by
  have huntouched := handler.untouched d h m hm
  obtain ⟨op, next, emit⟩ := m
  cases op with
  | commit ws => exact leads_commit ws rfl huntouched (.inr ⟨next, rfl⟩)
  | rollback => exact leads_ended rfl (.inr (.inr ⟨next, rfl⟩))
  | read => exact leads_pending rfl rfl
  | lock ks => exact leads_pending rfl rfl
  | unlock ks => exact leads_pending rfl rfl

theorem visit_leads {d : Db} {p : Visiting η} {m : Move Lock Write (Visiting η) Event} (hm : visit P s handler d p = some m) :
    Visiting.Leads P s d p m := by
  cases p with
  | bootstrap v =>
    obtain rfl := Option.some.inj hm
    cases hresolve : resolve P s d v.token v.now with
    | error r => exact leads_ended rfl (.inr (.inl ⟨r, rfl⟩))
    | ok x =>
      constructor
      · intro v' id userId he
        cases he
        exact ⟨rfl, x, hresolve, rfl⟩
      · intro v' current he
        cases he
      · intro ws h he
        cases he
      · intro id t ht
        cases ht
  | mfaState v sessionId userId =>
    obtain rfl := Option.some.inj hm
    cases hgate : mfaGate d sessionId userId v.now v.allowPending with
    | error r => exact leads_ended rfl (.inr (.inl ⟨r, rfl⟩))
    | ok current =>
      constructor
      · intro v' id userId he
        cases he
      · intro v' current' he
        cases he
        exact ⟨userId, by rw [sessionId_of_mfaGate hgate]⟩
      · intro ws h he
        cases he
      · intro id t ht
        cases ht
  | touch v current =>
    obtain rfl := Option.some.inj hm
    constructor
    · intro v' id userId he
      cases he
    · intro v' current' he
      cases he
    · intro ws h he u hu
      cases he
      exact .inl ⟨v, current, rfl, List.mem_singleton.1 hu⟩
    · intro id t ht
      cases ht
  | handling pending h =>
    rw [visit] at hm
    cases hnext : handler.next d h with
    | none =>
      rw [hnext] at hm
      obtain rfl := Option.some.inj hm
      exact leads_commit [] (by simp) (by simp) (.inl rfl)
    | some m' =>
      rw [hnext] at hm
      obtain rfl := Option.some.inj hm
      exact leads_inUnit hnext
  | refuse r =>
    obtain rfl := Option.some.inj hm
    exact leads_ended rfl (.inl rfl)
  | done => cases hm

/-- A process before its first statement, or without a touch. -/
def Visiting.Entry : Visiting η → Prop
  | .bootstrap _ | .refuse _ | .done => True
  | .handling pending _ => pending = []
  | _ => False

end Visits

/-! ### Enforced as reported -/

section Lifetime
variable {η π : Type} [DecidableEq π]

/-- The process has passed the policy, for this session. -/
def Admitted (P : Primitives) (s : Settings) (H : List (Taken π Lock Write Db (Visiting η) Event)) (i : π) (v : Visit η) (id : Uuid) : Prop :=
  ∃ st ∈ H, st.proc = i ∧ st.world.proc i = .bootstrap v ∧ ∃ x, resolve P s st.world.db v.token v.now = .ok x ∧ x.id = id

/-- A process on its way has been admitted, and so has every one that has committed a touch. -/
structure Traced (P : Primitives) (s : Settings) (H : List (Taken π Lock Write Db (Visiting η) Event))
    (w : World π Lock Db (Visiting η) Event) : Prop where
  gate : ∀ i v id userId, w.proc i = .mfaState v id userId → Admitted P s H i v id
  touch : ∀ i v current, w.proc i = .touch v current → Admitted P s H i v current.sessionId
  pending : ∀ i ws h, w.proc i = .handling ws h → ∀ u ∈ ws, ∃ v id, u = .touch id v.now ∧ Admitted P s H i v id
  committed : ∀ st ∈ H, ∀ id t, .touch id t ∈ st.move.op.writes → ∃ v, v.now = t ∧ Admitted P s H st.proc v id

variable {P : Primitives} {s : Settings} {handler : Handler η} {H H' : List (Taken π Lock Write Db (Visiting η) Event)}
  {w₀ v w : World π Lock Db (Visiting η) Event} {C : World π Lock Db (Visiting η) Event → π × Choice → Prop} {i : π} {id : Uuid}

omit [DecidableEq π] in
theorem Admitted.append {a : Visit η} (h : Admitted P s H i a id) (H' : List (Taken π Lock Write Db (Visiting η) Event)) :
    Admitted P s (H ++ H') i a id := by
  obtain ⟨st, hst, hrest⟩ := h
  exact ⟨st, List.mem_append_left _ hst, hrest⟩

theorem Traced.step {m : Move Lock Write (Visiting η) Event} (hI : Traced P s H w) (hleads : Visiting.Leads P s w.db (w.proc i) m) :
    Traced P s (H ++ [⟨w, i, m⟩]) ((visits P s handler).after w i m) := by
  constructor
  · intro j v id userId he
    rcases System.proc_after_eq he with ⟨rfl, hnext⟩ | ⟨-, he⟩
    · obtain ⟨hp, hresolve⟩ := hleads.gate v id userId hnext
      exact ⟨⟨w, j, m⟩, by simp, rfl, hp, hresolve⟩
    · exact (hI.gate j v id userId he).append _
  · intro j v current he
    rcases System.proc_after_eq he with ⟨rfl, hnext⟩ | ⟨-, he⟩
    · obtain ⟨userId, hp⟩ := hleads.touch v current hnext
      exact (hI.gate j v _ userId hp).append _
    · exact (hI.touch j v current he).append _
  · intro j ws h he u hu
    rcases System.proc_after_eq he with ⟨rfl, hnext⟩ | ⟨-, he⟩
    · rcases hleads.pending ws h hnext u hu with ⟨v, current, hp, rfl⟩ | ⟨ws', h', hp, hu'⟩
      · exact ⟨v, _, rfl, (hI.touch j v current hp).append _⟩
      · obtain ⟨v, id, rfl, hadmitted⟩ := hI.pending j ws' h' hp u hu'
        exact ⟨v, id, rfl, hadmitted.append _⟩
    · obtain ⟨v, id, rfl, hadmitted⟩ := hI.pending j ws h he u hu
      exact ⟨v, id, rfl, hadmitted.append _⟩
  · intro st hst id t ht
    rcases List.mem_append.1 hst with hst | hst
    · obtain ⟨v, hnow, hadmitted⟩ := hI.committed st hst id t ht
      exact ⟨v, hnow, hadmitted.append _⟩
    · obtain rfl := List.mem_singleton.1 hst
      obtain ⟨ws, h, hp, hin⟩ := hleads.writes id t ht
      obtain ⟨v, id', he, hadmitted⟩ := hI.pending i ws h hp _ hin
      obtain ⟨rfl, rfl⟩ := Write.touch.inj he
      exact ⟨v, rfl, hadmitted.append _⟩

omit [DecidableEq π] in
theorem traced_entry (h₀ : ∀ i, (w₀.proc i).Entry) : Traced P s [] w₀ := by
  constructor
  · intro i v id userId he
    have hentry := h₀ i
    rw [he] at hentry
    cases hentry
  · intro i v current he
    have hentry := h₀ i
    rw [he] at hentry
    cases hentry
  · intro i ws h he u hu
    have hentry := h₀ i
    rw [he] at hentry
    obtain rfl : ws = [] := hentry
    cases hu
  · intro st hst
    cases hst

/-- From the beginning of the requests, nothing is on its way that has not been admitted. -/
theorem traced_of_path (h₀ : ∀ i, (w₀.proc i).Entry) (h : (visits P s handler).Path C w₀ H w) : Traced P s H w := by
  refine h.invariant (I := fun H w => Traced P s H w) (traced_entry h₀) fun H w i c m _ hI _ hm => hI.step ?_
  rcases System.move_abortable hm.1 with hvisit | rfl
  · exact visit_leads hvisit
  · exact leads_ended rfl (.inl rfl)

/-- The policy enforces what is reported of the session, since its row was `x₀`: after the requests `H₀` before that, and
`H` from then on. -/
structure Enforced (P : Primitives) (s : Settings) (id : Uuid) (x₀ : UserSession) (H₀ H : List (Taken π Lock Write Db (Visiting η) Event))
    (d : Db) : Prop where
  /-- What is reported is that of the last committed touch. -/
  reported : ∃ x, d.sessions.find id = some x ∧
    ∀ u, ((sessionInfo s d u x).idleExpiresAt, (sessionInfo s d u x).absoluteExpiresAt) =
      sessionExpiries s (x₀.asOf (lastTouch id (System.committed H)))
  resolve_iff : ∀ token now x u, Presents P d token x u → x.id = id →
    (resolve P s d token now = .ok x ↔ x.revokedAt = none ∧ u.disabledAt = none ∧
      now < (sessionExpiries s (x₀.asOf (lastTouch id (System.committed H)))).1 ∧
      now < (sessionExpiries s (x₀.asOf (lastTouch id (System.committed H)))).2)
  /-- Whatever the activity. -/
  absolute : ∀ token now x, x₀.createdAt + Time.seconds s.authSessionAbsoluteSeconds ≤ now →
    resolve P s d token now = .ok x → x.id ≠ id
  idle : ∀ token now x, (lastTouch id (System.committed H)).getD x₀.lastSeenAt + Time.seconds s.authSessionIdleSeconds ≤ now →
    resolve P s d token now = .ok x → x.id ≠ id
  /-- What moves the row is the commit of a request that was let in, at its own time. -/
  extended : ∀ t, lastTouch id (System.committed H) = some t → ∃ st ∈ H, .touch id t ∈ st.move.op.writes ∧
    st.move.op = .commit st.move.op.writes ∧ ∃ v, v.now = t ∧ Admitted P s (H₀ ++ H) st.proc v id

theorem enforced_of_path {x₀ : UserSession} (h₀ : ∀ i, (w₀.proc i).Entry) (hbefore : (visits P s handler).Path C w₀ H v)
    (hx₀ : v.db.sessions.find id = some x₀) (h : (visits P s handler).Path C v H' w) : Enforced P s id x₀ H H' w.db := by
  have hfold : w.db = (System.committed H').foldl Db.write v.db := h.db_eq
  obtain ⟨x', hx', hsame⟩ := times_foldl (System.committed H') hx₀
  rw [← hfold] at hx'
  have hexpiries := hsame.sessionExpiries s
  have hresolve : ∀ token now x u, Presents P w.db token x u → x.id = id →
      (resolve P s w.db token now = .ok x ↔ x.revokedAt = none ∧ u.disabledAt = none ∧
        now < (sessionExpiries s (x₀.asOf (lastTouch id (System.committed H')))).1 ∧
        now < (sessionExpiries s (x₀.asOf (lastTouch id (System.committed H')))).2) := by
    intro token now x u hpresents hid
    have hfind := hpresents.find
    rw [hid, hx'] at hfind
    obtain rfl := Option.some.inj hfind
    rw [hpresents.resolve_iff, hexpiries]
  constructor
  · exact ⟨x', hx', fun u => hexpiries⟩
  · exact hresolve
  · intro token now x hlate hok hid
    obtain ⟨u, hpresents⟩ := presents_of_resolve hok
    obtain ⟨-, -, -, habsolute⟩ := (hresolve token now x u hpresents hid).1 hok
    exact absurd habsolute (Int.not_lt.2 hlate)
  · intro token now x hlate hok hid
    obtain ⟨u, hpresents⟩ := presents_of_resolve hok
    obtain ⟨-, -, hidle, -⟩ := (hresolve token now x u hpresents hid).1 hok
    exact absurd hidle (Int.not_lt.2 hlate)
  · intro t ht
    obtain ⟨st, hst, hwrite⟩ := List.mem_flatMap.1 (lastTouch_eq_some ht)
    have htraced := traced_of_path h₀ (hbefore.append h)
    exact ⟨st, hst, hwrite, Op.eq_commit_of_writes (List.ne_nil_of_mem hwrite),
      htraced.committed st (List.mem_append_right _ hst) id t hwrite⟩

/-- Sessions live as long as is reported, and so does the assurance of a second factor. -/
theorem session_lifetime {x₀ : UserSession} (h₀ : ∀ i, (w₀.proc i).Entry) (hbefore : (visits P s handler).Path C w₀ H v)
    (hx₀ : v.db.sessions.find id = some x₀) (h : (visits P s handler).Path C v H' w) :
    Enforced P s id x₀ H H' w.db ∧
      ∀ x u userId now allowPending current, w.db.sessions.find x.id = some x →
        mfaGate w.db x.id userId now allowPending = .ok current → current.mfaEnrolled = true →
          (requireCurrentMfaAssurance s current = none ↔
            ∃ e, (sessionInfo s w.db u x).mfaAssuranceExpiresAt = some e ∧ now < e) :=
  ⟨enforced_of_path h₀ hbefore hx₀ h, fun _ _ _ _ _ _ hx hgate => requireCurrentMfaAssurance_iff hx hgate⟩

/-- The handler of the session view: it only reads. -/
def view : Handler Unit where
  next _ _ := none
  untouched _ _ _ h := by cases h

def viewing : World Unit Lock Db (Visiting Unit) Event where
  db := Race.db
  owner _ := none
  proc _ := .bootstrap ⟨"first", Time.seconds 1000, true, fun _ => ()⟩
  trace := []

theorem session_lifetime_of_view : ∃ H w,
    (visits Primitives.plain Settings.shipped view).Path (fun _ _ => True) viewing H w ∧
      lastTouch 10 (System.committed H) = some (Time.seconds 1000) ∧
      Enforced Primitives.plain Settings.shipped 10 ⟨10, 1, encode "first", 0, 0, none, none⟩ [] H w.db := by
  have run : ((visits Primitives.plain Settings.shipped view).trail (fun _ _ => True) viewing (steps () 4)).any
      (fun r => lastTouch 10 (System.committed r.1) = some (Time.seconds 1000)) = true := by
    decide +kernel
  obtain ⟨H, w, hpath, hlast⟩ := System.Path.of_trail_any run
  have hentry : ∀ i, (viewing.proc i).Entry := fun _ => trivial
  refine ⟨H, w, hpath, of_decide_eq_true hlast, ?_⟩
  exact (session_lifetime hentry .refl (by decide +kernel) hpath).1

end Lifetime

end TestingPlatform.Auth
