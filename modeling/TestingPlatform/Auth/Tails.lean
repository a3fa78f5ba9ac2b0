import TestingPlatform.Auth.Locks
import TestingPlatform.Lib.Fallible

/-!
# A transaction that has decided, by itself

The statements that a request still has to execute, one after the other and with nobody else between them: the rows that each of
them writes, or what it raises (`performAll`).
-/

namespace TestingPlatform.Auth

open ReadCommitted

/-- The rows that a statement writes, when nobody else writes meanwhile. -/
def Stmt.performed (d : Db) (now : Time) (written : List Write) : Stmt → Except Refusal (List Write)
  | .revokeOtherSessions userId keepSessionId =>
    let others := d.sessions.rows.filter fun x => x.userId = userId ∧ x.id ≠ keepSessionId ∧ x.live = true
    .ok (others.map fun x => .revokeSession x.id now)
  | .burnRecoveryCodes userId =>
    let codes := d.codes.rows.filter fun x => x.userId = userId ∧ x.live = true
    .ok (codes.map fun x => .supersedeCode userId x.codeHash now)
  | stmt => match stmt.outcome d now written with
    | .write _ u => .ok [u]
    | .expand _ => .ok []
    | .refuse r => .error r

/-- One statement after the other, with what has been written before. -/
def performAll (d : Db) (now : Time) : List Write → List Stmt → Except Refusal (List Write)
  | written, [] => .ok written
  | written, stmt :: rest => stmt.performed d now written >>= fun ws => performAll d now (written ++ ws) rest

/-- Only the stamp raises anything but a violated unique constraint. -/
theorem Stmt.performed_eq_error {d : Db} {now : Time} {written : List Write} {stmt : Stmt} {r : Refusal}
    (hstamp : ∀ id, stmt ≠ .stampSession id) (h : stmt.performed d now written = .error r) : r = .uniqueViolation := by
  cases stmt with
  | revokeOtherSessions | burnRecoveryCodes | updateCredential | updateMfa => cases h
  | stampSession id => exact absurd rfl (hstamp id)
  | revokeSession | supersedeCode =>
    simp only [performed, outcome] at h
    split at h
    · cases h
    · cases h
    next houtcome => split at houtcome <;> cases houtcome
  | insertMfa | openSession | insertCode =>
    simp only [performed, outcome] at h
    split at h
    · cases h
    · cases h
    next houtcome =>
      split at houtcome <;> cases houtcome
      cases h
      rfl

theorem performAll_eq_error {d : Db} {now : Time} {written : List Write} {stmts : List Stmt} {r : Refusal}
    (hstamp : ∀ id, .stampSession id ∉ stmts) (h : performAll d now written stmts = .error r) : r = .uniqueViolation := by
  induction stmts generalizing written with
  | nil => cases h
  | cons stmt rest ih =>
    rcases Fallible.bind_eq_error.1 h with h | ⟨us, -, h⟩
    · exact Stmt.performed_eq_error (by rintro id rfl; exact hstamp id List.mem_cons_self) h
    · exact ih (fun id hid => hstamp id (List.mem_cons_of_mem _ hid)) h

/-- The stamp says whether the session was live. -/
theorem performAll_stamp {d : Db} {now : Time} {written : List Write} {id : Uuid} :
    performAll d now written [.stampSession id] =
      if (d.sessions.find id).any UserSession.live then .ok (written ++ [.stampSession id now]) else .error .sessionRevoked := by
  by_cases hlive : (d.sessions.find id).any UserSession.live = true
  · simp [performAll, Stmt.performed, Stmt.outcome, hlive, bind, Except.bind]
  · simp [performAll, Stmt.performed, Stmt.outcome, hlive, bind, Except.bind]

section Lone
variable {P : Primitives} {s : Settings} {d : Db} {stmt : Stmt} {rest : List Stmt} {request : Request} {writes : List Write}
  {event : Event}

variable (P s d rest) in
/-- By itself the tail comes to what has been written and the rest, or to a refusal. -/
def Tail.Comes (t : Tail) : Except Refusal (List Write) → Prop
  | .ok ws => (authentication P s).Lone .go (d, .tail t) (d, .tail { t with writes := ws, todo := rest })
  | .error r => (authentication P s).Lone .go (d, .tail t) (d, .refuse r)

/-- Rows that are written one after the other. -/
theorem lone_writes {α : Type} {f : α → Stmt} {g : α → Write} {l : List α}
    (h : ∀ x ∈ l, ∀ written, ∃ ks, (f x).outcome d request.now written = .write ks (g x)) :
    (authentication P s).Lone .go (d, .tail ⟨request, writes, l.map f ++ rest, event⟩)
      (d, .tail ⟨request, writes ++ l.map g, rest, event⟩) := by
  induction l generalizing writes with
  | nil =>
    rw [List.map_nil, List.map_nil, List.append_nil]
    exact .refl
  | cons x l ih =>
    obtain ⟨ks, hwrite⟩ := h x List.mem_cons_self writes
    have hrest := @ih (writes ++ [g x]) fun y hy => h y (List.mem_cons_of_mem _ hy)
    rw [List.append_assoc] at hrest
    refine .head ⟨{ op := .lock ks, next := .tail ⟨request, writes ++ [g x], l.map f ++ rest, event⟩ }, ?_, rfl⟩ hrest
    show some (Tail.step d ⟨request, writes, f x :: (l.map f ++ rest), event⟩) = _
    simp only [Tail.step, hwrite]

theorem comes_of_outcome
    (h : stmt.performed d request.now writes = match stmt.outcome d request.now writes with
      | .write _ u => .ok [u]
      | .expand _ => .ok []
      | .refuse r => .error r)
    (hexpand : ∀ todo, stmt.outcome d request.now writes = .expand todo → todo = []) :
    Tail.Comes P s d rest ⟨request, writes, stmt :: rest, event⟩ ((stmt.performed d request.now writes).map (writes ++ ·)) := by
  have hgo : (authentication P s).move d (.tail ⟨request, writes, stmt :: rest, event⟩) .go =
      some (Tail.step d ⟨request, writes, stmt :: rest, event⟩) := rfl
  rw [h]
  rw [Tail.step] at hgo
  cases houtcome : stmt.outcome d request.now writes with
  | write ks u =>
    simp only [houtcome] at hgo
    exact .single ⟨_, hgo, rfl⟩
  | expand todo =>
    obtain rfl := hexpand todo houtcome
    simp only [houtcome] at hgo
    have hsame : Tail.Comes P s d rest ⟨request, writes, stmt :: rest, event⟩ (.ok writes) := .single ⟨_, hgo, rfl⟩
    simpa [Except.map] using hsame
  | refuse r =>
    simp only [houtcome] at hgo
    exact .single ⟨_, hgo, rfl⟩

theorem comes_performed :
    Tail.Comes P s d rest ⟨request, writes, stmt :: rest, event⟩ ((stmt.performed d request.now writes).map (writes ++ ·)) := by
  cases stmt with
  | revokeOtherSessions userId keepSessionId =>
    refine .head ⟨_, rfl, rfl⟩ (lone_writes (g := fun x : UserSession => .revokeSession x.id request.now) fun x hx written => ?_)
    have hx' := List.mem_filter.1 hx
    have hlive : (d.sessions.find x.id).any UserSession.live = true := by
      rw [Table.find_of_mem hx'.1]
      exact (of_decide_eq_true hx'.2).2.2
    exact ⟨_, if_pos hlive⟩
  | burnRecoveryCodes userId =>
    refine .head ⟨_, rfl, rfl⟩ (lone_writes (g := fun x : MfaRecoveryCode => .supersedeCode userId x.codeHash request.now)
      fun x hx written => ?_)
    have hx' := List.mem_filter.1 hx
    have hx'' := of_decide_eq_true hx'.2
    have hlive : (d.codes.find (userId, x.codeHash)).any MfaRecoveryCode.live = true := by
      rw [← hx''.1, show (x.userId, x.codeHash) = x.key from rfl, Table.find_of_mem hx'.1]
      exact hx''.2
    exact ⟨_, if_pos hlive⟩
  | updateCredential | updateMfa =>
    refine comes_of_outcome rfl ?_
    rintro todo ⟨⟩
  | revokeSession | supersedeCode =>
    refine comes_of_outcome rfl fun todo h => ?_
    simp only [Stmt.outcome] at h
    split at h <;> cases h
    rfl
  | _ =>
    refine comes_of_outcome rfl fun todo h => ?_
    simp only [Stmt.outcome] at h
    split at h <;> cases h

/-- The tail writes what its statements write, or is refused. -/
theorem comes_performAll {stmts : List Stmt} :
    Tail.Comes P s d rest ⟨request, writes, stmts ++ rest, event⟩ (performAll d request.now writes stmts) := by
  induction stmts generalizing writes with
  | nil => exact .refl
  | cons stmt stmts ih =>
    have hfirst : Tail.Comes P s d (stmts ++ rest) ⟨request, writes, stmt :: (stmts ++ rest), event⟩ _ := comes_performed
    rw [performAll]
    cases hstmt : stmt.performed d request.now writes with
    | error r =>
      rw [hstmt] at hfirst
      exact hfirst
    | ok us =>
      rw [hstmt] at hfirst
      have hrest := @ih (writes ++ us)
      show Tail.Comes P s d rest _ (performAll d request.now (writes ++ us) stmts)
      cases hall : performAll d request.now (writes ++ us) stmts with
      | error r =>
        rw [hall] at hrest
        exact Relation.ReflTransGen.trans hfirst hrest
      | ok ws =>
        rw [hall] at hrest
        exact Relation.ReflTransGen.trans hfirst hrest

end Lone

end TestingPlatform.Auth
