import TestingPlatform.Auth.Enrollment
import TestingPlatform.Auth.Sessions
import TestingPlatform.Lib.Snapshots

/-!
# Recovery-code sets

`regenerate_recovery_codes` and `confirm_mfa` burn the live codes of the user and insert a new set. The burn finds
the rows in the snapshot that it starts with, and nothing keeps two requests of one user apart, so a set that
another request commits after that snapshot is left alive beside the new one (`recovery_codes_accumulate`). Where
no set of the user is committed between the burn of a request and its commit, the live codes are of the set
that was issued last (`recovery_codes_replaced`).
-/

namespace TestingPlatform.Auth

open ReadCommitted

/-! ### Sets of codes -/

/-- The user to whom an answer shows a new set. -/
def Event.issues : Event → Option Uuid
  | .confirmed u .. | .regenerated u => some u
  | _ => none

/-- The set that the request draws. -/
def Request.codes : Request → Option RecoveryCodes
  | .login _ => none
  | .call c =>
    match c.operation with
    | .confirmMfa _ codes | .regenerateRecoveryCodes _ codes => some codes
    | _ => none

def liveCodes (d : Db) (u : Uuid) : List MfaRecoveryCode := d.codes.rows.filter fun row => row.userId = u ∧ row.live = true

/-- The live codes of the user are codes of this set, and not more than a set has. -/
structure OfSet (P : Primitives) (u : Uuid) (set : Option RecoveryCodes) (d : Db) : Prop where
  bounded : (liveCodes d u).length ≤ recoveryCodeCount
  minted : ∀ row ∈ liveCodes d u, ∃ codes, set = some codes ∧ row.codeHash ∈ codes.codes.map P.hashRecoveryCode

section Histories
variable {π : Type}

/-- The set that a step commits for the user. -/
def issued (u : Uuid) (x : Taken π Lock Write Db Proc Event) : Option RecoveryCodes :=
  match x.world.proc x.proc, x.move.op with
  | .tail t, .commit _ => if t.event.issues = some u then t.request.codes else none
  | _, _ => none

/-- The set that was committed last for the user. -/
def latest (before : Option RecoveryCodes) (u : Uuid) (H : List (Taken π Lock Write Db Proc Event)) : Option RecoveryCodes :=
  H.foldl (fun set x => (issued u x).or set) before

/-- The step is the burn of the codes of the user. -/
def burns (u : Uuid) (x : Taken π Lock Write Db Proc Event) : Bool :=
  match x.world.proc x.proc with
  | .tail { todo := .burnRecoveryCodes v :: _, .. } => v = u
  | _ => false

/-- A set rests on the codes that the burn before it has found. -/
def codeSets (u : Uuid) : Snapshots π Lock Write Db Proc Event where
  takes := burns u
  lands x := (issued u x).isSome

variable {u : Uuid} {H : List (Taken π Lock Write Db Proc Event)} {x : Taken π Lock Write Db Proc Event} {before : Option RecoveryCodes}

theorem latest_append : latest before u (H ++ [x]) = (issued u x).or (latest before u H) := by
  simp [latest]

end Histories

/-! ### The codes after a commit -/

/-- A code after the writes of a commit: once dead it stays dead, and a superseded one is dead. -/
structure MfaRecoveryCode.After (ws : List Write) (x x' : MfaRecoveryCode) : Prop where
  key : x'.key = x.key
  live : x'.live = true → x.live = true ∧ ∀ now, .supersedeCode x.userId x.codeHash now ∉ ws

section After
variable {ws : List Write} {x x' x'' : MfaRecoveryCode} {w : Write} {d : Db}

theorem MfaRecoveryCode.After.refl (h : ∀ now, .supersedeCode x.userId x.codeHash now ∉ ws) : x.After ws x :=
  ⟨rfl, fun hlive => ⟨hlive, h⟩⟩

theorem MfaRecoveryCode.After.cons (h : x.After [w] x') (h' : x'.After ws x'') : x.After (w :: ws) x'' := by
  refine ⟨h'.key.trans h.key, fun hlive => ?_⟩
  obtain ⟨hlive', hws⟩ := h'.live hlive
  obtain ⟨hlive'', hw⟩ := h.live hlive'
  have huser : x'.userId = x.userId := congrArg Prod.fst h.key
  have hhash : x'.codeHash = x.codeHash := congrArg Prod.snd h.key
  refine ⟨hlive'', fun now hmem => ?_⟩
  rcases List.mem_cons.1 hmem with rfl | hmem
  · exact hw now List.mem_cons_self
  · exact hws now (by rw [huser, hhash]; exact hmem)

theorem live_use (x : MfaRecoveryCode) (now : Time) : (x.use now).live = false := by
  unfold MfaRecoveryCode.use
  split
  · rfl
  next hdead => simpa using hdead

theorem live_supersede (x : MfaRecoveryCode) (now : Time) : (x.supersede now).live = false := by
  unfold MfaRecoveryCode.supersede
  split
  · simp [MfaRecoveryCode.live]
  next hdead => simpa using hdead

theorem code_write (hx : x' ∈ (d.write w).codes.rows) : (∃ x ∈ d.codes.rows, x.After [w] x') ∨ w = .insertCode x' := by
  have same : x' ∈ d.codes.rows → (∀ now, w ≠ .supersedeCode x'.userId x'.codeHash now) →
      (∃ x ∈ d.codes.rows, x.After [w] x') ∨ w = .insertCode x' := fun hmem hne =>
    .inl ⟨x', hmem, .refl fun now hw => hne now (List.mem_singleton.1 hw).symm⟩
  cases w with
  | useCode v h now =>
    obtain ⟨x, hmem, rfl⟩ := List.mem_map.1 hx
    refine .inl ⟨x, hmem, ?_⟩
    split
    · refine ⟨x.key_use now, fun hlive => ?_⟩
      rw [live_use] at hlive
      cases hlive
    · exact .refl (by simp)
  | supersedeCode v h now =>
    obtain ⟨x, hmem, rfl⟩ := List.mem_map.1 hx
    refine .inl ⟨x, hmem, ?_⟩
    split
    · refine ⟨x.key_supersede now, fun hlive => ?_⟩
      rw [live_supersede] at hlive
      cases hlive
    next hkey =>
      refine .refl fun now' hw => hkey ?_
      cases List.mem_singleton.1 hw
      rfl
  | insertCode row =>
    rcases Table.mem_insert hx with hmem | rfl
    · exact same hmem fun now hw => by cases hw
    · exact .inr rfl
  | _ => exact same hx fun now hw => by cases hw

theorem code_origin (hx : x' ∈ (ws.foldl Db.write d).codes.rows) :
    (∃ x ∈ d.codes.rows, x.After ws x') ∨ ∃ x, .insertCode x ∈ ws ∧ x'.key = x.key := by
  induction ws generalizing d with
  | nil => exact .inl ⟨x', hx, .refl (by simp)⟩
  | cons w ws ih =>
    rcases ih hx with ⟨x, hmem, hafter⟩ | ⟨x, hmem, hkey⟩
    · rcases code_write hmem with ⟨x₀, hmem₀, hafter₀⟩ | rfl
      · exact .inl ⟨x₀, hmem₀, hafter₀.cons hafter⟩
      · exact .inr ⟨x, List.mem_cons_self, hafter.key⟩
    · exact .inr ⟨x, List.mem_cons_of_mem _ hmem, hkey⟩

end After

/-! ### What a request issues -/

section Decided
variable {P : Primitives} {s : Settings} {held : Lock → Prop} {d : Db} {r : Request} {e : Event} {plan : List Write} {u : Uuid}
  {row : MfaRecoveryCode}

@[simp] theorem insertCode_credentialWrites {c : CredentialChange} : .insertCode row ∉ credentialWrites u c := by
  unfold credentialWrites
  split <;> simp

@[simp] theorem insertCode_mfaWrites {c : MfaChange} : .insertCode row ∉ mfaWrites u c := by
  unfold mfaWrites
  split <;> simp

@[simp] theorem insertCode_useWrites {factor : UserMfa} {spent : Spent} {now : Time} :
    .insertCode row ∉ useWrites factor spent now := by
  cases spent <;> simp [useWrites]

theorem Decided.codes (h : Decided P s held d r e plan) (he : e.issues = some u) : ∃ codes, r.codes = some codes := by
  cases h with
  | confirmed _ hop | regenerated _ hop => exact ⟨_, by rw [Request.codes, hop]⟩
  | _ => cases he

theorem Decided.inserts (h : Decided P s held d r e plan) (hrow : .insertCode row ∈ plan) :
    e.issues = some row.userId ∧ ∃ codes, r.codes = some codes ∧ row.codeHash ∈ codes.codes.map P.hashRecoveryCode := by
  have minted : ∀ {v : Uuid} {codes : RecoveryCodes}, .insertCode row ∈ codeWrites P v codes →
      row.userId = v ∧ row.codeHash ∈ codes.codes.map P.hashRecoveryCode := fun {v codes} hmem => by
    obtain ⟨code, hcode, heq⟩ := List.mem_map.1 hmem
    cases heq
    exact ⟨rfl, List.mem_map_of_mem hcode⟩
  cases h with
  | @confirmed c current factor code codes secret step hfactor hop =>
    have hmem : .insertCode row ∈ codeWrites P factor.userId codes := by simpa using hrow
    obtain ⟨huser, hhash⟩ := minted hmem
    exact ⟨by rw [huser]; rfl, codes, by rw [Request.codes, hop], hhash⟩
  | @regenerated c current password codes hsession hop =>
    obtain ⟨huser, hhash⟩ := minted hrow
    exact ⟨by rw [huser]; rfl, codes, by rw [Request.codes, hop], hhash⟩
  | @loggedIn _ _ _ _ credential => cases credential <;> simp at hrow
  | _ => simp at hrow

theorem mem_liveCodes : row ∈ liveCodes d u ↔ row ∈ d.codes.rows ∧ row.userId = u ∧ row.live = true := by
  simp [liveCodes]

/-- The live codes have distinct hashes, so a set bounds them. -/
theorem OfSet.of_minted {set : Option RecoveryCodes}
    (h : ∀ row ∈ liveCodes d u, ∃ codes, set = some codes ∧ row.codeHash ∈ codes.codes.map P.hashRecoveryCode) : OfSet P u set d := by
  refine ⟨?_, h⟩
  cases set with
  | none =>
    have hnil : liveCodes d u = [] := List.eq_nil_iff_forall_not_mem.2 fun row hrow => by
      obtain ⟨codes, hnone, -⟩ := h row hrow
      cases hnone
    rw [hnil]
    exact Nat.zero_le _
  | some codes =>
    have hkeys : ((liveCodes d u).map MfaRecoveryCode.codeHash).map (fun hash => (u, hash)) = (liveCodes d u).map MfaRecoveryCode.key := by
      rw [List.map_map]
      exact List.map_congr_left fun row hrow => Prod.ext (mem_liveCodes.1 hrow).2.1.symm rfl
    have hnodup : ((liveCodes d u).map MfaRecoveryCode.codeHash).Nodup := by
      refine List.Nodup.of_map (fun hash => (u, hash)) ?_
      rw [hkeys]
      exact d.codes.nodup.sublist (List.filter_sublist.map _)
    have hsub : (liveCodes d u).map MfaRecoveryCode.codeHash ⊆ codes.codes.map P.hashRecoveryCode := fun hash hmem => by
      obtain ⟨row, hrow, rfl⟩ := List.mem_map.1 hmem
      obtain ⟨codes', hcodes, hminted⟩ := h row hrow
      cases hcodes
      exact hminted
    have hlength := (List.subperm_of_subset hnodup hsub).length_le
    rw [List.length_map, List.length_map, codes.length_eq] at hlength
    exact hlength

end Decided

/-! ### The burn -/

def Tail.Supersedes (t : Tail) (u : Uuid) (codeHash : Bytes) : Prop :=
  (∃ now, .supersedeCode u codeHash now ∈ t.writes) ∨ .supersedeCode u codeHash ∈ t.todo

/-- The live codes of the user are to be found yet, or each of them is superseded at the end. -/
def Tail.Burns (u : Uuid) (d : Db) (t : Tail) : Prop :=
  .burnRecoveryCodes u ∈ t.todo ∨ ∀ row ∈ liveCodes d u, t.Supersedes u row.codeHash

section Burn
variable {d d' : Db} {t t' : Tail} {u : Uuid} {row : MfaRecoveryCode}

theorem supersedes_step (h : (t.step d).next = .tail t') (hrow : row ∈ liveCodes d u) (hs : t.Supersedes u row.codeHash) :
    t'.Supersedes u row.codeHash := by
  obtain ⟨hmem, rfl, hlive⟩ := mem_liveCodes.1 hrow
  have hfind : d.codes.find (row.userId, row.codeHash) = some row := Table.find_of_mem hmem
  obtain ⟨stmt, rest, htodo, ⟨ks, w, ho, -, rfl⟩ | ⟨todo, ho, -, rfl⟩⟩ := tail_step h
  · rcases hs with ⟨now, hw⟩ | hs
    · exact .inl ⟨now, List.mem_append_left _ hw⟩
    · rw [htodo] at hs
      rcases List.mem_cons.1 hs with rfl | hs
      · rw [Stmt.outcome, hfind, Option.any_some, hlive] at ho
        cases ho
        exact .inl ⟨_, List.mem_append_right _ List.mem_cons_self⟩
      · exact .inr hs
  · rcases hs with hw | hs
    · exact .inl hw
    · rw [htodo] at hs
      rcases List.mem_cons.1 hs with rfl | hs
      · rw [Stmt.outcome, hfind, Option.any_some, hlive] at ho
        cases ho
      · exact .inr (List.mem_append_right _ hs)

theorem burns_listed {rest : List Stmt} (htodo : t.todo = .burnRecoveryCodes u :: rest) (h : (t.step d).next = .tail t') :
    t'.Burns u d := by
  obtain ⟨stmt, rest', htodo', ⟨ks, w, ho, -, rfl⟩ | ⟨todo, ho, -, rfl⟩⟩ := tail_step h
  · rw [htodo] at htodo'
    cases htodo'
    cases ho
  · rw [htodo] at htodo'
    cases htodo'
    cases ho
    refine .inr fun row hrow => .inr (List.mem_append_left _ ?_)
    exact List.mem_map.2 ⟨row, hrow, rfl⟩

theorem Tail.Burns.step (hb : t.Burns u d) (h : (t.step d).next = .tail t') : t'.Burns u d := by
  rcases hb with hahead | hall
  · obtain ⟨stmt, rest, htodo, hcase⟩ := tail_step h
    rw [htodo] at hahead
    rcases List.mem_cons.1 hahead with rfl | hrest
    · exact burns_listed htodo h
    · obtain ⟨ks, w, -, -, rfl⟩ | ⟨todo, -, -, rfl⟩ := hcase
      · exact .inl hrest
      · exact .inl (List.mem_append_right _ hrest)
  · exact .inr fun row hrow => supersedes_step h hrow (hall row hrow)

theorem Tail.Burns.stable (hb : t.Burns u d)
    (h : ∀ row' ∈ liveCodes d' u, ∃ row ∈ liveCodes d u, row'.codeHash = row.codeHash) : t.Burns u d' := by
  rcases hb with hahead | hall
  · exact .inl hahead
  · refine .inr fun row' hrow' => ?_
    obtain ⟨row, hrow, hhash⟩ := h row' hrow'
    rw [hhash]
    exact hall row hrow

end Burn

/-- A request that has decided to issue a set has the codes of the user still to burn. -/
theorem Begins.issues {P : Primitives} {s : Settings} {d : Db} {p : Proc} {t : Tail} {u : Uuid} (h : Begins P s d p t)
    (he : t.event.issues = some u) : .burnRecoveryCodes u ∈ t.todo := by
  cases h with
  | confirmed _ huser =>
    cases he
    simp [Call.tail, huser]
  | regenerated =>
    cases he
    exact List.mem_cons_self
  | _ => cases he

/-! ### Every run -/

/-- The account of the recovery codes of a user in a world of the run. -/
structure CodesAccount {π : Type} [DecidableEq π] (P : Primitives) (u : Uuid) (before : Option RecoveryCodes)
    (H : List (Taken π Lock Write Db Proc Event)) (w : Requests π) : Prop where
  minted : ∀ row ∈ liveCodes w.db u, ∃ codes, latest before u H = some codes ∧ row.codeHash ∈ codes.codes.map P.hashRecoveryCode
  /-- Who has not been overtaken ends every code that is live. -/
  ends : ∀ i t, w.proc i = .tail t → t.event.issues = some u → (codeSets u).overtaken H i = false → t.Burns u w.db

section Commit
variable {P : Primitives} {s : Settings} {held : Lock → Prop} {d : Db} {r : Request} {e : Event} {ws : List Write} {u : Uuid}
  {row' : MfaRecoveryCode}

theorem liveCodes_commit (hd : Decided P s held d r e (ws.filter Write.planned)) (h : row' ∈ liveCodes (ws.foldl Db.write d) u) :
    (∃ row ∈ liveCodes d u, row'.codeHash = row.codeHash ∧ ∀ now, .supersedeCode u row.codeHash now ∉ ws) ∨
      (e.issues = some u ∧ ∃ codes, r.codes = some codes ∧ row'.codeHash ∈ codes.codes.map P.hashRecoveryCode) := by
  obtain ⟨hmem', huser', hlive'⟩ := mem_liveCodes.1 h
  rcases code_origin hmem' with ⟨row, hmem, hafter⟩ | ⟨row, hin, hkey⟩
  · have huser : row.userId = u := (congrArg Prod.fst hafter.key).symm.trans huser'
    obtain ⟨hlive, hnot⟩ := hafter.live hlive'
    exact .inl ⟨row, mem_liveCodes.2 ⟨hmem, huser, hlive⟩, congrArg Prod.snd hafter.key, huser ▸ hnot⟩
  · have huser : row.userId = u := (congrArg Prod.fst hkey).symm.trans huser'
    have hhash : row'.codeHash = row.codeHash := congrArg Prod.snd hkey
    obtain ⟨he, codes, hcodes, hminted⟩ := hd.inserts (List.mem_filter.2 ⟨hin, rfl⟩)
    exact .inr ⟨huser ▸ he, codes, hcodes, hhash ▸ hminted⟩

end Commit

section Runs
variable {π : Type} [DecidableEq π] {P : Primitives} {s : Settings} {u : Uuid} {before : Option RecoveryCodes}
  {H : List (Taken π Lock Write Db Proc Event)} {w₀ w : Requests π} {i : π} {c : Choice} {m : Step}

omit [DecidableEq π] in
theorem issued_commit {t : Tail} {ws : List Write} (hproc : w.proc i = .tail t) (hop : m.op = .commit ws) :
    issued u ⟨w, i, m⟩ = if t.event.issues = some u then t.request.codes else none := by
  simp only [issued, hproc, hop]

omit [DecidableEq π] in
theorem issued_eq_none (h : ∀ ws, m.op ≠ .commit ws) : issued u ⟨w, i, m⟩ = none := by
  unfold issued
  split
  next hop => exact absurd hop (h _)
  · rfl

omit [DecidableEq π] in
theorem burns_eq_true {t : Tail} (hproc : w.proc i = .tail t) (h : burns u ⟨w, i, m⟩ = true) :
    ∃ rest, t.todo = .burnRecoveryCodes u :: rest := by
  unfold burns at h
  rw [hproc] at h
  split at h
  next heq =>
    cases heq
    exact ⟨_, by rw [of_decide_eq_true h]⟩
  · cases h

theorem CodesAccount.commit {t : Tail} (ha : CodesAccount P u before H w) (hproc : w.proc i = .tail t) (htodo : t.todo = [])
    (hd : Decided P s (fun k => w.owner k = some i) w.db t.request t.event (t.writes.filter Write.planned))
    (hm : m = { op := .commit t.writes, next := .done, emit := [t.event] })
    (hundisturbed : (codeSets u).lands ⟨w, i, m⟩ = true → (codeSets u).overtaken H i = false) :
    CodesAccount P u before (H ++ [⟨w, i, m⟩]) ((authentication P s).after w i m) := by
  have hissued : issued u ⟨w, i, m⟩ = if t.event.issues = some u then t.request.codes else none :=
    issued_commit hproc (by rw [hm])
  have hdb : ((authentication P s).after w i m).db = t.writes.foldl Db.write w.db := by
    rw [hm, System.db_after]
    rfl
  have hother : ∀ j t', ((authentication P s).after w i m).proc j = .tail t' → j ≠ i ∧ w.proc j = .tail t' := fun j t' hp => by
    rcases System.proc_after_eq hp with ⟨-, hnext⟩ | hother
    · rw [hm] at hnext
      cases hnext
    · exact hother
  by_cases he : t.event.issues = some u
  · -- the set that is issued takes the place of what is live
    obtain ⟨codes, hcodes⟩ := hd.codes he
    rw [if_pos he, hcodes] at hissued
    have hlands : (codeSets u).lands (⟨w, i, m⟩ : Taken π Lock Write Db Proc Event) = true := by
      show (issued u ⟨w, i, m⟩).isSome = true
      rw [hissued]
      rfl
    have hends := ha.ends i t hproc he (hundisturbed hlands)
    refine ⟨fun row' hrow' => ?_, fun j t' hp he' hov => ?_⟩
    · rw [hdb] at hrow'
      rw [latest_append, hissued, Option.some_or]
      rcases liveCodes_commit hd hrow' with ⟨row, hrow, -, hnot⟩ | ⟨-, codes', hcodes', hminted⟩
      · rcases hends with hahead | hall
        · rw [htodo] at hahead
          cases hahead
        · rcases hall row hrow with ⟨now, hw⟩ | hs
          · exact absurd hw (hnot now)
          · rw [htodo] at hs
            cases hs
      · cases hcodes.symm.trans hcodes'
        exact ⟨codes, rfl, hminted⟩
    · rw [Snapshots.overtaken_of_lands hlands] at hov
      cases hov
  · rw [if_neg he] at hissued
    have hkept : ∀ row' ∈ liveCodes (t.writes.foldl Db.write w.db) u, ∃ row ∈ liveCodes w.db u, row'.codeHash = row.codeHash :=
      fun row' hrow' => by
        rcases liveCodes_commit hd hrow' with ⟨row, hrow, hhash, -⟩ | ⟨he', -⟩
        · exact ⟨row, hrow, hhash⟩
        · exact absurd he' he
    refine ⟨fun row' hrow' => ?_, fun j t' hp he' hov => ?_⟩
    · rw [hdb] at hrow'
      obtain ⟨row, hrow, hhash⟩ := hkept row' hrow'
      rw [latest_append, hissued, Option.none_or, hhash]
      exact ha.minted row hrow
    · obtain ⟨hij, hp⟩ := hother j t' hp
      rw [hdb]
      rcases (Snapshots.overtaken_eq_false hov).2 with ⟨-, hi⟩ | hov
      · exact absurd hi (Ne.symm hij)
      · exact (ha.ends j t' hp he' hov).stable hkept

theorem CodesAccount.next (ha : CodesAccount P u before H w) (hat : (outline P s).At w i) (hm : (authentication P s).Fires w i c m)
    (hdb : ((authentication P s).after w i m).db = w.db) (hno : ∀ ws, m.op ≠ .commit ws) :
    CodesAccount P u before (H ++ [⟨w, i, m⟩]) ((authentication P s).after w i m) := by
  have hissued : issued u ⟨w, i, m⟩ = none := issued_eq_none hno
  refine ⟨fun row hrow => ?_, fun j t hp he hov => ?_⟩
  · rw [hdb] at hrow
    rw [latest_append, hissued, Option.none_or]
    exact ha.minted row hrow
  · have hov := (Snapshots.overtaken_eq_false hov).2
    rw [hdb]
    rcases System.proc_after_eq hp with ⟨rfl, hnext⟩ | ⟨hij, hp⟩
    · rcases System.move_abortable hm.1 with hgo | rfl
      · rcases go_begins hgo hat hnext with ⟨t₀, hp₀, rfl⟩ | hbegins
        · have hstep : (t₀.step w.db).next = .tail t := hnext
          have he₀ : t₀.event.issues = some u := by rw [← (plan_step hstep).2.1]; exact he
          rcases hov with ⟨htakes, -⟩ | hov
          · obtain ⟨rest, htodo⟩ := burns_eq_true hp₀ htakes
            exact burns_listed htodo hstep
          · exact (ha.ends j t₀ hp₀ he₀ hov).step hstep
        · exact .inl (hbegins.issues he)
      · cases hnext
    · rcases hov with ⟨-, hi⟩ | hov
      · exact absurd hi (Ne.symm hij)
      · exact ha.ends j t hp he hov

/-- In a run where no set of the user is committed between the burn of a request that issues one and its commit, the live
codes of the user are codes of the set that was issued last, and at most as many. -/
theorem recovery_codes_replaced (h₀ : Start w₀) (hbefore : OfSet P u before w₀.db)
    (h : (authentication P s).Path (fun _ _ => True) w₀ H w) (hundisturbed : (codeSets u).Undisturbed H) :
    OfSet P u (latest before u H) w.db := by
  have hstart : CodesAccount P u before [] w₀ := by
    refine ⟨hbefore.minted, fun i t hp => ?_⟩
    have he := h₀.entry i
    rw [hp] at he
    cases he
  have ha : CodesAccount P u before H w := h.undisturbed hundisturbed hstart fun H w i c m hrun ih hm hcommit => by
    rcases fires_cases (outline_of_run h₀ hrun i) hm with ⟨t, hproc, -, htodo, hmove, hholds⟩ | ⟨hdb, -, hno⟩
    · have hdecided := hholds.decided
      rw [Tail.plan, htodo, List.flatMap_nil, List.append_nil] at hdecided
      exact ih.commit hproc htodo hdecided hmove hcommit
    · exact ih.next (outline_of_run h₀ hrun i) hm hdb hno
  exact .of_minted ha.minted

end Runs

/-! ### Two sessions regenerate -/

namespace Regeneration

/-- Both sessions of the user of `Race.db` are assured by the confirmed factor. -/
def db : Db :=
  [Write.mfa 1 { confirmedAt := some (some 0), lastUsedStep := some (some 1) }, .stampSession 10 (Time.seconds 91),
    .stampSession 20 (Time.seconds 92)].foldl Db.write Race.db

def codes : RecoveryCodes := ⟨"klmnopqrst".toList.map fun c => String.ofList (List.replicate 16 c), rfl⟩

def requests : Fin 2 → Proc
  | 0 => .bootstrap ⟨"first", Time.seconds 100, .regenerateRecoveryCodes "correct horse" Race.codes⟩
  | 1 => .bootstrap ⟨"second", Time.seconds 101, .regenerateRecoveryCodes "correct horse" codes⟩

def begin : Requests (Fin 2) where
  db
  owner _ := none
  proc := requests
  trace := []

theorem start : Start begin where
  entry := fun | 0 | 1 => trivial
  trace := rfl

theorem empty : OfSet Primitives.plain 1 none begin.db := .of_minted fun row hrow => by cases hrow

end Regeneration

open Regeneration in
/-- One set after the other: the codes of the first are burned. -/
theorem recovery_codes_replaced_in_turn : ∃ H w, (authentication Primitives.plain Settings.shipped).Path (fun _ _ => True) begin H w ∧
    w.trace = [.regenerated 1, .regenerated 1] ∧ OfSet Primitives.plain 1 (latest none 1 H) w.db := by
  have run : ((authentication Primitives.plain Settings.shipped).trail (fun _ _ => True) begin (steps 0 17 ++ steps 1 27)).any
      (fun x => x.2.trace = [.regenerated 1, .regenerated 1] ∧ (codeSets 1).Undisturbed x.1) = true := by
    decide +kernel
  obtain ⟨H, w, hpath, hp⟩ := System.Path.of_trail_any run
  obtain ⟨htrace, hundisturbed⟩ := of_decide_eq_true hp
  exact ⟨H, w, hpath, htrace, recovery_codes_replaced start empty hpath hundisturbed⟩

open Regeneration in
/-- The second set is committed after the burn of the first request, which then commits its own: both sets are live. -/
theorem recovery_codes_accumulate : ∃ (w₀ w : Requests (Fin 2)) (H : List (Taken (Fin 2) Lock Write Db Proc Event)), Start w₀ ∧
    OfSet Primitives.plain 1 none w₀.db ∧ (authentication Primitives.plain Settings.shipped).Path (fun _ _ => True) w₀ H w ∧
    (liveCodes w.db 1).length = 2 * recoveryCodeCount ∧ ¬ OfSet Primitives.plain 1 (latest none 1 H) w.db := by
  have run : ((authentication Primitives.plain Settings.shipped).trail (fun _ _ => True) begin
      (steps 0 6 ++ steps 1 17 ++ steps 0 11)).any (fun x => (liveCodes x.2.db 1).length = 2 * recoveryCodeCount) = true := by
    decide +kernel
  obtain ⟨H, w, hpath, hp⟩ := System.Path.of_trail_any run
  have hlength := of_decide_eq_true hp
  refine ⟨begin, w, H, start, empty, hpath, hlength, fun hset => ?_⟩
  have hbounded := hset.bounded
  rw [hlength, recoveryCodeCount] at hbounded
  omega

end TestingPlatform.Auth
