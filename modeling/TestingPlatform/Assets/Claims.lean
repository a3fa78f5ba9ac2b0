import TestingPlatform.Assets.Steps

/-!
# A domain is claimed once

The locks of the verification requests: who upserts a proof holds the row and the entry of the value in
the unique index until its commit, so what it saw of the other claims stays true.
-/

namespace TestingPlatform.Assets

open ReadCommitted

variable {s : Settings}

section Assertions
variable (held : Lock → Prop) (d : Db)

/-- The proof and the claim are locked, and no other asset has the value. -/
structure ProofHeld (row : DomainVerification) : Prop where
  lock : held (.proof row.assetId)
  claim : held (.claim row.value)
  alone : ∀ assetId p, d.proofs.find assetId = some p → p.value = row.value → assetId = row.assetId

def Proc.Holds : Proc → Prop
  | .commitChallenge row => held (.challenge row.assetId)
  | .nameOrganization _ _ row => ProofHeld held d row
  | .stampVerified c _ row named => ProofHeld held d row ∧ (named = true → held (.organization c.organizationId))
  | .commitCheck r _ =>
    held (.challenge r.assetId) ∧ (∀ row ∈ r.proof, ProofHeld held d row) ∧ ∀ n ∈ r.naming, held (.organization n.1)
  | _ => True

end Assertions

def rows (s : Settings) : (verification s).Rows where
  agree := Lock.agree
  agree_refl k _ := by
    cases k with
    | claim => exact fun _ _ hp _ => hp
    | challenge | proof | organization => rfl
  agree_trans {k} _ _ _ h h' := by
    cases k with
    | claim => exact fun assetId p hp hv => h assetId p (h' assetId p hp hv) hv
    | challenge | proof | organization => exact Eq.trans h' h
  touches := Write.touches
  frame := agree_write

section Stable
variable {held held' : Lock → Prop} {d d' : Db} (hk : ∀ k, held k → held' k) (hagree : ∀ k, held k → k.agree d d')

include hk hagree

theorem ProofHeld.stable {row : DomainVerification} (h : ProofHeld held d row) : ProofHeld held' d' row :=
  ⟨hk _ h.lock, hk _ h.claim, fun assetId p hp hv => h.alone assetId p (hagree _ h.claim assetId p hp hv) hv⟩

theorem Proc.Holds.stable {p : Proc} (h : p.Holds held d) : p.Holds held' d' := by
  cases p with
  | commitChallenge => exact hk _ h
  | nameOrganization => exact ProofHeld.stable hk hagree h
  | stampVerified => exact ⟨h.1.stable hk hagree, fun hn => hk _ (h.2 hn)⟩
  | commitCheck => exact ⟨hk _ h.1, fun row hrow => (h.2.1 row hrow).stable hk hagree, fun n hn => hk _ (h.2.2 n hn)⟩
  | _ => trivial

end Stable

theorem Proc.Holds.covered {held : Lock → Prop} {d : Db} {p : Proc} {m : Step} {ws : List Write} (h : go s d p = some m)
    (hA : p.Holds held d) (hop : m.op = .commit ws) : ∀ u ∈ ws, ∀ k, u.touches k → held k := by
  intro u hu k hk
  rcases commit_cases h hop with ⟨row, rfl, rfl⟩ | ⟨_, _, -, rfl⟩ | ⟨r, answer, rfl, rfl⟩
  · cases List.mem_singleton.1 hu
    cases hk
    exact hA
  · cases hu
  · obtain ⟨hrow, hproof, hnaming⟩ := hA
    simp only [CheckRecord.writes, List.mem_append, List.mem_map, List.mem_singleton, Option.mem_toList] at hu
    rcases hu with (⟨row, hr, rfl⟩ | ⟨n, hn, rfl⟩) | rfl
    · rcases hk with rfl | rfl
      · exact (hproof row hr).lock
      · exact (hproof row hr).claim
    · cases hk
      exact hnaming n hn
    · cases hk
      exact hrow

theorem Proc.Holds.next {held held' : Lock → Prop} {d : Db} {p : Proc} {m : Step} (h : go s d p = some m)
    (hA : p.Holds held d) (hk : Keeps held held' m.op) : m.next.Holds held' (m.op.effect Db.write d) := by
  have keep : ∀ {q : Proc}, (∀ k, held k → held' k) → q.Holds held d → q.Holds held' d := fun hk hq =>
    hq.stable hk fun k _ => (rows s).agree_refl k d
  cases go_leads h with
  | upserted => exact (hk.lock _ rfl).2 _ (by simp)
  | @proved c a v hfree =>
    have hlock := (hk.lock _ rfl).2
    refine ⟨hlock _ (by simp [prove]), hlock _ (by simp [prove]), fun assetId p hp hv => ?_⟩
    -- a proof of another asset with the value would have lost the claim
    by_contra hne
    refine hfree (List.any_eq_true.2 ⟨p, Table.mem_of_find hp, ?_⟩)
    have hid : p.assetId = assetId := Table.key_of_find hp
    simpa [prove, hid] using And.intro hv hne
  | @names c a row =>
    obtain ⟨hkeep, hlock⟩ := hk.lock _ rfl
    exact ⟨keep (q := .nameOrganization c a row) hkeep hA, fun _ => hlock _ (by simp)⟩
  | @named c a row => exact ⟨keep (q := .nameOrganization c a row) (hk.read rfl) hA, fun hn => by cases hn⟩
  | stamped hstamps =>
    obtain ⟨hkeep, hlock⟩ := hk.lock _ rfl
    cases hstamps with
    | @verified a row named =>
      obtain ⟨hproof, hnamed⟩ := keep (q := .stampVerified _ a row named) hkeep hA
      refine ⟨hlock _ (by simp), fun row' hrow => ?_, fun n hn => ?_⟩
      · cases hrow
        exact hproof
      · cases named with
        | false => cases hn
        | true =>
          cases hn
          exact hnamed rfl
    | _ => refine ⟨hlock _ (by simp), fun _ hn => ?_, fun _ hn => ?_⟩ <;> cases hn
  | _ => trivial

/-- The assertions outline the requests; no request changes an asset. -/
def outline (s : Settings) : Outline (verification s) where
  rows := rows s
  holds p held d := p.Holds held d
  guar d d' := d'.assets = d.assets
  stable h hk hagree _ := h.stable hk hagree
  covered hm h hop := by
    rcases System.move_abortable hm with hgo | rfl
    · exact h.covered hgo hop
    · cases hop
  guarantees {_ _ d _ m} _ _ := by
    cases m.op with
    | commit ws => exact assets_foldl d ws
    | read | lock | unlock | rollback => rfl
  next hm h hk := by
    rcases System.move_abortable hm with hgo | rfl
    · exact h.next hgo hk
    · trivial

/-! ### Claims -/

theorem CheckRecord.proofs_foldl (r : CheckRecord) (d : Db) :
    (r.writes.foldl Db.write d).proofs = (r.proof.map d.proofs.put).getD d.proofs := by
  cases hp : r.proof <;> cases hn : r.naming <;> simp [writes, hp, hn, Db.write]

section Worlds
variable {π : Type} [DecidableEq π] {C : Requests π → π × Choice → Prop} {w₀ w : Requests π} {i : π} {c : Choice}
  {m : Step}

theorem proof_after (hm : (verification s).Fires w i c m) (assetId : Uuid) :
    ((verification s).after w i m).db.proofs.find assetId = w.db.proofs.find assetId ∨
      ∃ r answer row, w.proc i = .commitCheck r answer ∧ r.proof = some row ∧ row.assetId = assetId ∧
        ((verification s).after w i m).db.proofs.find assetId = some row := by
  rw [System.db_after]
  cases hop : m.op with
  | read | lock | unlock | rollback => exact .inl rfl
  | commit ws =>
    rcases System.move_abortable hm.1 with hgo | rfl
    · rcases commit_cases hgo hop with ⟨row, hp, rfl⟩ | ⟨_, _, -, rfl⟩ | ⟨r, answer, hp, rfl⟩
      · exact .inl rfl
      · exact .inl rfl
      · have hdb := congrArg (·.find assetId) (r.proofs_foldl w.db)
        cases hrow : r.proof with
        | none =>
          rw [hrow] at hdb
          exact .inl hdb
        | some row =>
          rw [hrow] at hdb
          by_cases hid : row.assetId = assetId
          · exact .inr ⟨r, answer, row, hp, hrow, hid, hdb.trans (Table.find_put.trans (if_pos hid))⟩
          · exact .inl (hdb.trans (Table.find_put.trans (if_neg hid)))
    · cases hop

/-- Different assets do not claim one value. -/
def ClaimedOnce (d : Db) : Prop := ∀ assetId assetId' p p', d.proofs.find assetId = some p →
  d.proofs.find assetId' = some p' → p.value = p'.value → assetId = assetId'

theorem ClaimedOnce.step (hat : (outline s).At w i) (hc : ClaimedOnce w.db) (hm : (verification s).Fires w i c m) :
    ClaimedOnce ((verification s).after w i m).db := by
  intro assetId assetId' p p' hp hp' hv
  have held : ∀ {r answer row}, w.proc i = .commitCheck r answer → r.proof = some row →
      ProofHeld (fun k => w.owner k = some i) w.db row := fun hproc hrow => by
    have hholds : (w.proc i).Holds (fun k => w.owner k = some i) w.db := hat
    rw [hproc] at hholds
    exact hholds.2.1 _ hrow
  rcases proof_after hm assetId with he | ⟨r, answer, row, hproc, hrow, hid, he⟩ <;>
    rcases proof_after hm assetId' with he' | ⟨r', answer', row', hproc', hrow', hid', he'⟩ <;>
    rw [he] at hp <;> rw [he'] at hp'
  · exact hc assetId assetId' p p' hp hp' hv
  · cases hp'
    rw [← hid']
    exact (held hproc' hrow').alone assetId p hp hv
  · cases hp
    rw [← hid]
    exact ((held hproc hrow).alone assetId' p' hp' hv.symm).symm
  · rw [hproc] at hproc'
    cases hproc'
    rw [hrow] at hrow'
    cases hrow'
    exact hid.symm.trans hid'

theorem outline_of_run (h₀ : Start w₀) (h : (verification s).Run C w₀ w) (i : π) : (outline s).At w i := by
  refine Outline.of_run h (fun j => ?_) i
  show (w₀.proc j).Holds (fun k => w₀.owner k = some j) w₀.db
  rcases h₀.cases j with ⟨c, hp⟩ | ⟨c, hp⟩ | ⟨c, hp⟩ | hp <;> (rw [hp]; trivial)

/-- In every run a domain value is claimed at most once platform-wide. -/
theorem claimed_once_of_run (h₀ : Start w₀) (h : (verification s).Run C w₀ w) : ClaimedOnce w.db := by
  have hstart : ClaimedOnce w₀.db := fun assetId assetId' p p' hp hp' hv => by
    have he := h₀.claims p (Table.mem_of_find hp) p' (Table.mem_of_find hp') hv
    rw [← Table.key_of_find hp, ← Table.key_of_find hp', he]
  exact (h.using fun hv => outline_of_run h₀ hv).invariant (I := fun v => ClaimedOnce v.db) hstart
    fun v i c m hc ⟨_, hat⟩ hm => hc.step (hat i) hm

end Worlds

end TestingPlatform.Assets
