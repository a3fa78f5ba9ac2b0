import TestingPlatform.Lib.ReadCommitted
import Mathlib.Data.List.Perm.Subperm

/-!
# Histories and outboxes

A `Path` is a run together with its steps, for statements about what one process has done on the way. What holds of
the paths of one program holds of those of a program that it mirrors (`Path.mirror`).

An `Outbox` is the pattern of a process that commits first and tells later: a commit makes messages due,
the process keeps them in its control state and sends them one statement at a time. If every statement
balances what it makes due against what it sends, then each process has sent a prefix of what its commits
made due (`Outbox.balance`), and once nobody has anything left the messages sent are the messages due
(`Outbox.sent_perm`).
-/

namespace ReadCommitted

variable {π κ υ δ ρ χ ω : Type}

/-- One step of a run: the world before it, who moves, and the move. -/
structure Taken (π κ υ δ ρ ω : Type) where
  world : World π κ δ ρ ω
  proc : π
  move : Move κ υ ρ ω

/-- The writes that the statement makes visible. -/
def Op.writes : Op κ υ → List υ
  | .commit ws => ws
  | _ => []

theorem Op.effect_writes (write : δ → υ → δ) (op : Op κ υ) (d : δ) : op.effect write d = op.writes.foldl write d := by
  cases op <;> rfl

theorem Op.eq_commit_of_writes {op : Op κ υ} (h : op.writes ≠ []) : op = .commit op.writes := by
  cases op with
  | commit => rfl
  | read | lock | unlock | rollback => exact absurd rfl h

namespace System
variable [DecidableEq π] [DecidableEq κ] {sys : System κ υ δ ρ χ ω} {C : World π κ δ ρ ω → π × χ → Prop}
  {w₀ w : World π κ δ ρ ω} {H : List (Taken π κ υ δ ρ ω)}

/-- A run with its steps, oldest first. -/
inductive Path (sys : System κ υ δ ρ χ ω) (C : World π κ δ ρ ω → π × χ → Prop) (w₀ : World π κ δ ρ ω) :
    List (Taken π κ υ δ ρ ω) → World π κ δ ρ ω → Prop where
  | refl : Path sys C w₀ [] w₀
  | tail {H w i c m} (h : Path sys C w₀ H w) (hC : C w (i, c)) (hm : sys.Fires w i c m) :
      Path sys C w₀ (H ++ [⟨w, i, m⟩]) (sys.after w i m)

theorem Path.run (h : sys.Path C w₀ H w) : sys.Run C w₀ w := by
  induction h with
  | refl => exact .refl
  | tail _ hC hm ih => exact ih.tail ⟨_, hC, step_eq_some.2 ⟨_, hm, rfl⟩⟩

theorem Run.path (h : sys.Run C w₀ w) : ∃ H, sys.Path C w₀ H w := by
  induction h with
  | refl => exact ⟨[], .refl⟩
  | tail _ hs ih =>
    obtain ⟨H, hH⟩ := ih
    obtain ⟨⟨i, c⟩, hC, hstep⟩ := hs
    obtain ⟨m, hm, rfl⟩ := step_eq_some.1 hstep
    exact ⟨_, hH.tail hC hm⟩

theorem Path.append {v : World π κ δ ρ ω} {H' : List (Taken π κ υ δ ρ ω)} (h : sys.Path C w₀ H v) (h' : sys.Path C v H' w) :
    sys.Path C w₀ (H ++ H') w := by
  induction h' with
  | refl => simpa using h
  | tail _ hC hm ih =>
    rw [← List.append_assoc]
    exact ih.tail hC hm

/-- What has been committed, oldest first. -/
def committed (H : List (Taken π κ υ δ ρ ω)) : List υ := H.flatMap fun s => s.move.op.writes

theorem Path.db_eq (h : sys.Path C w₀ H w) : w.db = (committed H).foldl sys.write w₀.db := by
  induction h with
  | refl => rfl
  | @tail H w i c m _ hC hm ih =>
    have hlast : committed (H ++ [⟨w, i, m⟩]) = committed H ++ m.op.writes := by simp [committed]
    rw [db_after, Op.effect_writes, ih, hlast, List.foldl_append]

/-- The worlds are in the same place, the one program in control states related to those of the other. -/
structure Mirrors {σ : Type} (R : ρ → σ → Prop) (w : World π κ δ ρ ω) (w' : World π κ δ σ ω) : Prop where
  db : w'.db = w.db
  owner : w'.owner = w.owner
  trace : w'.trace = w.trace
  proc : ∀ i, R (w.proc i) (w'.proc i)

/-- A program that can match every statement by one that does and shows the same has the same runs and more. -/
theorem Path.mirror {σ χ' : Type} {sys' : System κ υ δ σ χ' ω} {R : ρ → σ → Prop} {w₀' : World π κ δ σ ω}
    (hwrite : sys'.write = sys.write) (h₀ : Mirrors R w₀ w₀') (h : sys.Path C w₀ H w)
    (hmatch : ∀ {w i c m q}, sys.Run C w₀ w → C w (i, c) → sys.Fires w i c m → R (w.proc i) q →
      ∃ c' m', sys'.move w.db q c' = some m' ∧ m'.op = m.op ∧ m'.emit = m.emit ∧ R m.next m'.next) :
    ∃ H' w', sys'.Path (fun _ _ => True) w₀' H' w' ∧ committed H' = committed H ∧ Mirrors R w w' := by
  induction h with
  | refl => exact ⟨[], w₀', .refl, rfl, h₀⟩
  | @tail H w i c m hpath hC hm ih =>
    obtain ⟨H', w', hpath', hcommitted, hsame⟩ := ih
    obtain ⟨c', m', hmove, hop, hemit, hnext⟩ := hmatch hpath.run hC hm (hsame.proc i)
    have hfires : sys'.Fires w' i c' m' := ⟨by rw [hsame.db]; exact hmove, by rw [hop, hsame.owner]; exact hm.2⟩
    refine ⟨_, _, hpath'.tail trivial hfires, ?_, ?_⟩
    · simp only [committed, List.flatMap_append, List.flatMap_singleton] at hcommitted ⊢
      rw [hcommitted, hop]
    · constructor
      · rw [db_after, db_after, hop, hsame.db, hwrite]
      · rw [owner_after, owner_after, hop, hsame.owner]
      · rw [trace_after, trace_after, hemit, hsame.trace]
      · intro j
        by_cases hj : j = i
        · subst hj
          rw [proc_after_self, proc_after_self]
          exact hnext
        · rw [proc_after_of_ne hj, proc_after_of_ne hj]
          exact hsame.proc j

/-- What `f` reads off the steps of process `i`, oldest first. -/
def gather {τ : Type} (f : World π κ δ ρ ω → Move κ υ ρ ω → List τ) (i : π) (H : List (Taken π κ υ δ ρ ω)) : List τ :=
  H.flatMap fun s => if s.proc = i then f s.world s.move else []

section Gather
variable {τ : Type} {f : World π κ δ ρ ω → Move κ υ ρ ω → List τ} {i j : π} {v : World π κ δ ρ ω} {m : Move κ υ ρ ω}

omit [DecidableEq κ]

theorem gather_self : gather f i (H ++ [⟨v, i, m⟩]) = gather f i H ++ f v m := by simp [gather]

theorem gather_of_ne (h : j ≠ i) : gather f i (H ++ [⟨v, j, m⟩]) = gather f i H := by simp [gather, h]

end Gather

/-- What every step keeps of the history holds of every path. -/
theorem Path.invariant {I : List (Taken π κ υ δ ρ ω) → World π κ δ ρ ω → Prop} (h : sys.Path C w₀ H w) (h₀ : I [] w₀)
    (hI : ∀ H w i c m, sys.Run C w₀ w → I H w → C w (i, c) → sys.Fires w i c m →
      I (H ++ [⟨w, i, m⟩]) (sys.after w i m)) : I H w := by
  induction h with
  | refl => exact h₀
  | tail h hC hm ih => exact hI _ _ _ _ _ h.run ih hC hm

section Trail
variable [∀ w a, Decidable (C w a)]

/-- A path with one more step; `none` when the step does not meet `C` or is not enabled. -/
def extend (sys : System κ υ δ ρ χ ω) (C : World π κ δ ρ ω → π × χ → Prop) [∀ w a, Decidable (C w a)]
    (s : List (Taken π κ υ δ ρ ω) × World π κ δ ρ ω) (a : π × χ) :
    Option (List (Taken π κ υ δ ρ ω) × World π κ δ ρ ω) :=
  if C s.2 a then (sys.move s.2.db (s.2.proc a.1) a.2).bind fun m =>
    if m.op.Allowed a.1 s.2.owner then some (s.1 ++ [⟨s.2, a.1, m⟩], sys.after s.2 a.1 m) else none
  else none

/-- The steps of a schedule, in order, as long as each meets `C`. -/
def trail (sys : System κ υ δ ρ χ ω) (C : World π κ δ ρ ω → π × χ → Prop) [∀ w a, Decidable (C w a)]
    (w : World π κ δ ρ ω) (as : List (π × χ)) : Option (List (Taken π κ υ δ ρ ω) × World π κ δ ρ ω) :=
  as.foldlM (sys.extend C) ([], w)

theorem Path.extend {s : List (Taken π κ υ δ ρ ω) × World π κ δ ρ ω} {a : π × χ} (h : sys.Path C w₀ H w)
    (hs : sys.extend C (H, w) a = some s) : sys.Path C w₀ s.1 s.2 := by
  unfold System.extend at hs
  split at hs
  · next hC =>
    obtain ⟨m, hm, hs⟩ := Option.bind_eq_some_iff.1 hs
    split at hs
    · next ha =>
      cases hs
      exact h.tail hC ⟨hm, ha⟩
    · cases hs
  · cases hs

theorem Path.foldlM {as : List (π × χ)} {s : List (Taken π κ υ δ ρ ω) × World π κ δ ρ ω} (h : sys.Path C w₀ H w)
    (hs : as.foldlM (sys.extend C) (H, w) = some s) : sys.Path C w₀ s.1 s.2 := by
  induction as generalizing H w with
  | nil =>
    cases hs
    exact h
  | cons a as ih =>
    simp only [List.foldlM_cons, bind, Option.bind_eq_some_iff] at hs
    obtain ⟨s', hs', hs⟩ := hs
    exact ih (h.extend hs') hs

theorem Path.of_trail_any {as : List (π × χ)} {p : List (Taken π κ υ δ ρ ω) × World π κ δ ρ ω → Bool}
    (h : (sys.trail C w₀ as).any p = true) : ∃ H w, sys.Path C w₀ H w ∧ p (H, w) = true := by
  obtain ⟨⟨H, w⟩, hs, hp⟩ := (Option.any_eq_true ..).1 h
  exact ⟨H, w, Path.refl.foldlM hs, hp⟩

end Trail

end System

/-! ### Outboxes -/

/-- What statements make due, what control states have still to send, and which messages count. -/
structure Outbox (κ υ δ ρ ω : Type) where
  counts : ω → Bool
  /-- The messages that a statement on the database makes due. -/
  due : δ → Op κ υ → List ω
  /-- The messages that a control state has still to send. -/
  left : ρ → List ω

namespace Outbox
variable (o : Outbox κ υ δ ρ ω)

def dues (H : List (Taken π κ υ δ ρ ω)) : List ω := H.flatMap fun s => o.due s.world.db s.move.op

/-- The messages made due in a history, each with the process that owes it. -/
def duesBy (H : List (Taken π κ υ δ ρ ω)) : List (π × ω) :=
  H.flatMap fun s => (o.due s.world.db s.move.op).map (s.proc, ·)

/-- The messages sent in a history, each with its sender. -/
def sentBy (H : List (Taken π κ υ δ ρ ω)) : List (π × ω) :=
  H.flatMap fun s => (s.move.emit.filter o.counts).map (s.proc, ·)

/-- The statement sends and keeps what was left and what it makes due, in this order. -/
def Balances (d : δ) (p : ρ) (m : Move κ υ ρ ω) : Prop :=
  m.emit.filter o.counts ++ o.left m.next = o.left p ++ o.due d m.op

def part [DecidableEq π] (i : π) (l : List (π × ω)) : List ω := (l.filter fun x => x.1 = i).map (·.2)

section Part
variable [DecidableEq π] {i j : π} {l l' : List (π × ω)} {ms : List ω}

@[simp] theorem part_append : part i (l ++ l') = part i l ++ part i l' := by simp [part]

@[simp] theorem part_self : part i (ms.map (i, ·)) = ms := by
  have hall : (ms.map (i, ·)).filter (fun x => decide (x.1 = i)) = ms.map (i, ·) :=
    List.filter_eq_self.2 fun x hx => by obtain ⟨m, -, rfl⟩ := List.mem_map.1 hx; simp
  rw [part, hall, List.map_map]
  exact List.map_id ms

theorem part_of_ne (h : j ≠ i) : part i (ms.map (j, ·)) = [] := by
  have hnone : (ms.map (j, ·)).filter (fun x => decide (x.1 = i)) = [] :=
    List.filter_eq_nil_iff.2 fun x hx => by obtain ⟨m, -, rfl⟩ := List.mem_map.1 hx; simpa using h
  rw [part, hnone]
  rfl

theorem count_part [DecidableEq ω] (l : List (π × ω)) (i : π) (m : ω) : l.count (i, m) = (part i l).count m := by
  induction l with
  | nil => rfl
  | cons x l ih =>
    have hcons : part i (x :: l) = part i [x] ++ part i l := part_append (l := [x])
    rw [hcons, List.count_append, List.count_cons, ih, Nat.add_comm]
    obtain ⟨j, m'⟩ := x
    by_cases hj : j = i
    · subst hj
      by_cases hm : m' = m <;> simp [part, hm]
    · simp [part, hj]

end Part

section Paths
variable [DecidableEq π] [DecidableEq κ] {sys : System κ υ δ ρ χ ω} {C : World π κ δ ρ ω → π × χ → Prop}
  {w₀ w : World π κ δ ρ ω} {H : List (Taken π κ υ δ ρ ω)} {o}

/-- Each process sends what its commits make due, in their order. -/
theorem balance (h : sys.Path C w₀ H w) (hempty : ∀ i, o.left (w₀.proc i) = [])
    (hbalances : ∀ {w i c m}, sys.Run C w₀ w → C w (i, c) → sys.Fires w i c m → o.Balances w.db (w.proc i) m) (i : π) :
    part i (o.sentBy H) ++ o.left (w.proc i) = part i (o.duesBy H) := by
  refine h.invariant (I := fun H w => part i (o.sentBy H) ++ o.left (w.proc i) = part i (o.duesBy H)) (hempty i)
    fun H w j c m hrun ih hC hm => ?_
  have hb := hbalances hrun hC hm
  have hsent : o.sentBy (H ++ [⟨w, j, m⟩]) = o.sentBy H ++ (m.emit.filter o.counts).map (j, ·) := by simp [sentBy]
  have hdues : o.duesBy (H ++ [⟨w, j, m⟩]) = o.duesBy H ++ (o.due w.db m.op).map (j, ·) := by simp [duesBy]
  rw [hsent, hdues, part_append, part_append]
  by_cases hij : i = j
  · subst hij
    rw [part_self, part_self, System.proc_after_self, ← ih, List.append_assoc, List.append_assoc]
    exact congrArg _ hb
  · rw [part_of_ne (Ne.symm hij), part_of_ne (Ne.symm hij), System.proc_after_of_ne hij, List.append_nil, List.append_nil]
    exact ih

omit [DecidableEq π] [DecidableEq κ] in
theorem map_duesBy (H : List (Taken π κ υ δ ρ ω)) : (o.duesBy H).map (·.2) = o.dues H := by
  rw [duesBy, dues, List.map_flatMap]
  simp [Function.comp_def]

theorem map_sentBy (h : sys.Path C w₀ H w) (htrace : w₀.trace = []) :
    (o.sentBy H).map (·.2) = w.trace.filter o.counts := by
  induction h with
  | refl => rw [htrace]; rfl
  | tail h hC hm ih =>
    rw [System.trace_after, List.filter_append, ← ih]
    simp [sentBy, Function.comp_def]

variable (h : sys.Path C w₀ H w) (hempty : ∀ i, o.left (w₀.proc i) = []) (htrace : w₀.trace = [])
  (hbalances : ∀ {w i c m}, sys.Run C w₀ w → C w (i, c) → sys.Fires w i c m → o.Balances w.db (w.proc i) m)

include h hempty htrace hbalances

/-- Nothing is sent that has not become due before, and nothing twice. -/
theorem sent_subperm : (w.trace.filter o.counts).Subperm (o.dues H) := by
  classical
  obtain ⟨l, hperm, hsub⟩ : (o.sentBy H).Subperm (o.duesBy H) := by
    refine List.subperm_ext_iff.2 fun x _ => ?_
    obtain ⟨i, m⟩ := x
    rw [count_part, count_part, ← balance h hempty hbalances i, List.count_append]
    exact Nat.le_add_right ..
  rw [← map_sentBy h htrace, ← map_duesBy]
  exact ⟨l.map (·.2), hperm.map _, hsub.map _⟩

/-- When nothing is left, what is sent is what was due. -/
theorem sent_perm (hleft : ∀ i, o.left (w.proc i) = []) : (w.trace.filter o.counts).Perm (o.dues H) := by
  classical
  have hpairs : (o.sentBy H).Perm (o.duesBy H) := by
    refine List.perm_iff_count.2 fun x => ?_
    obtain ⟨i, m⟩ := x
    have hb := balance h hempty hbalances i
    rw [hleft i, List.append_nil] at hb
    rw [count_part, count_part, hb]
  rw [← map_sentBy h htrace, ← map_duesBy]
  exact hpairs.map _

end Paths

end Outbox

end ReadCommitted
