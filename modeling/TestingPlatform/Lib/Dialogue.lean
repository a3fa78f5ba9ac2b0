import Mathlib.Data.Fintype.Basic
import Mathlib.Logic.Function.Basic
import Mathlib.Logic.Relation

/-!
# Programs that ask, over pooled resources

A dialogue asks questions and goes on with whatever is answered. Its questions go to resources of several kinds, which
it takes out of a pool at its first question and gives back at one that ends its use (`Facility`). What a dialogue may
ask depends on what it has heard so far and on what it sees of the resource (`Watch`).

`wp` asks this of one dialogue that has resources of its own, which start afresh each time. The rules for it are those
of a program logic: `wp_bind`, and `Leads` for programs that raise. `Permitted` is the same about any number of dialogues that
take turns and pass the resources of one pool on to each other, and follows (`permitted_of_run`).
-/

/-- A program that asks questions and goes on with the answers. -/
inductive Dialogue (Q : Type) (R : Q → Type) (α : Type) where
  | done (a : α)
  | ask (q : Q) (next : R q → Dialogue Q R α)

namespace Dialogue

/-- A question and its answer. -/
structure Turn (Q : Type) (R : Q → Type) where
  question : Q
  answer : R question

variable {Q : Type} {R : Q → Type} {ι κ π S V γ δ ε α β : Type}

def bind : Dialogue Q R α → (α → Dialogue Q R β) → Dialogue Q R β
  | .done a, f => f a
  | .ask q next, f => .ask q fun r => (next r).bind f

instance : Monad (Dialogue Q R) where
  pure := .done
  bind := bind

/-- Asks, and raises what the answer raises. -/
def query {A : Q → Type} (raise : δ → ε) (q : Q) : ExceptT ε (Dialogue Q fun q => Except δ (A q)) (A q) :=
  ExceptT.mk (.ask q fun r => .done (r.mapError raise))

/-- `try … finally`. -/
def ensuring (x : ExceptT ε (Dialogue Q R) α) (cleanup : ExceptT ε (Dialogue Q R) Unit) : ExceptT ε (Dialogue Q R) α := do
  let result ← ExceptT.lift x.run
  cleanup
  ExceptT.mk (.done result)

/-- What the program returns when its questions are served in turn, and what has become of the server. -/
def served {σ : Type} (serve : (q : Q) → σ → R q × σ) : Dialogue Q R α → σ → α × σ
  | .done a, s => (a, s)
  | .ask q next, s => (next (serve q s).1).served serve (serve q s).2

theorem served_bind {σ : Type} {serve : (q : Q) → σ → R q × σ} {x : Dialogue Q R α} {f : α → Dialogue Q R β} {s : σ} :
    (x.bind f).served serve s = (f (x.served serve s).1).served serve (x.served serve s).2 := by
  induction x generalizing s with
  | done a => rfl
  | ask q next ih => exact ih _

/-- Resources, and what is seen of them. One that is given back is as good as fresh. -/
structure Facility (Q : Type) (R : Q → Type) (ι S V : Type) where
  kind : Q → ι
  after : S → Turn Q R → S
  /-- The question is the last before the resource is given back. -/
  ends : Q → Bool
  view : S → V
  seen : V → Turn Q R → V
  fresh : V
  view_after : ∀ s t, view (after s t) = seen (view s) t
  seen_ends : ∀ v t, ends t.question = true → seen v t = fresh

/-- What is noted of the turns of a dialogue, and what may be asked then of a resource. -/
structure Watch (Q : Type) (R : Q → Type) (V γ : Type) where
  note : γ → Turn Q R → γ
  Allows : γ → V → Q → Prop

/-- What is noted of a dialogue, and what it sees of its resources. -/
@[ext] structure Sight (ι V γ : Type) where
  noted : γ
  view : ι → V

section Private
variable [DecidableEq ι] (F : Facility Q R ι S V) (W : Watch Q R V γ)

def Sight.next (s : Sight ι V γ) (t : Turn Q R) : Sight ι V γ where
  noted := W.note s.noted t
  view := Function.update s.view (F.kind t.question) (F.seen (s.view (F.kind t.question)) t)

/-- Whatever is answered: all questions are allowed, and `post` holds in the end. -/
def wp : Dialogue Q R α → (α → Sight ι V γ → Prop) → Sight ι V γ → Prop
  | .done a, post, s => post a s
  | .ask q next, post, s =>
    W.Allows s.noted (s.view (F.kind q)) q ∧ ∀ r, wp (next r) post (s.next F W ⟨q, r⟩)

variable {F W} {s : Sight ι V γ}

theorem wp_mono {x : Dialogue Q R α} {post post' : α → Sight ι V γ → Prop} (hpost : ∀ a s, post a s → post' a s)
    (h : wp F W x post s) : wp F W x post' s := by
  induction x generalizing s with
  | done a => exact hpost a s h
  | ask q next ih => exact ⟨h.1, fun r => ih r (h.2 r)⟩

theorem wp_bind {x : Dialogue Q R α} {f : α → Dialogue Q R β} {post : β → Sight ι V γ → Prop} :
    wp F W (x.bind f) post s ↔ wp F W x (fun a => wp F W (f a) post) s := by
  induction x generalizing s with
  | done a => rfl
  | ask q next ih => exact and_congr_right fun _ => forall_congr' fun r => ih r

/-! ### Programs that raise -/

variable (F W)

/-- Whatever is answered: all questions are allowed, and `post` holds of what is returned, `raised` of what is raised. -/
def Leads (s : Sight ι V γ) (x : ExceptT ε (Dialogue Q R) α) (post : α → Sight ι V γ → Prop)
    (raised : ε → Sight ι V γ → Prop) : Prop :=
  wp F W x.run (fun result s => match result with
    | .ok a => post a s
    | .error e => raised e s) s

variable {F W}

namespace Leads
variable {x : ExceptT ε (Dialogue Q R) α} {post post' : α → Sight ι V γ → Prop} {raised raised' : ε → Sight ι V γ → Prop}

theorem mono (h : Leads F W s x post raised) (hpost : ∀ a s, post a s → post' a s) (hraised : ∀ e s, raised e s → raised' e s) :
    Leads F W s x post' raised' :=
  wp_mono (fun result s => by cases result <;> simp_all) h

theorem pure {a : α} (h : post a s) : Leads F W s (pure a) post raised := h

theorem throw {e : ε} (h : raised e s) : Leads F W s (throw e : ExceptT ε (Dialogue Q R) α) post raised := h

theorem bind {f : α → ExceptT ε (Dialogue Q R) β} {M : α → Sight ι V γ → Prop} {post : β → Sight ι V γ → Prop}
    (h : Leads F W s x M raised) (hf : ∀ a s, M a s → Leads F W s (f a) post raised) :
    Leads F W s (x >>= f) post raised := by
  refine wp_bind.2 (wp_mono (fun result s h => ?_) h)
  cases result with
  | ok a => exact hf a s h
  | error e => exact h

theorem tryCatch {handle : ε → ExceptT ε (Dialogue Q R) α} {C : ε → Sight ι V γ → Prop}
    (h : Leads F W s x post C) (hhandle : ∀ e s, C e s → Leads F W s (handle e) post raised) :
    Leads F W s (tryCatch x handle) post raised := by
  refine wp_bind.2 (wp_mono (fun result s h => ?_) h)
  cases result with
  | ok a => exact h
  | error e => exact hhandle e s h

/-- The outcome of a program as a value. -/
theorem attempt {K : Except ε α → Sight ι V γ → Prop}
    (h : Leads F W s x (fun a => K (.ok a)) fun e => K (.error e)) :
    Leads F W s (ExceptT.lift x.run : ExceptT ε (Dialogue Q R) (Except ε α)) K raised' :=
  wp_bind.2 (wp_mono (fun r _ h => by cases r <;> exact h) h)

theorem ensuring {cleanup : ExceptT ε (Dialogue Q R) Unit} {K : Except ε α → Sight ι V γ → Prop}
    (h : Leads F W s x (fun a => K (.ok a)) fun e => K (.error e))
    (hcleanup : ∀ r s, K r s → Leads F W s cleanup (fun _ s => match r with
      | .ok a => post a s
      | .error e => raised e s) raised) :
    Leads F W s (ensuring x cleanup) post raised := by
  refine bind (attempt h) fun r s hr => bind (hcleanup r s hr) fun _ s hend => ?_
  cases r with
  | ok a => exact hend
  | error e => exact hend

end Leads

theorem leads_query {A : Q → Type} {F : Facility Q (fun q => Except δ (A q)) ι S V} {W : Watch Q (fun q => Except δ (A q)) V γ}
    {raise : δ → ε} {q : Q} {post : A q → Sight ι V γ → Prop} {raised : ε → Sight ι V γ → Prop}
    (hallows : W.Allows s.noted (s.view (F.kind q)) q) (hpost : ∀ r, post r (s.next F W ⟨q, .ok r⟩))
    (hraised : ∀ e, raised (raise e) (s.next F W ⟨q, .error e⟩)) : Leads F W s (query raise q) post raised :=
  ⟨hallows, fun r => by cases r with
    | ok r => exact hpost r
    | error e => exact hraised e⟩

end Private

/-! ### The pool -/

/-- A turn, and what was seen of the resource before it. -/
structure Event (Q : Type) (R : Q → Type) (V : Type) extends Turn Q R where
  view : V

/-- Dialogues over one pool. -/
structure Pool (Q : Type) (R : Q → Type) (ι κ π S V α : Type) where
  resource : κ → S
  proc : π → Dialogue Q R α
  /-- The resource that the dialogue has taken out, for each kind. -/
  held : π → ι → Option κ
  log : π → List (Event Q R V)

section Pool
variable (F : Facility Q R ι S V) (W : Watch Q R V γ)

/-- Nothing is held and all is fresh. -/
structure Pool.Start (w : Pool Q R ι κ π S V α) : Prop where
  held : ∀ i k, w.held i k = none
  fresh : ∀ c, F.view (w.resource c) = F.fresh
  log : ∀ i, w.log i = []

/-- What is noted of a log. -/
def Watch.noted (g : γ) (log : List (Event Q R V)) : γ := log.foldl (fun g e => W.note g e.toTurn) g

/-- All questions of the log were allowed. -/
def Permitted (g : γ) (log : List (Event Q R V)) : Prop :=
  ∀ l e l', log = l ++ e :: l' → W.Allows (W.noted g l) e.view e.question

/-- What the dialogue `i` sees: the resources it holds, and fresh ones. -/
def Pool.sight (w : Pool Q R ι κ π S V α) (g : γ) (i : π) : Sight ι V γ where
  noted := W.noted g (w.log i)
  view k := (w.held i k).elim F.fresh fun c => F.view (w.resource c)

/-- The resource that the dialogue holds, or one that nobody holds. -/
def Pool.Takes (w : Pool Q R ι κ π S V α) (i : π) (k : ι) (c : κ) : Prop :=
  w.held i k = some c ∨ (w.held i k = none ∧ ∀ j k', w.held j k' ≠ some c)

variable [DecidableEq ι]

/-- In a pool every dialogue is on its own. -/
structure Pool.Apart (w : Pool Q R ι κ π S V α) (g : π → γ) : Prop where
  /-- Nobody else holds it, and not for another kind. -/
  exclusive : ∀ {i j k k' c}, w.held i k = some c → w.held j k' = some c → i = j ∧ k = k'
  idle : ∀ {c}, (∀ i k, w.held i k ≠ some c) → F.view (w.resource c) = F.fresh
  safe : ∀ i, wp F W (w.proc i) (fun _ _ => True) (w.sight F W (g i) i)
  permitted : ∀ i, Permitted W (g i) (w.log i)

section Moves
variable [DecidableEq κ] [DecidableEq π]

/-- The pool after the turn of `i` at the resource `c`. -/
def Pool.after (w : Pool Q R ι κ π S V α) (i : π) (c : κ) (t : Turn Q R) (rest : Dialogue Q R α) : Pool Q R ι κ π S V α where
  resource := Function.update w.resource c (F.after (w.resource c) t)
  proc := Function.update w.proc i rest
  held := Function.update w.held i
    (Function.update (w.held i) (F.kind t.question) (if F.ends t.question then none else some c))
  log := Function.update w.log i (w.log i ++ [{ toTurn := t, view := F.view (w.resource c) }])

/-- One turn of one dialogue. -/
inductive Pool.Step : Pool Q R ι κ π S V α → Pool Q R ι κ π S V α → Prop
  | turn {w : Pool Q R ι κ π S V α} {i : π} {c : κ} {q : Q} {next : R q → Dialogue Q R α} (r : R q)
    (hproc : w.proc i = .ask q next) (htakes : w.Takes i (F.kind q) c) : Pool.Step w (w.after F i c ⟨q, r⟩ (next r))

abbrev Pool.Run : Pool Q R ι κ π S V α → Pool Q R ι κ π S V α → Prop := Relation.ReflTransGen (Pool.Step F)

section Play
variable [Fintype π] [Fintype ι]

instance (w : Pool Q R ι κ π S V α) (i : π) (k : ι) (c : κ) : Decidable (w.Takes i k c) := inferInstanceAs (Decidable (_ ∨ _))

/-- The turns of a schedule: who is next, at which resource, and how the question is answered. -/
def Pool.play (w : Pool Q R ι κ π S V α) : List (π × κ × ((q : Q) → R q)) → Option (Pool Q R ι κ π S V α)
  | [] => some w
  | (i, c, answer) :: rest =>
    match w.proc i with
    | .done _ => none
    | .ask q next =>
      if w.Takes i (F.kind q) c then (w.after F i c ⟨q, answer q⟩ (next (answer q))).play rest else none

variable {F}

theorem Pool.Run.of_play {w w' : Pool Q R ι κ π S V α} {schedule : List (π × κ × ((q : Q) → R q))}
    (h : w.play F schedule = some w') : Run F w w' := by
  induction schedule generalizing w with
  | nil =>
    cases h
    exact .refl
  | cons turn rest ih =>
    obtain ⟨i, c, answer⟩ := turn
    simp only [play] at h
    split at h
    · cases h
    next q next hproc =>
      split at h
      next htakes => exact .head (.turn (answer q) hproc htakes) (ih h)
      · cases h

end Play

end Moves

variable {F W}

theorem Permitted.nil {g : γ} : Permitted W g [] := fun l e l' h => by simp at h

theorem Permitted.snoc {g : γ} {log : List (Event Q R V)} {e : Event Q R V} (h : Permitted W g log)
    (he : W.Allows (W.noted g log) e.view e.question) : Permitted W g (log ++ [e]) := by
  intro l e' l' hl
  rcases List.eq_nil_or_concat l' with rfl | ⟨l', e'', rfl⟩
  · obtain ⟨rfl, he'⟩ := List.append_inj' hl rfl
    cases he'
    exact he
  · refine h l e' l' ?_
    rw [List.concat_eq_append, ← List.cons_append, ← List.append_assoc] at hl
    exact (List.append_inj' hl rfl).1

namespace Pool.Apart
variable {w w' w₀ : Pool Q R ι κ π S V α} {g : π → γ} {i : π} {c : κ} {t : Turn Q R} {rest : Dialogue Q R α}

theorem view_takes (h : w.Apart F W g) (htakes : w.Takes i (F.kind t.question) c) :
    (w.sight F W (g i) i).view (F.kind t.question) = F.view (w.resource c) := by
  rcases htakes with hheld | ⟨hnone, hfree⟩
  · simp [sight, hheld]
  · simp [sight, hnone, h.idle hfree]

/-- What is held elsewhere is not the resource of the turn. -/
theorem ne_of_held (h : w.Apart F W g) (htakes : w.Takes i (F.kind t.question) c) {j : π} {k : ι} {c' : κ}
    (hheld : w.held j k = some c') (hne : j = i → k ≠ F.kind t.question) : c' ≠ c := by
  rintro rfl
  rcases htakes with hi | ⟨-, hfree⟩
  · obtain ⟨hj, hk⟩ := h.exclusive hheld hi
    exact hne hj hk
  · exact hfree j k hheld

variable [DecidableEq κ] [DecidableEq π]

theorem sight_other (h : w.Apart F W g) (htakes : w.Takes i (F.kind t.question) c) {j : π} (hj : j ≠ i) :
    (w.after F i c t rest).sight F W (g j) j = w.sight F W (g j) j := by
  refine Sight.ext (by simp [sight, after, Function.update_of_ne hj]) (funext fun k => ?_)
  simp only [sight, after, Function.update_of_ne hj]
  cases hk : w.held j k with
  | none => rfl
  | some c' => simp [Function.update_of_ne (h.ne_of_held htakes hk fun he => absurd he hj)]

theorem sight_self (h : w.Apart F W g) (htakes : w.Takes i (F.kind t.question) c) :
    (w.after F i c t rest).sight F W (g i) i = (w.sight F W (g i) i).next F W t := by
  have hview := h.view_takes htakes
  refine Sight.ext (by simp [sight, after, Sight.next, Watch.noted]) (funext fun k => ?_)
  simp only [Sight.next, hview]
  by_cases hk : k = F.kind t.question
  · subst hk
    simp only [sight, after, Function.update_self]
    cases hends : F.ends t.question with
    | true => simp [F.seen_ends _ _ hends]
    | false => simp [F.view_after]
  · simp only [sight, after, Function.update_self, Function.update_of_ne hk]
    cases hc : w.held i k with
    | none => rfl
    | some c' => simp [Function.update_of_ne (h.ne_of_held htakes hc fun _ => hk)]

theorem held_other {j : π} {k : ι} (hne : j = i → k ≠ F.kind t.question) : (w.after F i c t rest).held j k = w.held j k := by
  by_cases hj : j = i
  · subst hj
    simp [after, Function.update_of_ne (hne rfl)]
  · simp [after, Function.update_of_ne hj]

theorem held_after {j : π} {k : ι} {c' : κ} (hheld : (w.after F i c t rest).held j k = some c') :
    (j = i ∧ k = F.kind t.question ∧ c' = c) ∨ (w.held j k = some c' ∧ (j = i → k ≠ F.kind t.question)) := by
  by_cases hj : j = i
  · subst hj
    by_cases hk : k = F.kind t.question
    · subst hk
      simp only [after, Function.update_self, Option.ite_none_left_eq_some, Option.some.injEq] at hheld
      exact .inl ⟨rfl, rfl, hheld.2.symm⟩
    · exact .inr ⟨(held_other fun _ => hk).symm.trans hheld, fun _ => hk⟩
  · have hne : j = i → k ≠ F.kind t.question := fun he => absurd he hj
    exact .inr ⟨(held_other hne).symm.trans hheld, hne⟩

/-- The resource of the turn is given back fresh. -/
theorem idle_after (h : w.Apart F W g) (htakes : w.Takes i (F.kind t.question) c) {c' : κ}
    (hidle : ∀ j k, (w.after F i c t rest).held j k ≠ some c') : F.view ((w.after F i c t rest).resource c') = F.fresh := by
  by_cases hc : c' = c
  · subst hc
    have hends : F.ends t.question = true := by
      have hself := hidle i (F.kind t.question)
      simpa [after] using hself
    simp [after, F.view_after, F.seen_ends _ _ hends]
  · have hwas : ∀ j k, w.held j k ≠ some c' := by
      intro j k hheld
      by_cases hne : j = i → k ≠ F.kind t.question
      · exact hidle j k ((held_other hne).trans hheld)
      · obtain ⟨rfl, rfl⟩ : j = i ∧ k = F.kind t.question := by simpa using hne
        rcases htakes with hself | ⟨hnone, -⟩
        · exact hc (Option.some.inj (hheld.symm.trans hself))
        · rw [hnone] at hheld
          cases hheld
    simpa [after, Function.update_of_ne hc] using h.idle hwas

theorem step (h : w.Apart F W g) (hs : Step F w w') : w'.Apart F W g := by
  obtain @⟨i, c, q, next, r, hproc, htakes⟩ := hs
  obtain ⟨hallows, hnext⟩ : wp F W (.ask q next) (fun _ _ => True) (w.sight F W (g i) i) := hproc ▸ h.safe i
  generalize ht : (⟨q, r⟩ : Turn Q R) = t
  obtain rfl : q = t.question := by rw [← ht]
  refine ⟨?_, ?_, fun j => ?_, fun j => ?_⟩
  · intro j j' k k' c' hj hj'
    rcases held_after hj with ⟨rfl, rfl, rfl⟩ | ⟨hwas, hne⟩
    · rcases held_after hj' with ⟨rfl, rfl, -⟩ | ⟨hwas', hne'⟩
      · exact ⟨rfl, rfl⟩
      · exact absurd rfl (h.ne_of_held htakes hwas' hne')
    · rcases held_after hj' with ⟨rfl, rfl, rfl⟩ | ⟨hwas', -⟩
      · exact absurd rfl (h.ne_of_held htakes hwas hne)
      · exact h.exclusive hwas hwas'
  · exact h.idle_after htakes
  · by_cases hj : j = i
    · subst hj
      rw [h.sight_self htakes, ← ht]
      simpa [after] using hnext r
    · rw [h.sight_other htakes hj]
      simpa [after, Function.update_of_ne hj] using h.safe j
  · by_cases hj : j = i
    · subst hj
      rw [h.view_takes htakes] at hallows
      simpa [after] using (h.permitted j).snoc (e := { toTurn := t, view := F.view (w.resource c) }) hallows
    · simpa [after, Function.update_of_ne hj] using h.permitted j

theorem of_run (h₀ : w₀.Start F) (hsafe : ∀ i, wp F W (w₀.proc i) (fun _ _ => True) ⟨g i, fun _ => F.fresh⟩)
    (h : Run F w₀ w) : w.Apart F W g := by
  induction h with
  | refl =>
    have hsight : ∀ i, w₀.sight F W (g i) i = ⟨g i, fun _ => F.fresh⟩ := fun i => by
      simp [sight, h₀.held, h₀.log, Watch.noted]
    refine ⟨fun hj => ?_, fun _ => h₀.fresh _, fun i => hsight i ▸ hsafe i, fun i => h₀.log i ▸ .nil⟩
    rw [h₀.held] at hj
    cases hj
  | tail _ hs ih => exact ih.step hs

end Pool.Apart

end Pool
end Dialogue
