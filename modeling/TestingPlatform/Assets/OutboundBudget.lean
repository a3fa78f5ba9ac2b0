import TestingPlatform.Assets.DnsUtils
import TestingPlatform.Lib.Permits
import Mathlib.Data.Nat.Cast.Order.Ring

/-!
# The outbound budget and the bulkhead

What `try_spend` admits is a fixed window (`Ledger`), what a call puts on the wire is covered by its charge
(`Accounted`), and a permit is held exactly within the `try` of a call (`Inside`). `outbound_budget_bounds` is what
follows for every run of a process.
-/

namespace TestingPlatform.Dns

open ReadCommitted FixedWindow
open Assets (ResolverOutcome)

variable {π : Type}

/-! ### What a trace shows -/

namespace Event

def self : Event π → π
  | charged self _ | asked self _ | sent self => self

def charge? : Event π → Option (Charge ℚ)
  | charged _ c => some c
  | _ => none

def isSent : Event π → Bool
  | sent _ => true
  | _ => false

end Event

/-- The charges of all calls. -/
def charges (es : List (Event π)) : List (Charge ℚ) := es.filterMap Event.charge?

def eventsOf [DecidableEq π] (i : π) (es : List (Event π)) : List (Event π) := es.filter fun e => e.self = i

/-- What call `i` has been charged. -/
def chargedTo [DecidableEq π] (i : π) (es : List (Event π)) : List Nat := (charges (eventsOf i es)).map Charge.amount

/-- How many queries call `i` has sent. -/
def sentBy [DecidableEq π] (i : π) (es : List (Event π)) : Nat := (eventsOf i es).countP Event.isSent

section Traces
variable [DecidableEq π] {i j : π} {es es' : List (Event π)}

omit [DecidableEq π] in
@[simp] theorem charges_append : charges (es ++ es') = charges es ++ charges es' := List.filterMap_append

@[simp] theorem chargedTo_append : chargedTo i (es ++ es') = chargedTo i es ++ chargedTo i es' := by
  simp [chargedTo, eventsOf]

@[simp] theorem sentBy_append : sentBy i (es ++ es') = sentBy i es + sentBy i es' := by simp [sentBy, eventsOf]

@[simp] theorem chargedTo_nil : chargedTo i ([] : List (Event π)) = [] := rfl

@[simp] theorem sentBy_nil : sentBy i ([] : List (Event π)) = 0 := rfl

@[simp] theorem chargedTo_charged (c : Charge ℚ) : chargedTo i [.charged i c] = [c.amount] := by
  simp [chargedTo, eventsOf, charges, Event.self, Event.charge?]

@[simp] theorem sentBy_charged (c : Charge ℚ) : sentBy i [.charged j c] = 0 := by
  by_cases h : j = i <;> simp [sentBy, eventsOf, Event.self, Event.isSent, h]

@[simp] theorem chargedTo_asked (sent : Bool) (timeout : Seconds) :
    chargedTo i (if sent then [.asked j timeout, .sent j] else [.asked j timeout]) = [] := by
  by_cases h : j = i <;> cases sent <;> simp [chargedTo, eventsOf, charges, Event.self, Event.charge?, h]

/-- A query is on the wire at most once. -/
theorem sentBy_asked_le (sent : Bool) (timeout : Seconds) :
    sentBy i (if sent then [.asked j timeout, .sent j] else [.asked j timeout]) ≤ 1 := by
  by_cases h : j = i <;> cases sent <;> simp [sentBy, eventsOf, Event.self, Event.isSent, h]

theorem eventsOf_eq_nil (h : ∀ e ∈ es, e.self = j) (hne : i ≠ j) : eventsOf i es = [] := by
  refine List.filter_eq_nil_iff.2 fun e he heq => hne ?_
  rw [← h e he, of_decide_eq_true heq]

end Traces

/-! ### The fixed window -/

def OutboundBudget.window (b : OutboundBudget) : Window ℚ := ⟨b.windowStarted, b.spent⟩

/-- The length of a window. -/
def Settings.window (S : Settings) : ℚ := S.verificationGlobalRateWindowSeconds

theorem Settings.window_pos' (S : Settings) : 0 < S.window := Nat.cast_pos.2 S.window_pos

/-- A charge is admitted whole, to the window that is open at `now`, or not at all. -/
theorem OutboundBudget.trySpend_spec {S : Settings} {b b' : OutboundBudget} {now : ℚ} {queries : Nat} {admitted : Bool}
    (h : b.trySpend S now queries = (admitted, b')) :
    if admitted then (b.window.at S.window now).spent + queries ≤ limit S ∧ b'.window = (b.window.at S.window now).take queries
    else b'.window = b.window.at S.window now := by
  obtain ⟨v, hv⟩ : ∃ v : OutboundBudget, v = if S.window ≤ now - b.windowStarted then ⟨now, 0⟩ else b := ⟨_, rfl⟩
  have hroll : v.window = b.window.at S.window now := by
    rw [hv, Window.at]
    by_cases hover : b.windowStarted + S.window ≤ now
    · rw [if_pos (le_sub_iff_add_le'.2 hover), if_pos (show b.window.start + S.window ≤ now from hover)]
      rfl
    · rw [if_neg (mt le_sub_iff_add_le'.1 hover), if_neg (show ¬ b.window.start + S.window ≤ now from hover)]
  have hspend : b.trySpend S now queries =
      if limit S < v.spent + queries then (false, v) else (true, { v with spent := v.spent + queries }) := by
    rw [hv]
    rfl
  rw [← hroll]
  rw [hspend] at h
  split at h
  · obtain ⟨rfl, rfl⟩ := Prod.mk.inj h
    simp
  · next hroom =>
    obtain ⟨rfl, rfl⟩ := Prod.mk.inj h
    exact ⟨not_lt.1 hroom, rfl⟩

/-- The charges so far are those of a fixed window, none of them over the limit. -/
structure Ledger (S : Settings) (d : Shared) (cs : List (Charge ℚ)) : Prop where
  started : d.budget.windowStarted ≤ d.now
  tracks : Tracks S.window d.budget.window cs
  bounded : ∀ start, total (inWindow start cs) ≤ OutboundBudget.limit S

section Ledger
variable {S : Settings} {d : Shared} {ch : Choice} {cs : List (Charge ℚ)} {p : Proc π} {m : Step π}

theorem Ledger.tick (h : Ledger S d cs) {elapsed : ℚ} (helapsed : 0 ≤ elapsed) : Ledger S (d.tick elapsed) cs where
  started := h.started.trans (le_add_of_nonneg_right helapsed)
  tracks := h.tracks
  bounded := h.bounded

theorem Ledger.step (h : Ledger S d cs) (hm : Leads S d ch p m) :
    Ledger S (m.op.effect (process S π).write d) (cs ++ charges m.emit) := by
  have hsame : ∀ permits next (es : List (Event π)), charges es = [] →
      Ledger S ((goOn { d with permits } next es).op.effect (process S π).write d) (cs ++ charges es) := by
    intro permits next es hnone
    rw [hnone, List.append_nil]
    exact ⟨h.started, h.tracks, h.bounded⟩
  cases hm with
  | refused hspend =>
    have hbudget := OutboundBudget.trySpend_spec hspend
    rw [if_neg Bool.false_ne_true] at hbudget
    have hat := Window.at_start S.window_pos' (v := d.budget.window) h.started
    rw [← hbudget] at hat
    have htracks := h.tracks.at S.window_pos' d.now
    rw [← hbudget] at htracks
    simp only [goOn, charges, List.filterMap_nil, List.append_nil]
    exact ⟨hat.1, htracks, h.bounded⟩
  | @spent self c budget hspend =>
    have hbudget := OutboundBudget.trySpend_spec hspend
    rw [if_pos rfl] at hbudget
    obtain ⟨hroom, hbudget⟩ := hbudget
    have hat := Window.at_start S.window_pos' (v := d.budget.window) h.started
    have htracks := h.tracks.at S.window_pos' d.now
    have hstart : budget.windowStarted = (d.budget.window.at S.window d.now).start := congrArg Window.start hbudget
    constructor
    · exact hstart.trans_le hat.1
    · have hcharged := htracks.charge hat.1 hat.2 (c.configured S).length
      rw [← hbudget, ← hstart] at hcharged
      exact hcharged
    · have hle := htracks.charge_le h.bounded hroom d.now
      rw [← hstart] at hle
      exact hle
  | asks => cases ch.sent <;> exact hsame d.permits _ _ rfl
  | _ => exact hsame _ _ _ rfl

end Ledger

/-! ### The bulkhead -/

/-- Within the `try` of `resolve_txt`. -/
def Proc.InProgress : Proc π → Prop
  | .spending .. | .charged .. | .looping .. | .querying .. | .leaving .. => True
  | .called .. | .admission .. | .returned .. => False

/-- The permits that are out are those of the calls in progress. -/
def Balanced (S : Settings) (w : Calls π) : Prop :=
  ∃ n, Inside Proc.InProgress n w ∧ w.db.permits + n = S.verificationDnsMaxConcurrentQueries

section Balanced
variable [DecidableEq π] {S : Settings} {w : Calls π} {i : π} {ch : Choice} {m : Step π}

theorem Balanced.step (h : Balanced S w) {elapsed : ℚ} (hm : Leads S (w.db.tick elapsed) ch (w.proc i) m) :
    Balanced S ((process S π).after w i m) := by
  obtain ⟨n, hinside, hn⟩ := h
  have hsame : ∀ {d}, m.op = .commit [d] → d.permits = w.db.permits → (m.next.InProgress ↔ (w.proc i).InProgress) →
      Balanced S ((process S π).after w i m) := by
    intro d hop hpermits hprog
    refine ⟨n, hinside.stay hprog, ?_⟩
    rw [System.db_after, hop]
    exact (congrArg (· + n) hpermits).trans hn
  generalize hp : w.proc i = p at hm hsame
  cases hm with
  | acquired hfree =>
    refine ⟨n + 1, hinside.enter (by rw [hp]; exact id) trivial, ?_⟩
    have hfree : 0 < w.db.permits := hfree
    show w.db.permits - 1 + (n + 1) = _
    omega
  | released hheld =>
    have hprog : (w.proc i).InProgress := by
      rw [hp]
      trivial
    refine ⟨n - 1, hinside.leave hprog id, ?_⟩
    have hpos := hinside.pos hprog
    show w.db.permits + 1 + (n - 1) = _
    omega
  | overflowed hfull =>
    have hprog : (w.proc i).InProgress := by
      rw [hp]
      trivial
    have hpos := hinside.pos hprog
    have hfull : S.verificationDnsMaxConcurrentQueries ≤ w.db.permits := hfull
    omega
  | _ => exact hsame rfl rfl Iff.rfl

omit [DecidableEq π] in
/-- There is always room for a permit that is given back. -/
theorem Balanced.room (h : Balanced S w) (hprog : (w.proc i).InProgress) :
    w.db.permits < S.verificationDnsMaxConcurrentQueries := by
  obtain ⟨n, hinside, hn⟩ := h
  have hpos := hinside.pos hprog
  omega

end Balanced

/-! ### What a call has been charged and has sent -/

/-- A call that ends before its charge. -/
def Refused (result : Except DnsError (List ResolverOutcome)) : Prop :=
  result = .error notConfigured ∨ result = .error capacityExhausted ∨ result = .error budgetExhausted

/-- How the charge of call `i` stands, which was called with `c`, and what it has sent. -/
def Accounted (S : Settings) (i : π) (c : Call) (amounts : List Nat) (sent : Nat) : Proc π → Prop
  | .called j c' | .admission j c' | .spending j c' => j = i ∧ c' = c ∧ amounts = [] ∧ sent = 0
  | .charged j c' => j = i ∧ c' = c ∧ amounts = [(c.configured S).length] ∧ sent = 0
  | .looping j c' _ outcomes rest => j = i ∧ c' = c ∧ amounts = [(c.configured S).length] ∧
      sent ≤ outcomes.length ∧ outcomes.length + rest.length = (c.configured S).length
  | .querying j c' _ outcomes _ rest _ _ => j = i ∧ c' = c ∧ amounts = [(c.configured S).length] ∧
      sent ≤ outcomes.length + 1 ∧ outcomes.length + 1 + rest.length = (c.configured S).length
  | .leaving j result | .returned j result => j = i ∧
      ((amounts = [] ∧ sent = 0 ∧ Refused result) ∨
        (amounts = [(c.configured S).length] ∧ sent ≤ (c.configured S).length))

section Accounted
variable [DecidableEq π] {S : Settings} {d : Shared} {ch : Choice} {i : π} {c : Call} {es : List (Event π)} {p : Proc π} {m : Step π}

omit [DecidableEq π] in
theorem Accounted.self {amounts : List Nat} {sent : Nat} (h : Accounted S i c amounts sent p) (hm : Leads S d ch p m) :
    ∀ e ∈ m.emit, e.self = i := by
  cases hm with
  | spent =>
    obtain ⟨rfl, -⟩ := h
    simp [goOn, Event.self]
  | asks =>
    obtain ⟨rfl, -⟩ := h
    cases ch.sent <;> simp [goOn, Event.self]
  | _ => simp [goOn]

theorem Accounted.step (h : Accounted S i c (chargedTo i es) (sentBy i es) p) (hm : Leads S d ch p m)
    (hroom : p.InProgress → d.permits < S.verificationDnsMaxConcurrentQueries) :
    Accounted S i c (chargedTo i (es ++ m.emit)) (sentBy i (es ++ m.emit)) m.next := by
  rw [chargedTo_append, sentBy_append]
  cases hm with
  | unconfigured hnone =>
    obtain ⟨rfl, rfl, hcharged, hsent⟩ := h
    exact ⟨rfl, .inl ⟨by simp [goOn, hcharged], hsent, .inl rfl⟩⟩
  | full =>
    obtain ⟨rfl, rfl, hcharged, hsent⟩ := h
    exact ⟨rfl, .inl ⟨by simp [goOn, hcharged], hsent, .inr (.inl rfl)⟩⟩
  | refused hspend =>
    obtain ⟨rfl, rfl, hcharged, hsent⟩ := h
    exact ⟨rfl, .inl ⟨by simp [goOn, hcharged], hsent, .inr (.inr rfl)⟩⟩
  | configured | acquired | started =>
    obtain ⟨rfl, rfl, hcharged, hsent⟩ := h
    simp [goOn, Accounted, hcharged, hsent]
  | spent hspend =>
    obtain ⟨rfl, rfl, hcharged, hsent⟩ := h
    simp [goOn, Accounted, hcharged, hsent]
  | finished =>
    obtain ⟨rfl, rfl, hcharged, hsent, hlength⟩ := h
    refine ⟨rfl, .inr ⟨by simp [goOn, hcharged], ?_⟩⟩
    simp only [List.length_nil, Nat.add_zero] at hlength
    exact hsent.trans hlength.le
  | skipped hover =>
    obtain ⟨rfl, rfl, hcharged, hsent, hlength⟩ := h
    simp only [List.length_cons] at hlength
    simp [goOn, Accounted, hcharged]
    omega
  | @asks self _ _ _ _ _ timeout =>
    obtain ⟨rfl, rfl, hcharged, hsent, hlength⟩ := h
    have hquery := sentBy_asked_le (i := self) (j := self) ch.sent timeout
    simp only [List.length_cons] at hlength
    refine ⟨rfl, rfl, by simp [goOn, hcharged], ?_, ?_⟩
    · simp only [goOn]
      omega
    · omega
  | unbuilt | escaped =>
    obtain ⟨rfl, rfl, hcharged, hsent, hlength⟩ := h
    refine ⟨rfl, .inr ⟨by simp [goOn, hcharged], ?_⟩⟩
    simp only [goOn, sentBy_nil]
    omega
  | answered =>
    obtain ⟨rfl, rfl, hcharged, hsent, hlength⟩ := h
    simp [goOn, Accounted, hcharged, hsent]
    omega
  | overflowed hfull => exact absurd (hroom trivial) (not_lt.2 hfull)
  | released =>
    obtain ⟨rfl, haccount⟩ := h
    refine ⟨rfl, ?_⟩
    simpa [goOn] using haccount

end Accounted

/-! ### Every run -/

structure Kept [DecidableEq π] (S : Settings) (calls : π → Call) (w : Calls π) : Prop where
  ledger : Ledger S w.db (charges w.trace)
  balanced : Balanced S w
  accounted : ∀ i, Accounted S i (calls i) (chargedTo i w.trace) (sentBy i w.trace) (w.proc i)

section Kept
variable [DecidableEq π] {S : Settings} {calls : π → Call} {w : Calls π}

theorem Kept.start (t : ℚ) : Kept S calls (.start S t calls) where
  ledger := ⟨le_rfl, .nil S.window t, fun _ => Nat.zero_le _⟩
  balanced := ⟨0, .none fun _ => id, Nat.add_zero _⟩
  accounted _ := ⟨rfl, rfl, rfl, rfl⟩

theorem Kept.step (h : Kept S calls w) {i : π} {ch : Choice} {m : Step π} (hm : (process S π).Fires w i ch m) :
    Kept S calls ((process S π).after w i m) := by
  obtain ⟨helapsed, hleads⟩ := fires_leads hm
  constructor
  · rw [System.trace_after, charges_append, System.db_after, hleads.effect_eq w.db (w.db.tick ch.elapsed)]
    exact (h.ledger.tick helapsed).step hleads
  · exact h.balanced.step hleads
  · intro j
    rw [System.trace_after]
    by_cases hj : j = i
    · subst hj
      rw [System.proc_after_self]
      exact (h.accounted j).step hleads h.balanced.room
    · have hnone := eventsOf_eq_nil ((h.accounted i).self hleads) hj
      rw [System.proc_after_of_ne hj, chargedTo_append, sentBy_append, chargedTo, chargedTo, sentBy, sentBy, hnone]
      simpa [charges, chargedTo, sentBy] using h.accounted j

theorem Kept.of_run {t : ℚ} {C : Calls π → π × Choice → Prop} (hrun : (process S π).Run C (Calls.start S t calls) w) :
    Kept S calls w :=
  hrun.invariant (.start t) fun _ _ _ _ h _ hm => h.step hm

/-- What holds of the calls of a process at any time. -/
structure Bounded (S : Settings) (calls : π → Call) (w : Calls π) : Prop where
  /-- A call is charged for all of its resolvers, or for none and then sends nothing. -/
  whole : ∀ i, (chargedTo i w.trace = [] ∧ sentBy i w.trace = 0) ∨ chargedTo i w.trace = [((calls i).configured S).length]
  sends : ∀ i, sentBy i w.trace ≤ (chargedTo i w.trace).sum
  /-- Only a refused call returns without a charge. -/
  refused : ∀ i result, w.proc i = .returned i result → chargedTo i w.trace = [] → Refused result
  /-- The windows do not overlap, and none is charged more than the limit. -/
  windowed : Windowed S.window (charges w.trace)
  window : ∀ start, total (inWindow start (charges w.trace)) ≤ OutboundBudget.limit S
  interval : ∀ a b, b - a < S.window → total (within a b (charges w.trace)) ≤ 2 * OutboundBudget.limit S
  permits : ∃ s : Finset π, (∀ i, i ∈ s ↔ (w.proc i).InProgress) ∧
    w.db.permits + s.card = S.verificationDnsMaxConcurrentQueries

omit [DecidableEq π] in
theorem Accounted.whole {i : π} {c : Call} {amounts : List Nat} {sent : Nat} {p : Proc π} (h : Accounted S i c amounts sent p) :
    ((amounts = [] ∧ sent = 0) ∨ amounts = [(c.configured S).length]) ∧ sent ≤ amounts.sum := by
  cases p with
  | called | admission | spending | charged =>
    obtain ⟨-, -, rfl, rfl⟩ := h
    simp
  | looping | querying =>
    obtain ⟨-, -, rfl, hsent, hlength⟩ := h
    exact ⟨.inr rfl, by rw [List.sum_singleton]; omega⟩
  | leaving | returned =>
    obtain ⟨-, ⟨rfl, rfl, -⟩ | ⟨rfl, hsent⟩⟩ := h
    · simp
    · exact ⟨.inr rfl, by simpa using hsent⟩

theorem Kept.bounded (h : Kept S calls w) : Bounded S calls w := by
  constructor
  · exact fun i => (h.accounted i).whole.1
  · exact fun i => (h.accounted i).whole.2
  · intro i result hp hnone
    have haccount := h.accounted i
    rw [hp, hnone] at haccount
    obtain ⟨-, ⟨-, -, hrefused⟩ | ⟨hcharged, -⟩⟩ := haccount
    · exact hrefused
    · cases hcharged
  · exact h.ledger.tracks.windowed
  · exact h.ledger.bounded
  · intro a b hab
    exact h.ledger.tracks.windowed.within_le h.ledger.bounded (sub_lt_iff_lt_add'.1 hab)
  · obtain ⟨n, ⟨s, hs, rfl⟩, hn⟩ := h.balanced
    exact ⟨s, hs, hn⟩

end Kept

/-- The budget and the bulkhead hold in every run, however its calls overlap and end. -/
theorem outbound_budget_bounds [DecidableEq π] (S : Settings) (calls : π → Call) (t : ℚ) {w : Calls π}
    (hrun : (process S π).Run (fun _ _ => True) (Calls.start S t calls) w) : Bounded S calls w :=
  (Kept.of_run hrun).bounded

def resolverAt (address : String) : DnsResolverConfig := ⟨address, .dot, 853, some address, none, by decide⟩

/-- Two resolvers, and one check a minute. -/
def oneCheck : Settings := { Settings.defaults with
  verificationResolvers := [resolverAt "a", resolverAt "b"]
  resolvers_length := by decide
  verificationGlobalRateLimit := 1
  limit_pos := Nat.one_pos }

/-- Both calls get a permit; the first is charged and asks, the second is refused while it waits. -/
def overlapping : List (Bool × Choice) :=
  [(true, { elapsed := 1 }), (true, { elapsed := 0 }), (false, { elapsed := 1 }), (false, { elapsed := 0 }),
    (true, { elapsed := 0 }), (true, { elapsed := 0 }), (true, { elapsed := 0 }), (false, { elapsed := 1 }),
    (true, { elapsed := 2, ending := .nxdomain }), (false, { elapsed := 0 })]

theorem outbound_budget_bounds_overlapping : ∃ w : Calls Bool,
    (chargedTo true w.trace = [2] ∧ sentBy true w.trace = 1 ∧ chargedTo false w.trace = [] ∧ w.db.permits = 3) ∧
      Bounded oneCheck (fun _ => { name := "x.lu" }) w := by
  have hexec : ((process oneCheck Bool).exec (fun _ _ => True) (Calls.start oneCheck 0 fun _ => { name := "x.lu" }) overlapping).any
      (fun w => decide (chargedTo true w.trace = [2] ∧ sentBy true w.trace = 1 ∧ chargedTo false w.trace = [] ∧
        w.db.permits = 3)) = true := by decide +kernel
  obtain ⟨w, hrun, hw⟩ := System.Run.of_exec_any hexec
  exact ⟨w, of_decide_eq_true hw, outbound_budget_bounds oneCheck _ 0 hrun⟩

end TestingPlatform.Dns
