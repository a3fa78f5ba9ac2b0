import TestingPlatform.Assets.OutboundBudget
import Mathlib.Tactic.Linarith

/-!
# A quorum within the deadline

The loop of `resolve_txt` under settings that `_verification_dns_settings_are_coherent` accepts. While no resolver has been
left out, the time that has passed is at most the timeouts given (`Progress.time`). The deadline covers those of a quorum
up to the rounding of the product, and that is less than one query; so many resolvers have been asked when it runs out.
-/

namespace TestingPlatform.Dns

open ReadCommitted
open Assets (DnsOutcome ResolverOutcome)
open Binary (double)

variable {π : Type}

/-! ### The settings -/

section Settings
variable {S : Settings} {text : Seconds → String}

theorem round_of_nearest {t : ℚ} (h : nearest t = t) : double.round t = t := by
  unfold nearest at h
  split at h
  · cases h
  · exact WithTop.coe_inj.1 h

theorem round_le_of_nearest {x total : ℚ} (h : nearest x ≤ total) : double.round x ≤ total := by
  unfold nearest at h
  split at h
  · cases WithTop.top_le_iff.1 h
  · exact WithTop.coe_le_coe.1 h

theorem Settings.coherent (h : S.verificationDnsSettingsAreCoherent text = .ok ()) (hsome : S.verificationResolvers ≠ []) :
    S.verificationResolverQuorum ≤ S.verificationResolvers.length ∧
      S.verificationQueryTimeoutSeconds ≤ S.verificationDnsTotalDeadlineSeconds ∧
        S.needed ≤ S.verificationDnsTotalDeadlineSeconds := by
  unfold verificationDnsSettingsAreCoherent at h
  dsimp only at h
  split at h
  · cases h
  next hquorum =>
    split at h
    · cases h
    · split at h
      · cases h
      next hquery =>
        split at h
        · cases h
        · split at h
          · cases h
          next hneeded =>
            refine ⟨not_lt.1 fun hlt => hquorum ⟨hsome, hlt⟩, not_lt.1 hquery, not_lt.1 fun hlt => hneeded ⟨hsome, hlt⟩⟩

/-- All queries of a quorum but the last are over before the deadline: rounding the product takes less than one away. -/
theorem Settings.sub_one_mul_lt (h : S.verificationDnsSettingsAreCoherent text = .ok ()) (hsome : S.verificationResolvers ≠ [])
    {t total : ℚ} (ht : S.verificationQueryTimeoutSeconds = t) (htotal : S.verificationDnsTotalDeadlineSeconds = total) :
    (S.verificationResolverQuorum - 1) * t < total := by
  obtain ⟨hquorum, -, hneeded⟩ := Settings.coherent h hsome
  have hsmall : S.verificationResolverQuorum < 2 ^ double.precision := hquorum.trans_lt S.resolvers_length
  have htpos : 0 < t := by
    have hpos := S.timeout_pos
    rw [ht] at hpos
    exact_mod_cast hpos
  have hmin : 2 ^ double.emin ≤ t := double.two_zpow_emin_le (round_of_nearest (S.timeout_float t ht)) htpos
  have hexact : S.needed = nearest (S.verificationResolverQuorum * t) := by
    rw [needed, ht]
    show nearest (double.round S.verificationResolverQuorum * t) = _
    rw [double.round_natCast hsmall (by decide)]
  rw [hexact, htotal] at hneeded
  exact (double.sub_lt_round_mul S.quorum_pos hsmall hmin).trans_le (round_le_of_nearest hneeded)

/-- The deadline runs out only after a quorum of queries. -/
theorem Settings.quorum_le (h : S.verificationDnsSettingsAreCoherent text = .ok ()) (hsome : S.verificationResolvers ≠ [])
    {elapsed total : ℚ} {n : Nat} (htotal : S.verificationDnsTotalDeadlineSeconds = total) (hover : total ≤ elapsed)
    (helapsed : ∀ t : ℚ, S.verificationQueryTimeoutSeconds = t → elapsed ≤ n * t) : S.verificationResolverQuorum ≤ n := by
  have hquery := (Settings.coherent h hsome).2.1
  rw [htotal] at hquery
  obtain ⟨t, ht, -⟩ := WithTop.le_coe_iff.1 hquery
  have htpos : 0 < t := by
    have hpos := S.timeout_pos
    rw [ht] at hpos
    exact_mod_cast hpos
  have hlt : (S.verificationResolverQuorum - 1 : ℚ) * t < n * t :=
    (Settings.sub_one_mul_lt h hsome ht htotal).trans_le (hover.trans (helapsed t ht))
  have hcount : (S.verificationResolverQuorum : ℚ) < n + 1 := sub_lt_iff_lt_add.1 (lt_of_mul_lt_mul_right hlt htpos.le)
  exact Nat.lt_succ_iff.1 (by exact_mod_cast hcount)

end Settings

/-! ### The loop -/

/-- How many resolvers call `i` has asked. -/
def askedBy [DecidableEq π] (i : π) (es : List (Event π)) : Nat :=
  (eventsOf i es).countP fun
    | .asked .. => true
    | _ => false

/-- The query that a call waits for: its timeout, and when it was asked. -/
def Proc.query? : Proc π → Option (Seconds × ℚ)
  | .querying _ _ _ _ _ _ timeout asked => some (timeout, asked)
  | _ => none

def Proc.isLooping : Proc π → Bool
  | .looping .. => true
  | _ => false

/-- Time passes for call `i` only inside its queries, and a query takes at most the timeout it was given. -/
def Timely (i : π) (w : Calls π) (a : π × Choice) : Prop :=
  ((w.proc i).isLooping = true → a.2.elapsed = 0) ∧
    (a.1 = i → ∀ q ∈ (w.proc i).query?, ((w.db.now + a.2.elapsed - q.2 : ℚ) : Seconds) ≤ q.1)

instance [DecidableEq π] (i : π) (w : Calls π) (a : π × Choice) : Decidable (Timely i w a) :=
  inferInstanceAs (Decidable (_ ∧ _))

/-- The answers so far: those of the resolvers asked, then those left out. -/
structure Progress (S : Settings) (elapsed : ℚ) (outcomes : List ResolverOutcome) (rest : List DnsResolverConfig)
    (attempted skipped : List ResolverOutcome) : Prop where
  split : outcomes = attempted ++ skipped
  ids : outcomes.map ResolverOutcome.resolverId ++ rest.map DnsResolverConfig.resolverId =
    S.verificationResolvers.map DnsResolverConfig.resolverId
  asked : ∀ o ∈ attempted, o.outcome ≠ .notAttempted
  left_out : ∀ o ∈ skipped, o.outcome = .notAttempted
  time : ∀ t : ℚ, S.verificationQueryTimeoutSeconds = t → elapsed ≤ attempted.length * t
  spent : skipped ≠ [] → (S.verificationDnsTotalDeadlineSeconds.map fun total => total - elapsed) ≤ 0
  quorum : skipped ≠ [] → S.verificationResolverQuorum ≤ attempted.length

section Progress
variable {S : Settings} {elapsed : ℚ} {outcomes attempted skipped : List ResolverOutcome} {r : DnsResolverConfig}
  {rest : List DnsResolverConfig}

theorem Progress.start (S : Settings) : Progress S 0 [] S.verificationResolvers [] [] := by
  constructor <;> simp

theorem Progress.skip {text : Seconds → String} (h : Progress S elapsed outcomes (r :: rest) attempted skipped)
    (hcoherent : S.verificationDnsSettingsAreCoherent text = .ok ()) (hsome : S.verificationResolvers ≠ [])
    (hover : (S.verificationDnsTotalDeadlineSeconds.map fun total => total - elapsed) ≤ 0) :
    Progress S elapsed (outcomes ++ [notAttempted r]) rest attempted (skipped ++ [notAttempted r]) := by
  constructor
  · rw [h.split, List.append_assoc]
  · simpa [notAttempted] using h.ids
  · exact h.asked
  · intro o ho
    rcases List.mem_append.1 ho with ho | ho
    · exact h.left_out o ho
    · rw [List.mem_singleton.1 ho]
      rfl
  · exact h.time
  · exact fun _ => hover
  · intro _
    obtain ⟨total, htotal, hle⟩ : ∃ total : ℚ, S.verificationDnsTotalDeadlineSeconds = total ∧ total ≤ elapsed := by
      cases htotal : S.verificationDnsTotalDeadlineSeconds using WithTop.recTopCoe with
      | top =>
        rw [htotal, WithTop.map_top] at hover
        exact absurd hover (by decide)
      | coe total =>
        rw [htotal, WithTop.map_coe] at hover
        have hle : total - elapsed ≤ 0 := by exact_mod_cast hover
        exact ⟨total, rfl, sub_nonpos.1 hle⟩
    exact Settings.quorum_le hcoherent hsome htotal hle h.time

/-- While time is left none has been left out, and a query adds at most the timeout of the settings. -/
theorem Progress.answer (h : Progress S elapsed outcomes (r :: rest) attempted skipped)
    (hleft : 0 < (S.verificationDnsTotalDeadlineSeconds.map fun total => total - elapsed)) {timeout : Seconds}
    (htimeout : timeout ≤ S.verificationQueryTimeoutSeconds) {elapsed' : ℚ} (hquery : ((elapsed' - elapsed : ℚ) : Seconds) ≤ timeout)
    {o : ResolverOutcome} (hid : o.resolverId = r.resolverId) (hattempted : o.outcome ≠ .notAttempted) :
    Progress S elapsed' (outcomes ++ [o]) rest (attempted ++ [o]) [] := by
  have hnone : skipped = [] := by
    by_contra hne
    exact absurd (h.spent hne) (not_le.2 hleft)
  subst hnone
  constructor
  · rw [h.split, List.append_nil, List.append_nil]
  · simpa [hid] using h.ids
  · intro o' ho
    rcases List.mem_append.1 ho with ho | ho
    · exact h.asked o' ho
    · rwa [List.mem_singleton.1 ho]
  · simp
  · intro t ht
    have hle := h.time t ht
    rw [ht] at htimeout
    have hstep : elapsed' - elapsed ≤ t := by exact_mod_cast hquery.trans htimeout
    rw [List.length_append, List.length_singleton]
    push_cast
    linarith
  · simp
  · simp

end Progress

/-! ### One call -/

/-- A call that takes everything from the settings. -/
structure Call.Plain (c : Call) : Prop where
  resolvers : c.resolvers = none
  timeout : c.timeout = none
  deadline : c.deadline = none

/-- How far a call is that has asked `asks` resolvers. -/
def Attempts (S : Settings) (now : ℚ) (asks : Nat) : Proc π → Prop
  | .called _ c | .admission _ c | .spending _ c | .charged _ c => c.Plain ∧ asks = 0
  | .looping _ c started outcomes rest => c.Plain ∧ ∃ attempted skipped,
      Progress S (now - started) outcomes rest attempted skipped ∧ asks = attempted.length
  | .querying _ c started outcomes r rest timeout asked => c.Plain ∧ timeout ≤ S.verificationQueryTimeoutSeconds ∧
      0 < c.remaining S started asked ∧ ∃ attempted skipped,
        Progress S (asked - started) outcomes (r :: rest) attempted skipped ∧ asks = attempted.length + 1
  | .leaving _ result | .returned _ result => ∀ outcomes, result = .ok outcomes → ∃ elapsed attempted skipped,
      Progress S elapsed outcomes [] attempted skipped ∧ asks = attempted.length

section Attempts
variable {S : Settings} {c : Call} {d : Shared} {ch : Choice} {p : Proc π} {m : Step π}

theorem Call.Plain.configured_eq (h : c.Plain) : c.configured S = S.verificationResolvers := by
  rw [Call.configured, h.resolvers, Option.getD_none]

theorem Call.Plain.perQuery_eq (h : c.Plain) : c.perQuery S = S.verificationQueryTimeoutSeconds := by
  rw [Call.perQuery, h.timeout, Option.getD_none]

theorem Call.Plain.remaining_eq (h : c.Plain) (started now : ℚ) : c.remaining S started now =
    S.verificationDnsTotalDeadlineSeconds.map fun total => total - (now - started) := by
  rw [Call.remaining, Call.total, h.deadline, Option.getD_none]

def Proc.self : Proc π → π
  | called self _ | admission self _ | spending self _ | charged self _ | looping self .. | querying self .. | leaving self _
  | returned self _ => self

theorem Accounted.self_eq {i : π} {amounts : List Nat} {sent : Nat} (h : Accounted S i c amounts sent p) : p.self = i := by
  cases p <;> exact h.1

variable [DecidableEq π] {i : π} {es es' : List (Event π)}

@[simp] theorem askedBy_append : askedBy i (es ++ es') = askedBy i es + askedBy i es' := by simp [askedBy, eventsOf]

@[simp] theorem askedBy_charged (c : FixedWindow.Charge ℚ) : askedBy i [.charged i c] = 0 := by
  simp [askedBy, eventsOf, Event.self]

@[simp] theorem askedBy_asked (sent : Bool) (timeout : Seconds) :
    askedBy i (if sent then [.asked i timeout, .sent i] else [.asked i timeout]) = 1 := by
  cases sent <;> simp [askedBy, eventsOf, Event.self]

theorem Attempts.step {text : Seconds → String} {now : ℚ} {asks : Nat} (h : Attempts S now asks p) (hself : p.self = i)
    (hcoherent : S.verificationDnsSettingsAreCoherent text = .ok ()) (hsome : S.verificationResolvers ≠ [])
    (hm : Leads S d ch p m) (hbetween : p.isLooping = true → d.now = now)
    (hquery : ∀ q ∈ p.query?, ((d.now - q.2 : ℚ) : Seconds) ≤ q.1) :
    Attempts S d.now (asks + askedBy i m.emit) m.next := by
  cases hm with
  | configured | acquired => exact h
  | unconfigured | full | refused | unbuilt | escaped | overflowed => simp [goOn, Attempts]
  | spent =>
    obtain rfl := hself
    obtain ⟨hplain, rfl⟩ := h
    exact ⟨hplain, (Nat.zero_add _).trans (askedBy_charged _)⟩
  | started =>
    obtain ⟨hplain, rfl⟩ := h
    refine ⟨hplain, [], [], ?_, rfl⟩
    rw [sub_self, hplain.configured_eq]
    exact .start S
  | finished =>
    obtain ⟨-, attempted, skipped, hprogress, rfl⟩ := h
    intro outcomes hok
    obtain rfl := Except.ok.inj hok
    exact ⟨_, attempted, skipped, hprogress, rfl⟩
  | skipped hover =>
    obtain ⟨hplain, attempted, skipped, hprogress, rfl⟩ := h
    rw [← hbetween rfl] at hprogress
    rw [hplain.remaining_eq] at hover
    exact ⟨hplain, attempted, _, hprogress.skip hcoherent hsome hover, rfl⟩
  | asks hleft htimeout =>
    obtain rfl := hself
    obtain ⟨hplain, attempted, skipped, hprogress, rfl⟩ := h
    rw [← hbetween rfl] at hprogress
    refine ⟨hplain, ?_, hleft, attempted, skipped, hprogress, congrArg _ (askedBy_asked ch.sent _)⟩
    rw [htimeout, hplain.perQuery_eq]
    exact min_le_left _ _
  | answered ho =>
    obtain ⟨hid, hattempted⟩ := queryOne_spec ho
    obtain ⟨hplain, htimeout, hleft, attempted, skipped, hprogress, rfl⟩ := h
    rw [hplain.remaining_eq] at hleft
    refine ⟨hplain, attempted ++ [_], [], hprogress.answer hleft htimeout ?_ hid hattempted, ?_⟩
    · have hle := hquery _ rfl
      rwa [sub_sub_sub_cancel_right]
    · rw [List.length_append]
      rfl
  | released => exact h

omit [DecidableEq π] in
theorem Attempts.wait {now now' : ℚ} {asks : Nat} (h : Attempts S now asks p) (hbetween : p.isLooping = true → now' = now) :
    Attempts S now' asks p := by
  cases p with
  | looping => rwa [hbetween rfl]
  | _ => exact h

omit [DecidableEq π] in
theorem Attempts.timeout {now : ℚ} {asks : Nat} (h : Attempts S now asks p) (hm : Leads S d ch p m) {timeout : Seconds}
    (hasked : .asked i timeout ∈ m.emit) : 0 < timeout ∧ timeout ≤ S.verificationQueryTimeoutSeconds := by
  cases hm with
  | @asks _ _ _ _ _ _ timeout' hleft htimeout =>
    obtain ⟨hplain, -⟩ := h
    have hsame : timeout = timeout' := by
      simp only [goOn] at hasked
      cases hsent : ch.sent <;> simp [hsent] at hasked <;> exact hasked.2
    rw [hsame, htimeout, hplain.perQuery_eq]
    exact ⟨lt_min S.timeout_pos hleft, min_le_left _ _⟩
  | _ => simp [goOn] at hasked

end Attempts

/-! ### Every run -/

section Runs
variable [DecidableEq π] {S : Settings} {calls : π → Call} {w : Calls π} {i : π}

/-- What the settings promise of call `i`. -/
structure Asked (S : Settings) (i : π) (w : Calls π) : Prop where
  attempts : Attempts S w.db.now (askedBy i w.trace) (w.proc i)
  timeouts : ∀ timeout, .asked i timeout ∈ w.trace → 0 < timeout ∧ timeout ≤ S.verificationQueryTimeoutSeconds

theorem Asked.step {text : Seconds → String} (h : Asked S i w) (hkept : Kept S calls w)
    (hcoherent : S.verificationDnsSettingsAreCoherent text = .ok ()) (hsome : S.verificationResolvers ≠ []) {j : π} {ch : Choice}
    {m : Step π} (htimely : Timely i w (j, ch)) (hm : (process S π).Fires w j ch m) : Asked S i ((process S π).after w j m) := by
  obtain ⟨helapsed, hleads⟩ := fires_leads hm
  obtain ⟨hbetween, hquery⟩ := htimely
  have hnow : ((process S π).after w j m).db.now = w.db.now + ch.elapsed := hleads.now_eq w.db
  by_cases hj : j = i
  · subst hj
    constructor
    · rw [hnow, System.proc_after_self, System.trace_after, askedBy_append]
      refine h.attempts.step (hkept.accounted j).self_eq hcoherent hsome hleads (fun hloop => ?_) (hquery rfl)
      rw [Shared.tick, hbetween hloop, add_zero]
    · intro timeout hasked
      rw [System.trace_after] at hasked
      rcases List.mem_append.1 hasked with hasked | hasked
      · exact h.timeouts timeout hasked
      · exact h.attempts.timeout hleads hasked
  · have hself := (hkept.accounted j).self hleads
    have hnone : askedBy i m.emit = 0 := by rw [askedBy, eventsOf_eq_nil hself (Ne.symm hj), List.countP_nil]
    constructor
    · rw [hnow, System.proc_after_of_ne (Ne.symm hj), System.trace_after, askedBy_append, hnone]
      refine h.attempts.wait fun hloop => ?_
      rw [hbetween hloop, add_zero]
    · intro timeout hasked
      rw [System.trace_after] at hasked
      rcases List.mem_append.1 hasked with hasked | hasked
      · exact h.timeouts timeout hasked
      · exact absurd (hself _ hasked).symm hj

/-- What `resolve_txt` returns where the settings are coherent. -/
structure QuorumAsked (S : Settings) (asks : Nat) (outcomes : List ResolverOutcome) : Prop where
  /-- One answer for each resolver, in their order. -/
  ids : outcomes.map ResolverOutcome.resolverId = S.verificationResolvers.map DnsResolverConfig.resolverId
  /-- Those left out come last, and a quorum has been asked. -/
  suffix : ∃ attempted skipped, outcomes = attempted ++ skipped ∧ (∀ o ∈ attempted, o.outcome ≠ .notAttempted) ∧
    (∀ o ∈ skipped, o.outcome = .notAttempted) ∧ asks = attempted.length ∧ S.verificationResolverQuorum ≤ attempted.length

theorem Asked.quorum {text : Seconds → String} (h : Asked S i w) (hcoherent : S.verificationDnsSettingsAreCoherent text = .ok ())
    (hsome : S.verificationResolvers ≠ []) {outcomes : List ResolverOutcome} (hreturned : w.proc i = .returned i (.ok outcomes)) :
    QuorumAsked S (askedBy i w.trace) outcomes := by
  have hattempts := h.attempts
  rw [hreturned] at hattempts
  obtain ⟨elapsed, attempted, skipped, hprogress, hasks⟩ := hattempts outcomes rfl
  have hids : outcomes.map ResolverOutcome.resolverId = S.verificationResolvers.map DnsResolverConfig.resolverId := by
    simpa using hprogress.ids
  refine ⟨hids, attempted, skipped, hprogress.split, hprogress.asked, hprogress.left_out, hasks, ?_⟩
  by_cases hnone : skipped = []
  · -- then every resolver has been asked
    have hlength := congrArg List.length hids
    rw [hprogress.split, hnone, List.append_nil, List.length_map, List.length_map] at hlength
    rw [hlength]
    exact (Settings.coherent hcoherent hsome).1
  · exact hprogress.quorum hnone

end Runs

/-- Under coherent settings `resolve_txt` asks a quorum of the resolvers before its deadline, whatever else the process does. -/
theorem quorum_within_deadline [DecidableEq π] (S : Settings) (text : Seconds → String)
    (hcoherent : S.verificationDnsSettingsAreCoherent text = .ok ()) (hsome : S.verificationResolvers ≠ []) (calls : π → Call)
    (i : π) (hplain : (calls i).Plain) (t : ℚ) {w : Calls π} (hrun : (process S π).Run (Timely i) (Calls.start S t calls) w) :
    (∀ timeout, .asked i timeout ∈ w.trace → 0 < timeout ∧ timeout ≤ S.verificationQueryTimeoutSeconds) ∧
      ∀ outcomes, w.proc i = .returned i (.ok outcomes) → QuorumAsked S (askedBy i w.trace) outcomes := by
  have hstart : Asked S i (Calls.start S t calls) := ⟨⟨hplain, rfl⟩, fun _ h => absurd h List.not_mem_nil⟩
  have hasked : Asked S i w := (hrun.using fun hrun => Kept.of_run hrun).invariant hstart
    fun _ _ _ _ h hC hm => h.step hC.2 hcoherent hsome hC.1 hm
  exact ⟨hasked.timeouts, fun outcomes hreturned => hasked.quorum hcoherent hsome hreturned⟩

def Proc.answered? : Proc π → Option (List ResolverOutcome)
  | .returned _ (.ok outcomes) => some outcomes
  | _ => none

theorem Proc.eq_returned {p : Proc π} {outcomes : List ResolverOutcome} (h : p.answered? = some outcomes) :
    p = .returned p.self (.ok outcomes) := by
  cases p with
  | returned self result =>
    cases result with
    | error exc => cases h
    | ok outcomes' => rw [Option.some.inj h]; rfl
  | _ => cases h

/-- Two of three resolvers have to agree, and the deadline is that of two queries. -/
def twoOfThree : Settings := { Settings.defaults with
  verificationResolvers := [resolverAt "a", resolverAt "b", resolverAt "c"]
  verificationResolverQuorum := 2
  verificationDnsTotalDeadlineSeconds := (10 : ℚ)
  resolvers_length := by decide
  quorum_pos := by decide
  deadline_float := nearest_of_coe (by decide +kernel)
  deadline_pos := by decide }

/-- Three queries of 1.7 s and a deadline of 5.1 s, as floats: the product is above the deadline before it is rounded. -/
example : ({ twoOfThree with
    verificationResolverQuorum := 3
    verificationQueryTimeoutSeconds := (double.round (17 / 10) : ℚ)
    verificationDnsTotalDeadlineSeconds := (double.round (51 / 10) : ℚ)
    quorum_pos := by decide
    timeout_float := nearest_of_coe (by decide +kernel)
    deadline_float := nearest_of_coe (by decide +kernel)
    timeout_pos := by decide +kernel
    deadline_pos := by decide +kernel } : Settings).verificationDnsSettingsAreCoherent (fun _ => "") = .ok () ∧
    double.round (51 / 10) < 3 * double.round (17 / 10) := by
  decide +kernel

/-- Two queries take all of their time. -/
def slowAnswers : List (Unit × Choice) :=
  [((), { elapsed := 1 }), ((), { elapsed := 0 }), ((), { elapsed := 0 }), ((), { elapsed := 0 }), ((), { elapsed := 0 }),
    ((), { elapsed := 5 }), ((), { elapsed := 0 }), ((), { elapsed := 5, ending := .answer true none }), ((), { elapsed := 0 }),
    ((), { elapsed := 0 }), ((), { elapsed := 0 })]

theorem quorum_within_deadline_slow : ∃ (w : Calls Unit) (outcomes : List ResolverOutcome),
    w.proc () = .returned () (.ok outcomes) ∧
      outcomes.map ResolverOutcome.outcome = [.timeout, .answered, .notAttempted] ∧
        QuorumAsked twoOfThree (askedBy () w.trace) outcomes := by
  have hexec : ((process twoOfThree Unit).exec (Timely ()) (Calls.start twoOfThree 0 fun _ => { name := "x.lu" }) slowAnswers).any
      (fun w => (w.proc ()).answered?.any fun outcomes =>
        decide (outcomes.map ResolverOutcome.outcome = [.timeout, .answered, .notAttempted])) = true := by decide +kernel
  obtain ⟨w, hrun, hw⟩ := System.Run.of_exec_any hexec
  obtain ⟨outcomes, hanswered, houtcomes⟩ := (Option.any_eq_true ..).1 hw
  have hreturned : w.proc () = .returned () (.ok outcomes) := Proc.eq_returned hanswered
  exact ⟨w, outcomes, hreturned, of_decide_eq_true houtcomes,
    (quorum_within_deadline twoOfThree (fun _ => "") (by decide +kernel) (by decide) _ () ⟨rfl, rfl, rfl⟩ 0 hrun).2 outcomes hreturned⟩

end TestingPlatform.Dns
