import TestingPlatform.Assets.Verification
import TestingPlatform.Lib.Binary
import TestingPlatform.Lib.FixedWindow
import TestingPlatform.Lib.ReadCommitted
import Mathlib.Algebra.Order.Ring.Rat
import Mathlib.Algebra.Order.Monoid.Unbundled.WithTop

/-!
# TXT lookups

`core/dns_utils.py` with the settings it reads (`core/settings.py`): `resolve_txt` one statement at a time, for any
number of calls of one process. What a statement gets from outside is in its choice: how much time has passed on the
monotonic clock before it, and how the nameserver and the query of dnspython end. The lock of the outbound budget makes
`try_spend` one statement. A number of seconds is a rational, `⊤` is Python's `inf`.
-/

namespace TestingPlatform.Dns

open ReadCommitted
open Assets (DnsOutcome ResolverOutcome)
open Binary (double)

abbrev Seconds := WithTop ℚ

/-- The float nearest to a positive number. -/
def nearest (x : ℚ) : Seconds := if double.overflows x then ⊤ else (double.round x : ℚ)

/-! ### Settings -/

inductive Transport where
  | dot | doh
  deriving DecidableEq, Repr

structure DnsResolverConfig where
  address : String
  transport : Transport
  port : Nat
  tlsHostname : Option String
  dohUrl : Option String
  port_valid : 1 ≤ port ∧ port ≤ 65535
  deriving DecidableEq, Repr

/-- `resolver.tls_hostname or resolver.doh_url or resolver.address`. -/
def DnsResolverConfig.resolverId (r : DnsResolverConfig) : String :=
  if r.tlsHostname.getD "" ≠ "" then r.tlsHostname.getD ""
  else if r.dohUrl.getD "" ≠ "" then r.dohUrl.getD ""
  else r.address

/-- The settings of the verification check, each within the bounds of its field. The seconds are floats. A list of
`2 ^ 53` pointers does not fit into the address space of a process. -/
structure Settings where
  verificationResolvers : List DnsResolverConfig
  verificationResolverQuorum : Nat
  verificationQueryTimeoutSeconds : Seconds
  verificationDnsTotalDeadlineSeconds : Seconds
  verificationDnsMaxConcurrentQueries : Nat
  verificationGlobalRateLimit : Nat
  verificationGlobalRateWindowSeconds : Nat
  resolvers_length : verificationResolvers.length < 2 ^ 53
  quorum_pos : 1 ≤ verificationResolverQuorum
  timeout_float : ∀ t : ℚ, verificationQueryTimeoutSeconds = t → nearest t = t
  deadline_float : ∀ t : ℚ, verificationDnsTotalDeadlineSeconds = t → nearest t = t
  timeout_pos : 0 < verificationQueryTimeoutSeconds
  deadline_pos : 0 < verificationDnsTotalDeadlineSeconds
  concurrent_pos : 1 ≤ verificationDnsMaxConcurrentQueries
  limit_pos : 1 ≤ verificationGlobalRateLimit
  window_pos : 1 ≤ verificationGlobalRateWindowSeconds

theorem nearest_of_coe {x : ℚ} (h : nearest x = x) : ∀ t : ℚ, (x : Seconds) = t → nearest t = t := by
  intro t ht
  rw [← WithTop.coe_inj.1 ht]
  exact h

/-- The defaults of the fields. -/
def Settings.defaults : Settings where
  verificationResolvers := []
  verificationResolverQuorum := 1
  verificationQueryTimeoutSeconds := (5 : ℚ)
  verificationDnsTotalDeadlineSeconds := (20 : ℚ)
  verificationDnsMaxConcurrentQueries := 4
  verificationGlobalRateLimit := 600
  verificationGlobalRateWindowSeconds := 60
  resolvers_length := by decide
  quorum_pos := by decide
  timeout_float := nearest_of_coe (by decide +kernel)
  deadline_float := nearest_of_coe (by decide +kernel)
  timeout_pos := by decide
  deadline_pos := by decide
  concurrent_pos := by decide
  limit_pos := by decide
  window_pos := by decide

def appPoolCeiling : Nat := 15

namespace Settings
variable (S : Settings)

/-- `self.verification_resolver_quorum * self.verification_query_timeout_seconds`: the quorum becomes a float, and the
product is rounded. -/
def needed : Seconds :=
  match S.verificationQueryTimeoutSeconds with
  | none => ⊤
  | some t => nearest (double.round S.verificationResolverQuorum * t)

/-- `_verification_dns_settings_are_coherent`; `text` writes a number of seconds. -/
def verificationDnsSettingsAreCoherent (text : Seconds → String) : Except String Unit :=
  let resolvers := S.verificationResolvers
  if resolvers ≠ [] ∧ resolvers.length < S.verificationResolverQuorum then
    .error ("VERIFICATION_RESOLVER_QUORUM must not exceed the number of configured resolvers (" ++
      toString resolvers.length ++ ").")
  else if appPoolCeiling ≤ S.verificationDnsMaxConcurrentQueries then
    .error ("VERIFICATION_DNS_MAX_CONCURRENT_QUERIES must stay below the application connection-pool ceiling (" ++
      toString appPoolCeiling ++
      "); a check that outlives its connection starves every other operation on the same role.")
  else if S.verificationDnsTotalDeadlineSeconds < S.verificationQueryTimeoutSeconds then
    .error "VERIFICATION_DNS_TOTAL_DEADLINE_SECONDS must be at least VERIFICATION_QUERY_TIMEOUT_SECONDS."
  else if double.overflows S.verificationResolverQuorum then .error "int too large to convert to float"
  else if resolvers ≠ [] ∧ S.verificationDnsTotalDeadlineSeconds < S.needed then
    .error ("VERIFICATION_DNS_TOTAL_DEADLINE_SECONDS must cover VERIFICATION_RESOLVER_QUORUM worst-case queries (" ++
      text S.needed ++ "); resolvers are queried sequentially.")
  else .ok ()

end Settings

/-! ### One query -/

inductive DnsError where
  | notConfigured (message : String)
  | transportUnavailable (message : String)
  | capacity (message : String)
  /-- Any other exception, by its class. -/
  | raised (className : String)
  deriving DecidableEq, Repr

/-- Only authenticated transports can be built. -/
inductive Nameserver where
  | dot (address : String) (port : Nat) (hostname : Option String)
  | doh (url : String)
  deriving DecidableEq, Repr

/-- `_nameserver`, where the constructor may raise `unbuilt`. -/
def nameserver (r : DnsResolverConfig) (unbuilt : Option String) : Except DnsError Nameserver :=
  match r.transport, unbuilt with
  | .dot, none => .ok (.dot r.address r.port r.tlsHostname)
  | .dot, some className => .error (.raised className)
  | .doh, none => .ok (.doh (r.dohUrl.getD ""))
  | .doh, some _ => .error (.transportUnavailable
      "DNS-over-HTTPS is configured but not available in this build; install the DoH extras or configure a DoT resolver.")

/-- How `client.resolve` ends. -/
inductive QueryEnd where
  | nxdomain | noAnswer | noNameservers | timeout | dnsException
  | exception (className : String)
  /-- What is no `Exception`. -/
  | interrupt (className : String)
  | answer (ad : Bool) (rrset : Option (List (List (List UInt8))))
  deriving DecidableEq, Repr

/-- `_query_one` once the nameserver is built. -/
def queryOne (r : DnsResolverConfig) : QueryEnd → Except DnsError ResolverOutcome
  | .nxdomain => .ok { resolverId := r.resolverId, outcome := .nameNotFound }
  | .noAnswer => .ok { resolverId := r.resolverId, outcome := .noRecord }
  | .noNameservers => .ok { resolverId := r.resolverId, outcome := .serverFailure }
  | .timeout => .ok { resolverId := r.resolverId, outcome := .timeout }
  | .dnsException | .exception _ => .ok { resolverId := r.resolverId, outcome := .transportFailure }
  | .interrupt className => .error (.raised className)
  | .answer ad rrset =>
    .ok { resolverId := r.resolverId, outcome := .answered, authenticated := ad, strings := rrset.getD [] }

/-- What a resolver gets that the deadline left out. -/
def notAttempted (r : DnsResolverConfig) : ResolverOutcome := { resolverId := r.resolverId, outcome := .notAttempted }

theorem queryOne_spec {r : DnsResolverConfig} {e : QueryEnd} {o : ResolverOutcome} (h : queryOne r e = .ok o) :
    o.resolverId = r.resolverId ∧ o.outcome ≠ .notAttempted := by
  cases e <;> cases h <;> simp

/-! ### The process -/

/-- `_OutboundBudget`. -/
structure OutboundBudget where
  windowStarted : ℚ
  spent : Nat
  deriving DecidableEq, Repr

namespace OutboundBudget

def limit (S : Settings) : Nat := S.verificationGlobalRateLimit * max 1 S.verificationResolvers.length

/-- `try_spend` when the clock shows `now`. -/
def trySpend (S : Settings) (b : OutboundBudget) (now : ℚ) (queries : Nat) : Bool × OutboundBudget :=
  let window : ℚ := S.verificationGlobalRateWindowSeconds
  let b := if window ≤ now - b.windowStarted then ⟨now, 0⟩ else b
  if limit S < b.spent + queries then (false, b) else (true, { b with spent := b.spent + queries })

end OutboundBudget

/-- What the calls of a process share. -/
structure Shared where
  /-- `monotonic()`. -/
  now : ℚ
  /-- The value of `_admission`. -/
  permits : Nat
  budget : OutboundBudget
  deriving DecidableEq, Repr

/-- The arguments of `resolve_txt`. -/
structure Call where
  name : String
  resolvers : Option (List DnsResolverConfig) := none
  timeout : Option Seconds := none
  deadline : Option Seconds := none
  deriving DecidableEq

namespace Call
variable (c : Call) (S : Settings)

def configured : List DnsResolverConfig := c.resolvers.getD S.verificationResolvers
def perQuery : Seconds := c.timeout.getD S.verificationQueryTimeoutSeconds
def total : Seconds := c.deadline.getD S.verificationDnsTotalDeadlineSeconds

/-- `total - (monotonic() - started)`. -/
def remaining (started now : ℚ) : Seconds := (c.total S).map fun total => total - (now - started)

end Call

variable {π : Type}

/-- Where a call is. `self` says which one it is, for what it shows. -/
inductive Proc (π : Type) where
  | called (self : π) (c : Call)
  | admission (self : π) (c : Call)
  /-- From here on within `try`. -/
  | spending (self : π) (c : Call)
  | charged (self : π) (c : Call)
  | looping (self : π) (c : Call) (started : ℚ) (outcomes : List ResolverOutcome) (rest : List DnsResolverConfig)
  | querying (self : π) (c : Call) (started : ℚ) (outcomes : List ResolverOutcome) (resolver : DnsResolverConfig)
      (rest : List DnsResolverConfig) (timeout : Seconds) (asked : ℚ)
  /-- `finally`. -/
  | leaving (self : π) (result : Except DnsError (List ResolverOutcome))
  | returned (self : π) (result : Except DnsError (List ResolverOutcome))

/-- What a call does that can be seen from outside. -/
inductive Event (π : Type) where
  | charged (self : π) (c : FixedWindow.Charge ℚ)
  | asked (self : π) (timeout : Seconds)
  /-- A query on the wire. -/
  | sent (self : π)

structure Choice where
  elapsed : ℚ
  unbuilt : Option String := none
  sent : Bool := true
  ending : QueryEnd := .timeout
  deriving DecidableEq

abbrev Step (π : Type) := Move Empty Shared (Proc π) (Event π)

/-- Leaves `d` behind and goes on. -/
def goOn (d : Shared) (next : Proc π) (emit : List (Event π) := []) : Step π := { op := .commit [d], next, emit }

def notConfigured : DnsError := .notConfigured "No verification resolver is configured (VERIFICATION_RESOLVERS)."
def capacityExhausted : DnsError := .capacity "DNS query capacity exhausted."
def budgetExhausted : DnsError := .capacity "Outbound DNS query budget exhausted for this window."

/-- One statement of `resolve_txt`; `d` has the clock that it sees. -/
def go (S : Settings) (d : Shared) (p : Proc π) (ch : Choice) : Option (Step π) :=
  match p with
  | .called self c =>
    some (goOn d (if c.configured S = [] then .returned self (.error notConfigured) else .admission self c))
  | .admission self c =>
    -- `acquire(blocking=False)`
    some (if d.permits = 0 then goOn d (.returned self (.error capacityExhausted))
      else goOn { d with permits := d.permits - 1 } (.spending self c))
  | .spending self c =>
    let (admitted, budget) := d.budget.trySpend S d.now (c.configured S).length
    some (if admitted then
        goOn { d with budget } (.charged self c) [.charged self ⟨budget.windowStarted, d.now, (c.configured S).length⟩]
      else goOn { d with budget } (.leaving self (.error budgetExhausted)))
  | .charged self c => some (goOn d (.looping self c d.now [] (c.configured S)))
  | .looping self _ _ outcomes [] => some (goOn d (.leaving self (.ok outcomes)))
  | .looping self c started outcomes (r :: rest) =>
    let remaining := c.remaining S started d.now
    if remaining ≤ 0 then some (goOn d (.looping self c started (outcomes ++ [notAttempted r]) rest))
    else
      let timeout := min (c.perQuery S) remaining
      match nameserver r ch.unbuilt with
      | .error exc => some (goOn d (.leaving self (.error exc)))
      | .ok _ =>
        let emit := if ch.sent then [.asked self timeout, .sent self] else [.asked self timeout]
        some (goOn d (.querying self c started outcomes r rest timeout d.now) emit)
  | .querying self c started outcomes r rest _ _ =>
    match queryOne r ch.ending with
    | .error exc => some (goOn d (.leaving self (.error exc)))
    | .ok o => some (goOn d (.looping self c started (outcomes ++ [o]) rest))
  | .leaving self result =>
    -- `release` of a `BoundedSemaphore`
    some (if S.verificationDnsMaxConcurrentQueries ≤ d.permits then goOn d (.returned self (.error (.raised "ValueError")))
      else goOn { d with permits := d.permits + 1 } (.returned self result))
  | .returned .. => none

/-- The clock does not go back. -/
def process (S : Settings) (π : Type) : System Empty Shared Shared (Proc π) Choice (Event π) where
  write _ d := d
  move d p ch := if ch.elapsed < 0 then none else go S { d with now := d.now + ch.elapsed } p ch

abbrev Calls (π : Type) := World π Empty Shared (Proc π) (Event π)

/-- The process has started at `t` and has not been called. -/
def Calls.start (S : Settings) (t : ℚ) (calls : π → Call) : Calls π where
  db := { now := t, permits := S.verificationDnsMaxConcurrentQueries, budget := ⟨t, 0⟩ }
  owner _ := none
  proc i := .called i (calls i)
  trace := []

/-! ### What one statement leads to -/

/-- The statements of a call; `d` has the clock that the statement sees. -/
inductive Leads (S : Settings) (d : Shared) (ch : Choice) : Proc π → Step π → Prop
  | unconfigured {self : π} {c : Call} (hnone : c.configured S = []) :
      Leads S d ch (.called self c) (goOn d (.returned self (.error notConfigured)))
  | configured {self : π} {c : Call} (hsome : c.configured S ≠ []) : Leads S d ch (.called self c) (goOn d (.admission self c))
  | full {self : π} {c : Call} : Leads S d ch (.admission self c) (goOn d (.returned self (.error capacityExhausted)))
  | acquired {self : π} {c : Call} (hfree : 0 < d.permits) :
      Leads S d ch (.admission self c) (goOn { d with permits := d.permits - 1 } (.spending self c))
  | refused {self : π} {c : Call} {budget : OutboundBudget}
      (hspend : d.budget.trySpend S d.now (c.configured S).length = (false, budget)) :
      Leads S d ch (.spending self c) (goOn { d with budget } (.leaving self (.error budgetExhausted)))
  | spent {self : π} {c : Call} {budget : OutboundBudget}
      (hspend : d.budget.trySpend S d.now (c.configured S).length = (true, budget)) :
      Leads S d ch (.spending self c) (goOn { d with budget } (.charged self c)
        [.charged self ⟨budget.windowStarted, d.now, (c.configured S).length⟩])
  | started {self : π} {c : Call} : Leads S d ch (.charged self c) (goOn d (.looping self c d.now [] (c.configured S)))
  | finished {self : π} {c : Call} {started : ℚ} {outcomes : List ResolverOutcome} :
      Leads S d ch (.looping self c started outcomes []) (goOn d (.leaving self (.ok outcomes)))
  | skipped {self : π} {c : Call} {started : ℚ} {outcomes : List ResolverOutcome} {r : DnsResolverConfig}
      {rest : List DnsResolverConfig} (hover : c.remaining S started d.now ≤ 0) :
      Leads S d ch (.looping self c started outcomes (r :: rest)) (goOn d (.looping self c started (outcomes ++ [notAttempted r]) rest))
  | unbuilt {self : π} {c : Call} {started : ℚ} {outcomes : List ResolverOutcome} {r : DnsResolverConfig}
      {rest : List DnsResolverConfig} {exc : DnsError} (hexc : nameserver r ch.unbuilt = .error exc) :
      Leads S d ch (.looping self c started outcomes (r :: rest)) (goOn d (.leaving self (.error exc)))
  | asks {self : π} {c : Call} {started : ℚ} {outcomes : List ResolverOutcome} {r : DnsResolverConfig}
      {rest : List DnsResolverConfig} {timeout : Seconds} (hleft : 0 < c.remaining S started d.now)
      (htimeout : timeout = min (c.perQuery S) (c.remaining S started d.now)) :
      Leads S d ch (.looping self c started outcomes (r :: rest))
        (goOn d (.querying self c started outcomes r rest timeout d.now)
          (if ch.sent then [.asked self timeout, .sent self] else [.asked self timeout]))
  | escaped {self : π} {c : Call} {started : ℚ} {outcomes : List ResolverOutcome} {r : DnsResolverConfig}
      {rest : List DnsResolverConfig} {timeout : Seconds} {asked : ℚ} {exc : DnsError}
      (hexc : queryOne r ch.ending = .error exc) :
      Leads S d ch (.querying self c started outcomes r rest timeout asked) (goOn d (.leaving self (.error exc)))
  | answered {self : π} {c : Call} {started : ℚ} {outcomes : List ResolverOutcome} {r : DnsResolverConfig}
      {rest : List DnsResolverConfig} {timeout : Seconds} {asked : ℚ} {o : ResolverOutcome}
      (ho : queryOne r ch.ending = .ok o) :
      Leads S d ch (.querying self c started outcomes r rest timeout asked)
        (goOn d (.looping self c started (outcomes ++ [o]) rest))
  | overflowed {self : π} {result : Except DnsError (List ResolverOutcome)}
      (hfull : S.verificationDnsMaxConcurrentQueries ≤ d.permits) :
      Leads S d ch (.leaving self result) (goOn d (.returned self (.error (.raised "ValueError"))))
  | released {self : π} {result : Except DnsError (List ResolverOutcome)}
      (hheld : d.permits < S.verificationDnsMaxConcurrentQueries) :
      Leads S d ch (.leaving self result) (goOn { d with permits := d.permits + 1 } (.returned self result))

section Leads
variable {S : Settings} {d : Shared} {p : Proc π} {ch : Choice} {m : Step π}

theorem go_leads (h : go S d p ch = some m) : Leads S d ch p m := by
  cases p with
  | called self c =>
    cases h
    split
    next hnone => exact .unconfigured hnone
    next hsome => exact .configured hsome
  | admission self c =>
    cases h
    split
    · exact .full
    next hfree => exact .acquired (Nat.pos_of_ne_zero hfree)
  | spending self c =>
    simp only [go, Option.some.injEq] at h
    subst h
    cases hspend : d.budget.trySpend S d.now (c.configured S).length with
    | mk admitted budget =>
      cases admitted with
      | true => exact .spent hspend
      | false => exact .refused hspend
  | charged self c =>
    cases h
    exact .started
  | looping self c started outcomes rest =>
    cases rest with
    | nil =>
      cases h
      exact .finished
    | cons r rest =>
      simp only [go] at h
      split at h
      next hover =>
        cases h
        exact .skipped hover
      next hleft =>
        split at h
        next hexc =>
          cases h
          exact .unbuilt hexc
        · cases h
          exact .asks (not_le.1 hleft) rfl
  | querying self c started outcomes r rest timeout asked =>
    simp only [go] at h
    split at h
    next hexc =>
      cases h
      exact .escaped hexc
    next ho =>
      cases h
      exact .answered ho
  | leaving self result =>
    cases h
    split
    next hfull => exact .overflowed hfull
    next hheld => exact .released (not_le.1 hheld)
  | returned self result => cases h

/-- A statement leaves behind what it makes of the state that it sees. -/
theorem Leads.effect_eq (h : Leads S d ch p m) (d₁ d₂ : Shared) :
    m.op.effect (process S π).write d₁ = m.op.effect (process S π).write d₂ := by
  cases h <;> rfl

theorem Leads.now_eq (h : Leads S d ch p m) (d₁ : Shared) : (m.op.effect (process S π).write d₁).now = d.now := by
  cases h <;> rfl

end Leads

section Fires
variable {S : Settings} {w : Calls π} {i : π} {ch : Choice} {m : Step π}

/-- The clock that a statement sees. -/
def Shared.tick (d : Shared) (elapsed : ℚ) : Shared := { d with now := d.now + elapsed }

/-- What a statement does, once the clock has gone on. -/
theorem fires_leads (h : (process S π).Fires w i ch m) :
    0 ≤ ch.elapsed ∧ Leads S (w.db.tick ch.elapsed) ch (w.proc i) m := by
  obtain ⟨hmove, -⟩ := h
  simp only [process] at hmove
  split at hmove
  · cases hmove
  next helapsed => exact ⟨not_lt.1 helapsed, go_leads hmove⟩

end Fires

end TestingPlatform.Dns
