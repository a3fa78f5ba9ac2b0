import Mathlib
import TestingPlatform.Core.RedisUtils

/-!
# What one command leads to

`Leads` lists the statements of the calls of `core/redis_utils.py`, with what they have found out when they go on; `Told`
says what a call has shown by the time it is where it is. A number that is stored is read back off its text, by
`Int.toInt?_repr`, a lemma of Std that only the whole of Mathlib imports.
-/

namespace TestingPlatform.Redis

open ReadCommitted

variable {π : Type}

/-! ### What one statement leads to -/

/-- The statements of a call; `d` has the clock that the statement sees. -/
inductive Leads (d : Server) (ch : Choice) : Proc π → Step π → Prop
  | counts {self : π} {key : String} {limit windowSeconds : Int} {c : Counted} {d' : Server}
      (hconsume : consume d key limit windowSeconds = (.ok c, d')) :
      Leads d ch (.called self (.consume key limit windowSeconds)) (goOn d' (.returned self (.decision c.decision)) [.counted self c])
  | uncounted {self : π} {key : String} {limit windowSeconds : Int} {exc : String} {d' : Server}
      (hconsume : consume d key limit windowSeconds = (.error exc, d')) :
      Leads d ch (.called self (.consume key limit windowSeconds)) (goOn d' (.returned self (.raised exc)))
  | draws {self : π} {scope : String} {difficulty ttlSeconds : Int} :
      Leads d ch (.called self (.issueChallenge scope difficulty ttlSeconds))
        (goOn d (.issuing self scope ch.nonce.text difficulty ttlSeconds) [.drawn self ch.nonce.text])
  | issues {self : π} {scope nonce : String} {difficulty ttlSeconds : Int} (httl : 0 < ttlSeconds) :
      Leads d ch (.issuing self scope nonce difficulty ttlSeconds)
        (goOn (d.put (powKey scope nonce) (some ⟨Int.repr difficulty, some (d.now + Time.seconds ttlSeconds)⟩))
          (.returned self (.challenge ⟨nonce, difficulty, ttlSeconds⟩))
          [.issued self scope nonce difficulty (d.now + Time.seconds ttlSeconds)])
  | unissued {self : π} {scope nonce : String} {difficulty ttlSeconds : Int} {exc : String} :
      Leads d ch (.issuing self scope nonce difficulty ttlSeconds) (goOn d (.returned self (.raised exc)))
  | malformed {self : π} {scope nonce : String} :
      Leads d ch (.called self (.verifyAndConsume scope nonce)) (goOn d (.returned self (.redeemed none)))
  | redeeming {self : π} {scope nonce : String} (hnonce : isNonce nonce = true) :
      Leads d ch (.called self (.verifyAndConsume scope nonce)) (goOn d (.redeeming self scope nonce))
  | misses {self : π} {scope nonce : String} (hget : d.get (powKey scope nonce) = none) :
      Leads d ch (.redeeming self scope nonce) (goOn (d.put (powKey scope nonce) none) (.returned self (.redeemed none)))
  | unreadable {self : π} {scope nonce : String} {e : Entry} (hget : d.get (powKey scope nonce) = some e)
      (hvalue : e.value.toInt? = none) :
      Leads d ch (.redeeming self scope nonce) (goOn (d.put (powKey scope nonce) none) (.returned self (.raised "ValueError")))
  | redeems {self : π} {scope nonce : String} {e : Entry} {difficulty : Int} (hget : d.get (powKey scope nonce) = some e)
      (hvalue : e.value.toInt? = some difficulty) :
      Leads d ch (.redeeming self scope nonce)
        (goOn (d.put (powKey scope nonce) none) (.returned self (.redeemed (some difficulty)))
          [.redeemed self scope nonce difficulty d.now])
  | reads {self : π} {key : String} {raw : Option String} :
      Leads d ch (.called self (.getJson key)) (goOn d (.returned self (.document raw)))
  | caches {self : π} {key document : String} {ttlSeconds : Int} {e : Entry} :
      Leads d ch (.called self (.setJson key document ttlSeconds)) (goOn (d.put (cacheKey key) (some e)) (.returned self .stored))
  | uncached {self : π} {key document : String} {ttlSeconds : Int} {exc : String} :
      Leads d ch (.called self (.setJson key document ttlSeconds)) (goOn d (.returned self (.raised exc)))

section Leads
variable {d : Server} {p : Proc π} {ch : Choice} {m : Step π}

theorem go_leads (h : go d p ch = some m) : Leads d ch p m := by
  cases p with
  | called self c =>
    cases c with
    | consume key limit windowSeconds =>
      simp only [go] at h
      split at h
      next hconsume =>
        cases h
        exact .uncounted hconsume
      next hconsume =>
        cases h
        exact .counts hconsume
    | issueChallenge scope difficulty ttlSeconds =>
      cases h
      exact .draws
    | verifyAndConsume scope nonce =>
      cases h
      split
      · exact .malformed
      next hnonce => exact .redeeming (by simpa using hnonce)
    | getJson key =>
      cases h
      exact .reads
    | setJson key document ttlSeconds =>
      simp only [go, Server.setEx] at h
      split at h
      · cases h
        exact .uncached
      next hset =>
        split at hset
        · cases hset
        · cases hset
          cases h
          exact .caches
  | issuing self scope nonce difficulty ttlSeconds =>
    simp only [go, Server.setEx] at h
    split at h
    · cases h
      exact .unissued
    next hset =>
      split at hset
      · cases hset
      next httl =>
        cases hset
        cases h
        exact .issues (Int.not_le.1 httl)
  | redeeming self scope nonce =>
    simp only [go, Server.getDel] at h
    cases hget : d.get (powKey scope nonce) with
    | none =>
      rw [hget] at h
      cases h
      exact .misses hget
    | some e =>
      rw [hget] at h
      simp only [Option.map_some] at h
      split at h
      next hvalue =>
        cases h
        exact .unreadable hget hvalue
      next hvalue =>
        cases h
        exact .redeems hget hvalue
  | returned self r => cases h

theorem go_redeems {self : π} {scope nonce : String} {difficulty : Int} {t : Option Time}
    (hget : d.get (powKey scope nonce) = some ⟨Int.repr difficulty, t⟩) : go d (.redeeming self scope nonce) ch =
      some (goOn (d.put (powKey scope nonce) none) (.returned self (.redeemed (some difficulty)))
        [.redeemed self scope nonce difficulty d.now]) := by
  simp [go, Server.getDel, hget]

/-- A statement leaves behind what it makes of the state that it sees. -/
theorem Leads.effect_eq (h : Leads d ch p m) (d₁ d₂ : Server) :
    m.op.effect (clients π).write d₁ = m.op.effect (clients π).write d₂ := by
  cases h <;> rfl

end Leads

namespace Server
variable {d : Server} {key : String} {n : Int} {t : Time}

theorem incr_none (h : d.get key = none) : d.incr key = .ok (1, d.put key (some ⟨Int.repr 1, none⟩)) := by
  simp [incr, h]

theorem incr_some (h : d.get key = some ⟨Int.repr n, some t⟩) : d.incr key =
    if maxInteger ≤ n then .error "increment or decrement would overflow"
    else .ok (n + 1, d.put key (some ⟨Int.repr (n + 1), some t⟩)) := by
  simp [incr, h]

end Server

theorem fires_leads {w : Clients π} {i : π} {ch : Choice} {m : Step π} (h : (clients π).Fires w i ch m) :
    0 ≤ ch.elapsed ∧ Leads (w.db.tick ch.elapsed) ch (w.proc i) m := by
  obtain ⟨hmove, -⟩ := h
  simp only [clients] at hmove
  split at hmove
  · cases hmove
  next helapsed => exact ⟨Int.not_lt.1 helapsed, go_leads hmove⟩

/-! ### What a call has shown -/

namespace Event

def self : Event π → π
  | counted self _ | drawn self _ | issued self .. | redeemed self .. => self

end Event

def eventsOf [DecidableEq π] (i : π) (es : List (Event π)) : List (Event π) := es.filter fun e => e.self = i

/-- The events of call `i`, which was called with `c`. -/
inductive Told (i : π) : Call → Proc π → List (Event π) → Prop
  | called {c : Call} : Told i c (.called i c) []
  | counted {key : String} {limit windowSeconds : Int} {c : Counted} (hkey : c.key = key) :
      Told i (.consume key limit windowSeconds) (.returned i (.decision c.decision)) [.counted i c]
  | uncounted {key : String} {limit windowSeconds : Int} {exc : String} :
      Told i (.consume key limit windowSeconds) (.returned i (.raised exc)) []
  | issuing {scope nonce : String} {difficulty ttlSeconds : Int} (hnonce : isNonce nonce = true) :
      Told i (.issueChallenge scope difficulty ttlSeconds) (.issuing i scope nonce difficulty ttlSeconds) [.drawn i nonce]
  | issued {scope nonce : String} {difficulty ttlSeconds : Int} {expires : Time} (hnonce : isNonce nonce = true) :
      Told i (.issueChallenge scope difficulty ttlSeconds) (.returned i (.challenge ⟨nonce, difficulty, ttlSeconds⟩))
        [.drawn i nonce, .issued i scope nonce difficulty expires]
  | unissued {scope nonce exc : String} {difficulty ttlSeconds : Int} :
      Told i (.issueChallenge scope difficulty ttlSeconds) (.returned i (.raised exc)) [.drawn i nonce]
  | redeeming {scope nonce : String} (hnonce : isNonce nonce = true) :
      Told i (.verifyAndConsume scope nonce) (.redeeming i scope nonce) []
  | unredeemed {scope nonce : String} : Told i (.verifyAndConsume scope nonce) (.returned i (.redeemed none)) []
  | unreadable {scope nonce exc : String} : Told i (.verifyAndConsume scope nonce) (.returned i (.raised exc)) []
  | redeemed {scope nonce : String} {difficulty : Int} {time : Time} (hnonce : isNonce nonce = true) :
      Told i (.verifyAndConsume scope nonce) (.returned i (.redeemed (some difficulty)))
        [.redeemed i scope nonce difficulty time]
  | document {key : String} {raw : Option String} : Told i (.getJson key) (.returned i (.document raw)) []
  | cached {key document : String} {ttlSeconds : Int} : Told i (.setJson key document ttlSeconds) (.returned i .stored) []
  | uncached {key document exc : String} {ttlSeconds : Int} : Told i (.setJson key document ttlSeconds) (.returned i (.raised exc)) []

section Told
variable {i : π} {c : Call} {p : Proc π} {es : List (Event π)} {d : Server} {ch : Choice} {m : Step π}

/-- A call that issues has drawn the nonce, and shows nothing else. -/
theorem Told.issued_eq (h : Told i c p es) {j : π} {scope nonce : String} {difficulty : Int} {expires : Time}
    (hmem : .issued j scope nonce difficulty expires ∈ es) :
    isNonce nonce = true ∧ es = [.drawn i nonce, .issued i scope nonce difficulty expires] := by
  cases h with
  | issued hnonce =>
    obtain ⟨rfl, rfl, rfl, rfl, rfl⟩ : j = i ∧ _ := by simpa using hmem
    exact ⟨hnonce, rfl⟩
  | _ => simp at hmem

theorem Told.issuing_eq {self : π} {scope nonce : String} {difficulty ttlSeconds : Int}
    (h : Told i c (.issuing self scope nonce difficulty ttlSeconds) es) : es = [.drawn i nonce] := by
  cases h
  rfl

theorem Told.returned_eq {scope nonce : String} {difficulty : Int}
    (h : Told i (.verifyAndConsume scope nonce) (.returned i (.redeemed (some difficulty))) es) :
    isNonce nonce = true ∧ ∃ time, .redeemed i scope nonce difficulty time ∈ es := by
  cases h with
  | redeemed hnonce => exact ⟨hnonce, _, List.mem_singleton_self _⟩

theorem Told.redeemed_eq (h : Told i c p es) {j : π} {scope nonce : String} {difficulty : Int} {time : Time}
    (hmem : .redeemed j scope nonce difficulty time ∈ es) :
    c = .verifyAndConsume scope nonce ∧ p = .returned i (.redeemed (some difficulty)) := by
  cases h with
  | redeemed hnonce =>
    obtain ⟨rfl, rfl, rfl, rfl, rfl⟩ : j = i ∧ _ := by simpa using hmem
    exact ⟨rfl, rfl⟩
  | _ => simp at hmem

theorem Told.step (h : Told i c p es) (hm : Leads d ch p m) : Told i c m.next (es ++ m.emit) ∧ ∀ e ∈ m.emit, e.self = i := by
  cases hm <;> cases h
  case counts.called hconsume => exact ⟨.counted (consume_key hconsume), by simp [goOn, Event.self]⟩
  case uncounted.called => exact ⟨.uncounted, by simp [goOn]⟩
  case draws.called => exact ⟨.issuing ch.nonce.hex, by simp [goOn, Event.self]⟩
  case issues.issuing hnonce => exact ⟨.issued hnonce, by simp [goOn, Event.self]⟩
  case unissued.issuing => exact ⟨.unissued, by simp [goOn]⟩
  case malformed.called => exact ⟨.unredeemed, by simp [goOn]⟩
  case redeeming.called hnonce => exact ⟨.redeeming hnonce, by simp [goOn]⟩
  case misses.redeeming => exact ⟨.unredeemed, by simp [goOn]⟩
  case unreadable.redeeming => exact ⟨.unreadable, by simp [goOn]⟩
  case redeems.redeeming hnonce => exact ⟨.redeemed hnonce, by simp [goOn, Event.self]⟩
  case reads.called => exact ⟨.document, by simp [goOn]⟩
  case caches.called => exact ⟨.cached, by simp [goOn]⟩
  case uncached.called => exact ⟨.uncached, by simp [goOn]⟩

end Told

section Runs
variable [DecidableEq π] {calls : π → Call} {w : Clients π}

theorem mem_eventsOf {e : Event π} {es : List (Event π)} (h : e ∈ es) : e ∈ eventsOf e.self es :=
  List.mem_filter.2 ⟨h, decide_eq_true rfl⟩

/-- A statement shows what its own call does. -/
theorem told_after (h : ∀ i, Told i (calls i) (w.proc i) (eventsOf i w.trace)) {i : π} {ch : Choice} {m : Step π}
    (hm : (clients π).Fires w i ch m) (j : π) :
    Told j (calls j) (((clients π).after w i m).proc j) (eventsOf j ((clients π).after w i m).trace) := by
  obtain ⟨htold, hself⟩ := (h i).step (fires_leads hm).2
  rw [System.trace_after, eventsOf, List.filter_append]
  by_cases hj : j = i
  · subst hj
    have hall : (m.emit.filter fun e => e.self = j) = m.emit := List.filter_eq_self.2 fun e he => decide_eq_true (hself e he)
    rw [System.proc_after_self, hall]
    exact htold
  · have hnone : (m.emit.filter fun e => e.self = j) = [] :=
      List.filter_eq_nil_iff.2 fun e he heq => hj ((of_decide_eq_true heq).symm.trans (hself e he))
    rw [System.proc_after_of_ne hj, hnone, List.append_nil]
    exact h j

end Runs

end TestingPlatform.Redis
