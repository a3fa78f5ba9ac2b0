import TestingPlatform.Core.RedisSteps

/-!
# Single-use challenges

A challenge is redeemed at most once, under its own scope, before it expires and for its own difficulty; until then every
other call leaves it redeemable (`challenges_single_use`). What a call has shown is a matter of where it is (`Told`), and
what is stored under the keys of challenges is a matter of what has been shown (`Ledger`).
-/

namespace TestingPlatform.Redis

open ReadCommitted

variable {π : Type}

/-! ### What is stored -/

namespace Event

def drawn? : Event π → Option String
  | drawn _ nonce => some nonce
  | _ => none

/-- The nonce that is redeemed. -/
def redeemed? : Event π → Option String
  | redeemed _ _ nonce _ _ => some nonce
  | _ => none

end Event

/-- How often a nonce has been redeemed. -/
def redemptions (nonce : String) (es : List (Event π)) : Nat := es.countP fun e => e.redeemed? = some nonce

/-- The keys of challenges hold what has been issued and not been redeemed. -/
structure Ledger (d : Server) (es : List (Event π)) : Prop where
  stored : ∀ scope nonce e, isNonce nonce = true → d.keys (powKey scope nonce) = some e → redemptions nonce es = 0 ∧
    ∃ i difficulty expires, .issued i scope nonce difficulty expires ∈ es ∧ e = ⟨Int.repr difficulty, some expires⟩
  outstanding : ∀ i scope nonce difficulty expires, .issued i scope nonce difficulty expires ∈ es → redemptions nonce es = 0 →
    d.now < expires → d.keys (powKey scope nonce) = some ⟨Int.repr difficulty, some expires⟩
  redeemed : ∀ j scope nonce difficulty time, .redeemed j scope nonce difficulty time ∈ es →
    ∃ i expires, .issued i scope nonce difficulty expires ∈ es ∧ time < expires
  once : ∀ nonce, redemptions nonce es ≤ 1

/-- Every nonce is issued once. -/
structure IssuedOnce (es : List (Event π)) : Prop where
  hex : ∀ i scope nonce difficulty expires, .issued i scope nonce difficulty expires ∈ es → isNonce nonce = true
  eq : ∀ i j scope scope' nonce difficulty difficulty' expires expires', .issued i scope nonce difficulty expires ∈ es →
    .issued j scope' nonce difficulty' expires' ∈ es → scope = scope' ∧ difficulty = difficulty' ∧ expires = expires'

section Ledger
variable {d : Server} {es es' : List (Event π)} {ch : Choice} {p : Proc π} {m : Step π}

@[simp] theorem redemptions_append (nonce : String) : redemptions nonce (es ++ es') = redemptions nonce es + redemptions nonce es' :=
  List.countP_append

theorem redemptions_eq_zero {nonce : String} (h : ∀ e ∈ es, e.redeemed? ≠ some nonce) : redemptions nonce es = 0 :=
  List.countP_eq_zero.2 fun e he => by simpa using h e he

theorem Ledger.tick (h : Ledger d es) {elapsed : Time} (helapsed : 0 ≤ elapsed) : Ledger (d.tick elapsed) es where
  stored := h.stored
  outstanding i scope nonce difficulty expires hissued hnone hlive :=
    h.outstanding i scope nonce difficulty expires hissued hnone ((Int.le_add_of_nonneg_right helapsed).trans_lt hlive)
  redeemed := h.redeemed
  once := h.once

/-- What was redeemed has been issued, in a longer trace too. -/
theorem Ledger.redeemed_append (h : Ledger d es) {j : π} {scope nonce : String} {difficulty : Int} {time : Time}
    (es' : List (Event π)) (hmem : .redeemed j scope nonce difficulty time ∈ es) :
    ∃ i expires, .issued i scope nonce difficulty expires ∈ es ++ es' ∧ time < expires := by
  obtain ⟨i, expires, hissue, hlive⟩ := h.redeemed j scope nonce difficulty time hmem
  exact ⟨i, expires, List.mem_append_left es' hissue, hlive⟩

/-- Statements that neither issue nor redeem, and leave the keys of challenges alone. -/
theorem Ledger.quiet {d' : Server} (h : Ledger d es) (hnow : d'.now = d.now)
    (hkeys : ∀ scope nonce, d'.keys (powKey scope nonce) = d.keys (powKey scope nonce))
    (hissued : ∀ i scope nonce difficulty expires, .issued i scope nonce difficulty expires ∉ es')
    (hredeemed : ∀ e ∈ es', e.redeemed? = none) : Ledger d' (es ++ es') := by
  have hnone : ∀ nonce, redemptions nonce (es ++ es') = redemptions nonce es := by
    intro nonce
    have hzero : redemptions nonce es' = 0 := redemptions_eq_zero fun e he => by simp [hredeemed e he]
    rw [redemptions_append, hzero, Nat.add_zero]
  have hold : ∀ {i scope nonce difficulty expires}, .issued i scope nonce difficulty expires ∈ es ++ es' →
      .issued i scope nonce difficulty expires ∈ es :=
    fun hmem => (List.mem_append.1 hmem).resolve_right (hissued _ _ _ _ _)
  constructor
  · intro scope nonce e hhex hkey
    rw [hkeys] at hkey
    obtain ⟨hzero, i, difficulty, expires, hmem, rfl⟩ := h.stored scope nonce e hhex hkey
    exact ⟨(hnone nonce).trans hzero, i, difficulty, expires, List.mem_append_left _ hmem, rfl⟩
  · intro i scope nonce difficulty expires hmem hzero hlive
    rw [hkeys]
    rw [hnone] at hzero
    rw [hnow] at hlive
    exact h.outstanding i scope nonce difficulty expires (hold hmem) hzero hlive
  · intro j scope nonce difficulty time hmem
    rcases List.mem_append.1 hmem with hmem | hmem
    · exact h.redeemed_append es' hmem
    · cases hredeemed _ hmem
  · intro nonce
    rw [hnone]
    exact h.once nonce

theorem Ledger.issue (h : Ledger d es) {self : π} {scope nonce : String} {difficulty : Int} {expires : Time}
    (hhex : isNonce nonce = true) (hissued : IssuedOnce es)
    (hfresh : ∀ i scope difficulty expires, .issued i scope nonce difficulty expires ∉ es) :
    Ledger (d.put (powKey scope nonce) (some ⟨Int.repr difficulty, some expires⟩)) (es ++ [.issued self scope nonce difficulty expires]) := by
  have hcount : ∀ n, redemptions n (es ++ [.issued self scope nonce difficulty expires]) = redemptions n es := by
    intro n
    rw [redemptions_append]
    rfl
  have hzero : redemptions nonce es = 0 := by
    refine redemptions_eq_zero fun e he heq => ?_
    cases e with
    | redeemed j scope' nonce' difficulty' time =>
      obtain rfl : nonce' = nonce := Option.some.inj heq
      obtain ⟨i, expires', hissue, -⟩ := h.redeemed j scope' nonce' difficulty' time he
      exact hfresh _ _ _ _ hissue
    | _ => cases heq
  constructor
  · intro scope' nonce' e hhex' hkey
    rw [hcount]
    by_cases hsame : powKey scope' nonce' = powKey scope nonce
    · obtain ⟨rfl, rfl⟩ := powKey_inj hhex' hhex hsame
      rw [Server.keys_put_self] at hkey
      exact ⟨hzero, self, difficulty, expires, by simp, (Option.some.inj hkey).symm⟩
    · rw [Server.keys_put_of_ne hsame] at hkey
      obtain ⟨hnone, i, difficulty', expires', hmem, rfl⟩ := h.stored scope' nonce' e hhex' hkey
      exact ⟨hnone, i, difficulty', expires', List.mem_append_left _ hmem, rfl⟩
  · intro i scope' nonce' difficulty' expires' hmem hnone hlive
    rw [hcount] at hnone
    rcases List.mem_append.1 hmem with hold | hnew
    · have hne : powKey scope' nonce' ≠ powKey scope nonce := by
        intro hsame
        obtain ⟨rfl, rfl⟩ := powKey_inj (hissued.hex _ _ _ _ _ hold) hhex hsame
        exact hfresh _ _ _ _ hold
      rw [Server.keys_put_of_ne hne]
      exact h.outstanding i scope' nonce' difficulty' expires' hold hnone hlive
    · cases List.mem_singleton.1 hnew
      exact Server.keys_put_self
  · intro j scope' nonce' difficulty' time hmem
    rcases List.mem_append.1 hmem with hmem | hmem
    · exact h.redeemed_append _ hmem
    · cases List.mem_singleton.1 hmem
  · intro n
    rw [hcount]
    exact h.once n

theorem Ledger.miss (h : Ledger d es) {scope nonce : String} (hget : d.get (powKey scope nonce) = none) : Ledger (d.put (powKey scope nonce) none) es := by
  constructor
  · intro scope' nonce' e hhex' hkey
    by_cases hsame : powKey scope' nonce' = powKey scope nonce
    · rw [hsame, Server.keys_put_self] at hkey
      cases hkey
    · rw [Server.keys_put_of_ne hsame] at hkey
      exact h.stored scope' nonce' e hhex' hkey
  · intro i scope' nonce' difficulty expires hmem hnone hlive
    have hkey := h.outstanding i scope' nonce' difficulty expires hmem hnone hlive
    have hne : powKey scope' nonce' ≠ powKey scope nonce := by
      intro hsame
      rw [hsame] at hkey
      have hthere : d.get (powKey scope nonce) = some _ := Server.get_eq_some.2 ⟨hkey, fun t ht => Option.some.inj ht ▸ hlive⟩
      rw [hget] at hthere
      cases hthere
    rwa [Server.keys_put_of_ne hne]
  · exact h.redeemed
  · exact h.once

/-- A challenge that is there is redeemed for its own difficulty, and is there no more. -/
theorem Ledger.redeem (h : Ledger d es) {self : π} {scope nonce : String} {e : Entry} {difficulty : Int} (hhex : isNonce nonce = true)
    (hissued : IssuedOnce es) (hget : d.get (powKey scope nonce) = some e) (hvalue : e.value.toInt? = some difficulty) :
    Ledger (d.put (powKey scope nonce) none) (es ++ [.redeemed self scope nonce difficulty d.now]) := by
  obtain ⟨hkey, hlive⟩ := Server.get_eq_some.1 hget
  obtain ⟨hzero, i, difficulty₀, expires, hissue, rfl⟩ := h.stored scope nonce e hhex hkey
  obtain rfl : difficulty₀ = difficulty := by
    rw [Int.toInt?_repr] at hvalue
    exact Option.some.inj hvalue
  have hcount : ∀ n, n ≠ nonce → redemptions n (es ++ [.redeemed self scope nonce difficulty₀ d.now]) = redemptions n es := by
    intro n hne
    have hother : redemptions n [Event.redeemed self scope nonce difficulty₀ d.now] = 0 :=
      redemptions_eq_zero fun e he heq => by
        rw [List.mem_singleton.1 he] at heq
        exact hne (Option.some.inj heq).symm
    rw [redemptions_append, hother, Nat.add_zero]
  have hself : redemptions nonce (es ++ [.redeemed self scope nonce difficulty₀ d.now]) = 1 := by
    rw [redemptions_append, hzero]
    simp [redemptions, Event.redeemed?]
  have hold : ∀ {i scope' nonce' difficulty expires}, .issued i scope' nonce' difficulty expires ∈
      es ++ [Event.redeemed self scope nonce difficulty₀ d.now] → .issued i scope' nonce' difficulty expires ∈ es := by
    intro i scope' nonce' difficulty expires hmem
    exact (List.mem_append.1 hmem).resolve_right fun hmem => by cases List.mem_singleton.1 hmem
  constructor
  · intro scope' nonce' e hhex' hkey'
    by_cases hsame : powKey scope' nonce' = powKey scope nonce
    · rw [hsame, Server.keys_put_self] at hkey'
      cases hkey'
    · rw [Server.keys_put_of_ne hsame] at hkey'
      obtain ⟨hnone, j, difficulty', expires', hmem, rfl⟩ := h.stored scope' nonce' e hhex' hkey'
      have hne : nonce' ≠ nonce := by
        rintro rfl
        obtain ⟨rfl, -⟩ := hissued.eq _ _ _ _ _ _ _ _ _ hmem hissue
        exact hsame rfl
      exact ⟨(hcount nonce' hne).trans hnone, j, difficulty', expires', List.mem_append_left _ hmem, rfl⟩
  · intro j scope' nonce' difficulty' expires' hmem hnone hlive'
    have hne : nonce' ≠ nonce := by
      rintro rfl
      rw [hself] at hnone
      cases hnone
    rw [hcount nonce' hne] at hnone
    have hkeys : powKey scope' nonce' ≠ powKey scope nonce :=
      fun hsame => hne (powKey_inj (hissued.hex _ _ _ _ _ (hold hmem)) hhex hsame).2
    rw [Server.keys_put_of_ne hkeys]
    exact h.outstanding j scope' nonce' difficulty' expires' (hold hmem) hnone hlive'
  · intro j scope' nonce' difficulty' time hmem
    rcases List.mem_append.1 hmem with hmem | hmem
    · exact h.redeemed_append _ hmem
    · cases List.mem_singleton.1 hmem
      exact ⟨i, expires, List.mem_append_left _ hissue, hlive expires rfl⟩
  · intro n
    by_cases hn : n = nonce
    · rw [hn, hself]
    · rw [hcount n hn]
      exact h.once n

/-- What is stored under the key of a challenge is a number. -/
theorem Ledger.readable (h : Ledger d es) {scope nonce : String} {e : Entry} (hhex : isNonce nonce = true)
    (hget : d.get (powKey scope nonce) = some e) : e.value.toInt? ≠ none := by
  obtain ⟨-, i, difficulty, expires, -, rfl⟩ := h.stored scope nonce e hhex (Server.get_eq_some.1 hget).1
  simp

theorem Ledger.step {i : π} {c : Call} {told : List (Event π)} (h : Ledger d es) (hissued : IssuedOnce es) (htold : Told i c p told)
    (hfresh : ∀ self scope nonce difficulty ttlSeconds, p = .issuing self scope nonce difficulty ttlSeconds →
      ∀ i scope difficulty expires, .issued i scope nonce difficulty expires ∉ es) (hm : Leads d ch p m) :
    Ledger (m.op.effect (clients π).write d) (es ++ m.emit) := by
  have hquiet : Ledger d (es ++ []) := by rwa [List.append_nil]
  cases hm with
  | counts hconsume =>
    obtain ⟨hnow, hkeys⟩ := consume_frame hconsume
    exact h.quiet hnow (fun scope nonce => hkeys _ (rateKey_ne_powKey _ scope nonce).symm) (by simp [goOn])
      (by simp [goOn, Event.redeemed?])
  | uncounted hconsume =>
    obtain ⟨hnow, hkeys⟩ := consume_frame hconsume
    exact h.quiet hnow (fun scope nonce => hkeys _ (rateKey_ne_powKey _ scope nonce).symm) (by simp [goOn]) (by simp [goOn])
  | draws => exact h.quiet rfl (fun _ _ => rfl) (by simp [goOn]) (by simp [goOn, Event.redeemed?])
  | issues =>
    cases htold with
    | issuing hhex => exact h.issue hhex hissued (hfresh _ _ _ _ _ rfl)
  | misses hget =>
    have hmiss := h.miss hget
    rwa [← List.append_nil es] at hmiss
  | unreadable hget hvalue =>
    cases htold with
    | redeeming hhex => exact absurd hvalue (h.readable hhex hget)
  | redeems hget hvalue =>
    cases htold with
    | redeeming hhex => exact h.redeem hhex hissued hget hvalue
  | @caches _ key _ _ e =>
    have hput : Ledger (d.put (cacheKey key) (some e)) (es ++ []) :=
      h.quiet rfl (fun scope nonce => Server.keys_put_of_ne (cacheKey_ne_powKey key scope nonce).symm) (by simp) (by simp)
    exact hput
  | unissued | malformed | redeeming | reads | uncached => exact hquiet

end Ledger

/-! ### Every run -/

def Proc.draws : Proc π → Bool
  | .called _ (.issueChallenge ..) => true
  | _ => false

/-- A nonce that is drawn has not been drawn before. -/
def Fresh (w : Clients π) (a : π × Choice) : Prop :=
  (w.proc a.1).draws = true → ∀ e ∈ w.trace, e.drawn? ≠ some a.2.nonce.text

instance (w : Clients π) (a : π × Choice) : Decidable (Fresh w a) :=
  inferInstanceAs (Decidable (_ → _))

structure Kept [DecidableEq π] (calls : π → Call) (w : Clients π) : Prop where
  told : ∀ i, Told i (calls i) (w.proc i) (eventsOf i w.trace)
  drawn : ∀ i j nonce, .drawn i nonce ∈ w.trace → .drawn j nonce ∈ w.trace → i = j
  ledger : Ledger w.db w.trace

section Kept
variable [DecidableEq π] {calls : π → Call} {w : Clients π}

theorem Kept.issued_eq (h : Kept calls w) {i : π} {scope nonce : String} {difficulty : Int} {expires : Time}
    (hmem : .issued i scope nonce difficulty expires ∈ w.trace) :
    isNonce nonce = true ∧ eventsOf i w.trace = [.drawn i nonce, .issued i scope nonce difficulty expires] :=
  (h.told i).issued_eq (mem_eventsOf hmem)

theorem Kept.drawn_of_issued (h : Kept calls w) {i : π} {scope nonce : String} {difficulty : Int} {expires : Time}
    (hmem : .issued i scope nonce difficulty expires ∈ w.trace) : .drawn i nonce ∈ w.trace := by
  have hdrawn : .drawn i nonce ∈ eventsOf i w.trace := by
    rw [(h.issued_eq hmem).2]
    exact List.mem_cons_self
  exact (List.mem_filter.1 hdrawn).1

theorem Kept.issuedOnce (h : Kept calls w) : IssuedOnce w.trace where
  hex _ _ _ _ _ hmem := (h.issued_eq hmem).1
  eq i j scope scope' nonce difficulty difficulty' expires expires' hmem hmem' := by
    obtain rfl := h.drawn i j nonce (h.drawn_of_issued hmem) (h.drawn_of_issued hmem')
    have hsame := (h.issued_eq hmem).2.symm.trans (h.issued_eq hmem').2
    simpa using hsame

theorem Kept.step (h : Kept calls w) {i : π} {ch : Choice} {m : Step π} (hfresh : Fresh w (i, ch))
    (hm : (clients π).Fires w i ch m) : Kept calls ((clients π).after w i m) := by
  obtain ⟨helapsed, hleads⟩ := fires_leads hm
  have hself := ((h.told i).step hleads).2
  constructor
  · exact told_after h.told hm
  · have hnew : ∀ {j nonce}, .drawn j nonce ∈ m.emit → j = i ∧ ∀ k, .drawn k nonce ∉ w.trace := by
      intro j nonce hmem
      refine ⟨hself _ hmem, fun k hk => ?_⟩
      generalize hp : w.proc i = p at hleads
      cases hleads with
      | draws =>
        have hdraws : (w.proc i).draws = true := by rw [hp]; rfl
        obtain ⟨-, rfl⟩ : j = _ ∧ nonce = ch.nonce.text := by simpa [goOn] using hmem
        exact hfresh hdraws _ hk rfl
      | _ => simp [goOn] at hmem
    intro j k nonce hmem hmem'
    rw [System.trace_after] at hmem hmem'
    rcases List.mem_append.1 hmem with hmem | hmem <;> rcases List.mem_append.1 hmem' with hmem' | hmem'
    · exact h.drawn j k nonce hmem hmem'
    · exact absurd hmem ((hnew hmem').2 j)
    · exact absurd hmem' ((hnew hmem).2 k)
    · exact (hnew hmem).1.trans (hnew hmem').1.symm
  · rw [System.db_after, System.trace_after, hleads.effect_eq w.db (w.db.tick ch.elapsed)]
    refine (h.ledger.tick helapsed).step h.issuedOnce (h.told i) ?_ hleads
    intro self scope nonce difficulty ttlSeconds hp j scope' difficulty' expires hmem
    have htold := h.told i
    rw [hp] at htold
    have hissuing := htold.issuing_eq
    have hdrawn : .drawn i nonce ∈ eventsOf i w.trace := by
      rw [hissuing]
      exact List.mem_cons_self
    obtain rfl := h.drawn j i nonce (h.drawn_of_issued hmem) (List.mem_filter.1 hdrawn).1
    have hissued := mem_eventsOf hmem
    rw [Event.self, hissuing] at hissued
    cases List.mem_singleton.1 hissued

/-- What holds of challenges at any time. -/
structure SingleUse (calls : π → Call) (w : Clients π) : Prop where
  /-- A nonce is issued once. -/
  unique : ∀ i j scope scope' nonce difficulty difficulty' expires expires', .issued i scope nonce difficulty expires ∈ w.trace →
    .issued j scope' nonce difficulty' expires' ∈ w.trace → scope = scope' ∧ difficulty = difficulty' ∧ expires = expires'
  once : ∀ nonce, redemptions nonce w.trace ≤ 1
  /-- Who redeems names the scope, in time, and gets the difficulty. -/
  redeemed : ∀ i scope nonce difficulty time, .redeemed i scope nonce difficulty time ∈ w.trace →
    calls i = .verifyAndConsume scope nonce ∧ w.proc i = .returned i (.redeemed (some difficulty)) ∧
      ∃ j expires, .issued j scope nonce difficulty expires ∈ w.trace ∧ time < expires
  /-- Every other call redeems nothing. -/
  others : ∀ i scope nonce, calls i = .verifyAndConsume scope nonce →
    (isNonce nonce = false ∨ ∀ j difficulty expires, .issued j scope nonce difficulty expires ∉ w.trace) →
      ∀ difficulty, w.proc i ≠ .returned i (.redeemed (some difficulty))
  /-- Whatever has happened since: a challenge that has not been redeemed can be, until it expires. -/
  redeemable : ∀ j scope nonce difficulty expires, .issued j scope nonce difficulty expires ∈ w.trace →
    redemptions nonce w.trace = 0 → ∀ i ch, w.proc i = .redeeming i scope nonce → 0 ≤ ch.elapsed →
      w.db.now + ch.elapsed < expires →
        ∃ m, (clients π).Fires w i ch m ∧ m.next = .returned i (.redeemed (some difficulty))

theorem Kept.redeemable (h : Kept calls w) {j : π} {scope nonce : String} {difficulty : Int} {expires : Time}
    (hissued : .issued j scope nonce difficulty expires ∈ w.trace) (hnone : redemptions nonce w.trace = 0) {i : π} {ch : Choice}
    (hp : w.proc i = .redeeming i scope nonce) (helapsed : 0 ≤ ch.elapsed) (hlive : w.db.now + ch.elapsed < expires) :
    ∃ m, (clients π).Fires w i ch m ∧ m.next = .returned i (.redeemed (some difficulty)) := by
  have hkey := (h.ledger.tick helapsed).outstanding j scope nonce difficulty expires hissued hnone hlive
  have hget : (w.db.tick ch.elapsed).get (powKey scope nonce) = some ⟨Int.repr difficulty, some expires⟩ :=
    Server.get_eq_some.2 ⟨hkey, fun t ht => Option.some.inj ht ▸ hlive⟩
  have hmove : (clients π).move w.db (w.proc i) ch = some _ :=
    (if_neg (not_lt.2 helapsed)).trans (hp ▸ go_redeems hget)
  exact ⟨_, ⟨hmove, trivial⟩, rfl⟩

theorem Kept.singleUse (h : Kept calls w) : SingleUse calls w := by
  constructor
  · exact h.issuedOnce.eq
  · exact h.ledger.once
  · intro i scope nonce difficulty time hmem
    obtain ⟨hcall, hproc⟩ := (h.told i).redeemed_eq (mem_eventsOf hmem)
    exact ⟨hcall, hproc, h.ledger.redeemed i scope nonce difficulty time hmem⟩
  · intro i scope nonce hcall hother difficulty hproc
    have htold := h.told i
    rw [hcall, hproc] at htold
    obtain ⟨hnonce, time, hmem⟩ := htold.returned_eq
    obtain ⟨j, expires, hissued, -⟩ := h.ledger.redeemed i scope nonce difficulty time (List.mem_filter.1 hmem).1
    rcases hother with hmalformed | hnone
    · rw [hnonce] at hmalformed
      cases hmalformed
    · exact hnone j difficulty expires hissued
  · intro j scope nonce difficulty expires hissued hnone i ch hp helapsed hlive
    exact h.redeemable hissued hnone hp helapsed hlive

end Kept

/-- Challenges are single use and bound to their scope, in every run in which no nonce is drawn twice. -/
theorem challenges_single_use [DecidableEq π] (d : Server) (hclean : ∀ scope nonce, d.keys (powKey scope nonce) = none)
    (calls : π → Call) {w : Clients π} (hrun : (clients π).Run Fresh (Clients.start d calls) w) : SingleUse calls w := by
  have hstart : Kept calls (Clients.start d calls) := by
    constructor
    · exact fun i => .called
    · exact fun i j nonce hmem => absurd hmem List.not_mem_nil
    · constructor
      · intro scope nonce e hhex hkey
        have hnone : d.keys (powKey scope nonce) = some e := hkey
        rw [hclean] at hnone
        cases hnone
      · exact fun i scope nonce difficulty expires hmem => absurd hmem List.not_mem_nil
      · exact fun j scope nonce difficulty time hmem => absurd hmem List.not_mem_nil
      · exact fun nonce => Nat.zero_le 1
  have hkept : Kept calls w := hrun.invariant hstart fun _ _ _ _ h hC hm => h.step hC hm
  exact hkept.singleUse

/-- A challenge under a scope with a separator in it, and who tries to redeem it. -/
def tries : Nat → Call
  | 0 => .issueChallenge "a:b" 5 120
  | 1 => .verifyAndConsume "a" ("b:" ++ someNonce.text)
  | 2 => .verifyAndConsume "a" someNonce.text
  | _ => .verifyAndConsume "a:b" someNonce.text

/-- The wrong scopes come first. -/
def misled : List (Nat × Choice) := [0, 0, 1, 2, 2, 3].map fun i => (i, ⟨1, someNonce⟩)

theorem challenges_single_use_scoped : ∃ w : Clients Nat,
    w.proc 3 = .returned 3 (.redeemed (some 5)) ∧ SingleUse tries w := by
  have hexec : ((clients Nat).exec Fresh (Clients.start ⟨0, fun _ => none⟩ tries) misled).any (fun w => decide
      (w.proc 3 = .redeeming 3 "a:b" someNonce.text ∧ redemptions someNonce.text w.trace = 0 ∧
        w.db.now = 6 ∧ .issued 0 "a:b" someNonce.text 5 (2 + Time.seconds 120) ∈ w.trace)) = true := by decide +kernel
  obtain ⟨w, hrun, hw⟩ := System.Run.of_exec_any hexec
  obtain ⟨hproc, hnone, hnow, hissued⟩ := of_decide_eq_true hw
  have hclean : ∀ scope nonce, (⟨0, fun _ => none⟩ : Server).keys (powKey scope nonce) = none := fun _ _ => rfl
  -- what the theorem promises of the world so far is the next step
  obtain ⟨m, hm, hnext⟩ := (challenges_single_use _ hclean tries hrun).redeemable _ _ _ _ _ hissued hnone 3 ⟨1, someNonce⟩ hproc
    (by decide) (by rw [hnow]; decide)
  have hfresh : Fresh w (3, ⟨1, someNonce⟩) := fun hdraws => by
    rw [hproc] at hdraws
    cases hdraws
  have hrun' := hrun.step hfresh (System.step_eq_some.2 ⟨m, hm, rfl⟩)
  exact ⟨_, by rw [System.proc_after_self, hnext], challenges_single_use _ hclean tries hrun'⟩

end TestingPlatform.Redis
