import TestingPlatform.Core.RateLimits
import TestingPlatform.Modules.Canonical

/-!
# The gates on asset verification

`domains/assets/dependencies.py` counts requests under keys of four kinds, and `enforce_rate_limit` of `core/security.py`
refuses what a window does not allow. No two gates share a key (`Gate.key_inj`), so a request spends the budget of its own
gate and of no other (`verification_windows_admit`).
-/

namespace TestingPlatform.Assets

open ReadCommitted Redis

variable {π : Type}

/-! ### Identifiers in keys -/

/-- `'%032x' % n`. -/
def hex32 (n : Nat) : List Char := ((Nat.digitsAppend 16 32 n).map Json.hexDigit).reverse

/-- `str(uuid)`. -/
def uuidText (id : Uuid) : List Char :=
  let hex := hex32 id.val
  hex.take 8 ++ '-' :: (hex.drop 8).take 4 ++ '-' :: (hex.drop 12).take 4 ++ '-' :: (hex.drop 16).take 4 ++ '-' :: hex.drop 20

section Identifiers
variable {n : Nat} {c : Char} {id id' : Uuid}

theorem hexDigit_ne : ∀ n < 16, Json.hexDigit n ≠ '-' ∧ Json.hexDigit n ≠ ':' := by decide

theorem hex32_ne (h : c ∈ hex32 n) : c ≠ '-' ∧ c ≠ ':' := by
  obtain ⟨d, hd, rfl⟩ := List.mem_map.1 (List.mem_reverse.1 h)
  exact hexDigit_ne d (Nat.lt_of_mem_digitsAppend (by decide) 32 d hd)

theorem ofDigits_hex32 (n : Nat) : Nat.ofDigits 16 ((hex32 n).reverse.map Json.hexValue) = n := by
  have hread : ((Nat.digitsAppend 16 32 n).map Json.hexDigit).map Json.hexValue = Nat.digitsAppend 16 32 n := by
    rw [List.map_map]
    refine (List.map_congr_left fun d hd => ?_).trans (List.map_id _)
    exact Json.hexValue_hexDigit d (Nat.lt_of_mem_digitsAppend (by decide) 32 d hd)
  rw [hex32, List.reverse_reverse, hread]
  exact (Nat.ofDigits_append_replicate_zero ..).trans (Nat.ofDigits_digits 16 n)

/-- Without the hyphens it is the digits again. -/
theorem filter_uuidText (id : Uuid) : (uuidText id).filter (· ≠ '-') = hex32 id.val := by
  have hkeep : ∀ part : List Char, part ⊆ hex32 id.val → part.filter (· ≠ '-') = part := fun part hpart =>
    List.filter_eq_self.2 fun c hc => by simpa using (hex32_ne (hpart hc)).1
  have hdrop : ∀ k, (hex32 id.val).drop k ⊆ hex32 id.val := fun k => List.drop_subset k _
  have htake : ∀ k, ((hex32 id.val).drop k).take 4 ⊆ hex32 id.val := fun k _ hc => hdrop k (List.take_subset 4 _ hc)
  have hjoin : ∀ k, ((hex32 id.val).drop k).take 4 ++ (hex32 id.val).drop (k + 4) = (hex32 id.val).drop k := fun k => by
    rw [← List.drop_drop, List.take_append_drop]
  simp only [uuidText, List.filter_append, List.filter_cons, ne_eq, not_true_eq_false, decide_false, Bool.false_eq_true, if_false]
  simp only [← ne_eq, hkeep _ (List.take_subset 8 _), hkeep _ (htake _), hkeep _ (hdrop _), List.append_assoc, hjoin]
  exact List.take_append_drop 8 _

theorem uuidText_inj (h : uuidText id = uuidText id') : id = id' := by
  have hhex : hex32 id.val = hex32 id'.val := by rw [← filter_uuidText, ← filter_uuidText, h]
  have hval : id.val = id'.val := by rw [← ofDigits_hex32 id.val, hhex, ofDigits_hex32]
  cases id
  cases id'
  exact congrArg Uuid.mk hval

theorem hyphen_mem_uuidText (id : Uuid) : '-' ∈ uuidText id := by simp [uuidText]

theorem colon_notMem_uuidText (id : Uuid) : ':' ∉ uuidText id := by
  intro hmem
  have hhex : ':' ∈ (uuidText id).filter (· ≠ '-') := List.mem_filter.2 ⟨hmem, by decide⟩
  rw [filter_uuidText] at hhex
  exact (hex32_ne hhex).2 rfl

end Identifiers

/-! ### Keys -/

/-- A gate, for the callers that share its budget. -/
inductive Gate where
  | challengeRateLimit (organizationId assetId : Uuid)
  | globalVerificationCap
  | orgVerificationCap (organizationId : Uuid)
  | checkRateLimit (organizationId assetId : Uuid)
  deriving DecidableEq, Repr

def Gate.key : Gate → String
  | challengeRateLimit organizationId assetId =>
    "assets:verification:" ++ String.ofList (uuidText organizationId) ++ ":" ++ String.ofList (uuidText assetId)
  | globalVerificationCap => "assets:verification:checks:global"
  | orgVerificationCap organizationId => "assets:verification:checks:org:" ++ String.ofList (uuidText organizationId)
  | checkRateLimit organizationId assetId =>
    "assets:verification:checks:" ++ String.ofList (uuidText organizationId) ++ ":" ++ String.ofList (uuidText assetId)

/-- What stands between the colons. -/
def Gate.parts : Gate → List (List Char)
  | challengeRateLimit organizationId assetId => ["assets".toList, "verification".toList, uuidText organizationId, uuidText assetId]
  | globalVerificationCap => ["assets".toList, "verification".toList, "checks".toList, "global".toList]
  | orgVerificationCap organizationId =>
    ["assets".toList, "verification".toList, "checks".toList, "org".toList, uuidText organizationId]
  | checkRateLimit organizationId assetId =>
    ["assets".toList, "verification".toList, "checks".toList, uuidText organizationId, uuidText assetId]

section Keys
variable {g g' : Gate} {id id' : Uuid}

theorem Gate.key_toList (g : Gate) : g.key.toList = [':'].intercalate g.parts := by
  cases g <;> unfold Gate.key Gate.parts <;> simp [List.intercalate_cons_cons]

theorem Gate.splitOn_key (g : Gate) : g.key.toList.splitOn ':' = g.parts := by
  rw [Gate.key_toList]
  refine List.splitOn_intercalate ':' ?_ (by cases g <;> simp [Gate.parts])
  cases g <;> simp [Gate.parts, colon_notMem_uuidText]

/-- A word of a key is not an identifier. -/
theorem uuidText_ne {word : List Char} (h : '-' ∉ word) : uuidText id ≠ word := fun heq => h (heq ▸ hyphen_mem_uuidText id)

theorem Gate.key_inj (h : g.key = g'.key) : g = g' := by
  have hparts : g.parts = g'.parts := by rw [← Gate.splitOn_key, h, Gate.splitOn_key]
  have hchecks : ∀ id, uuidText id ≠ "checks".toList := fun id => uuidText_ne (by decide)
  have horg : ∀ id, uuidText id ≠ "org".toList := fun id => uuidText_ne (by decide)
  cases g <;> cases g' <;> simp only [Gate.parts, List.cons.injEq, and_true, true_and, reduceCtorEq, and_false] at hparts
  case challengeRateLimit.challengeRateLimit => rw [uuidText_inj hparts.1, uuidText_inj hparts.2]
  case challengeRateLimit.globalVerificationCap organizationId _ => exact absurd hparts.1 (hchecks organizationId)
  case globalVerificationCap.challengeRateLimit organizationId _ => exact absurd hparts.1.symm (hchecks organizationId)
  case globalVerificationCap.globalVerificationCap => rfl
  case orgVerificationCap.orgVerificationCap => rw [uuidText_inj hparts]
  case orgVerificationCap.checkRateLimit _ organizationId _ => exact absurd hparts.1.symm (horg organizationId)
  case checkRateLimit.orgVerificationCap organizationId _ _ => exact absurd hparts.1 (horg organizationId)
  case checkRateLimit.checkRateLimit => rw [uuidText_inj hparts.1, uuidText_inj hparts.2]

end Keys

/-! ### Budgets -/

structure RateSettings where
  verificationChallengeRateLimit : Int
  verificationChallengeRateWindowSeconds : Int
  verificationGlobalRateLimit : Int
  verificationGlobalRateWindowSeconds : Int
  verificationOrgRateLimit : Int
  verificationOrgRateWindowSeconds : Int
  verificationCheckRateLimit : Int
  verificationCheckRateWindowSeconds : Int
  challenge_pos : 1 ≤ verificationChallengeRateLimit ∧ 1 ≤ verificationChallengeRateWindowSeconds
  global_pos : 1 ≤ verificationGlobalRateLimit ∧ 1 ≤ verificationGlobalRateWindowSeconds
  org_pos : 1 ≤ verificationOrgRateLimit ∧ 1 ≤ verificationOrgRateWindowSeconds
  check_pos : 1 ≤ verificationCheckRateLimit ∧ 1 ≤ verificationCheckRateWindowSeconds

/-- The defaults of `Settings`. -/
def RateSettings.default : RateSettings where
  verificationChallengeRateLimit := 10
  verificationChallengeRateWindowSeconds := 300
  verificationGlobalRateLimit := 600
  verificationGlobalRateWindowSeconds := 60
  verificationOrgRateLimit := 60
  verificationOrgRateWindowSeconds := 60
  verificationCheckRateLimit := 10
  verificationCheckRateWindowSeconds := 300
  challenge_pos := by decide
  global_pos := by decide
  org_pos := by decide
  check_pos := by decide

namespace Gate
variable (s : RateSettings)

def limit : Gate → Int
  | challengeRateLimit .. => s.verificationChallengeRateLimit
  | globalVerificationCap => s.verificationGlobalRateLimit
  | orgVerificationCap _ => s.verificationOrgRateLimit
  | checkRateLimit .. => s.verificationCheckRateLimit

def windowSeconds : Gate → Int
  | challengeRateLimit .. => s.verificationChallengeRateWindowSeconds
  | globalVerificationCap => s.verificationGlobalRateWindowSeconds
  | orgVerificationCap _ => s.verificationOrgRateWindowSeconds
  | checkRateLimit .. => s.verificationCheckRateWindowSeconds

/-- The call of `consume` that the gate makes. -/
def call (g : Gate) : Call := .consume g.key (g.limit s) (g.windowSeconds s)

theorem limit_pos (g : Gate) : 1 ≤ g.limit s ∧ 1 ≤ g.windowSeconds s := by
  cases g
  exacts [s.challenge_pos, s.global_pos, s.org_pos, s.check_pos]

end Gate

structure HttpException where
  statusCode : Nat
  detail : String
  headers : List (String × String)
  deriving DecidableEq, Repr

/-- `enforce_rate_limit`, on what `consume` has returned; without an answer the request goes through. -/
def enforceRateLimit (windowSeconds : Int) : Result → Except HttpException Unit
  | .decision d =>
    if d.allowed then .ok ()
    else .error ⟨429, "Too many requests; retry after the window resets.", [
      ("RateLimit", "limit=" ++ d.limit.repr ++ ", remaining=" ++ d.remaining.repr ++ ", reset=" ++ d.resetSeconds.repr),
      ("RateLimit-Policy", d.limit.repr ++ ";w=" ++ windowSeconds.repr),
      ("Retry-After", d.resetSeconds.repr)]⟩
  | _ => .ok ()

/-! ### Every run -/

/-- No gate spends the budget of another, and it refuses what comes after the first requests of a window. -/
structure Gated [DecidableEq π] (s : RateSettings) (calls : π → Call) (w : Clients π) : Prop where
  distinct : ∀ g g' : Gate, g ≠ g' → g.key ≠ g'.key
  untouched : ∀ g g' : Gate, g ≠ g' → ∀ d limit windowSeconds,
    (consume d g.key limit windowSeconds).2.keys (rateKey g'.key) = d.keys (rateKey g'.key)
  own : ∀ i (g : Gate) c, calls i = g.call s → .counted i c ∈ w.trace → ∀ g' : Gate, c ∈ countedOf g'.key w.trace → g' = g
  refused : ∀ i (g : Gate) r, calls i = g.call s → w.proc i = .returned i r →
    ((∃ exc, enforceRateLimit (g.windowSeconds s) r = .error exc) ↔
      ∃ c ∈ countedOf g.key w.trace, .counted i c ∈ w.trace ∧ g.limit s < c.count)

section Gated
variable {s : RateSettings} {g g' : Gate} {r : Result} {i : π} {decision : RateLimitDecision}

theorem Gate.consume_frame (h : g ≠ g') (d : Server) (limit windowSeconds : Int) :
    (consume d g.key limit windowSeconds).2.keys (rateKey g'.key) = d.keys (rateKey g'.key) :=
  (Redis.consume_frame (r := (consume d g.key limit windowSeconds).1) rfl).2 _ fun heq => h (Gate.key_inj (rateKey_inj heq)).symm

theorem enforceRateLimit_eq_error {windowSeconds : Int} :
    (∃ exc, enforceRateLimit windowSeconds (.decision decision) = .error exc) ↔ decision.allowed = false := by
  cases h : decision.allowed <;> simp [enforceRateLimit, h]

variable [DecidableEq π] {calls : π → Call} {limits windows : String → Int} {w : Clients π}

theorem refused_iff (h : Limited calls limits windows w) (hlimit : g.limit s = limits g.key) (hcall : calls i = g.call s)
    (hproc : w.proc i = .returned i r) : (∃ exc, enforceRateLimit (g.windowSeconds s) r = .error exc) ↔
      ∃ c ∈ countedOf g.key w.trace, .counted i c ∈ w.trace ∧ g.limit s < c.count := by
  rcases h.answered i g.key (g.limit s) (g.windowSeconds s) r hcall hproc with ⟨c, hkey, hevents, rfl⟩ | ⟨hevents, -, exc, rfl⟩
  · have hmem : .counted i c ∈ w.trace := (List.mem_filter.1 (hevents ▸ List.mem_singleton_self _)).1
    have hcounted : c ∈ countedOf g.key w.trace := mem_countedOf.2 ⟨⟨i, hmem⟩, hkey⟩
    have hallowed := ((h.admits g.key).decided c hcounted).1
    rw [enforceRateLimit_eq_error, hallowed, decide_eq_false_iff_not, not_le, hlimit]
    refine ⟨fun hlt => ⟨c, hcounted, hmem, hlt⟩, ?_⟩
    rintro ⟨c', -, hmem', hlt⟩
    have hsame : .counted i c' ∈ eventsOf i w.trace := mem_eventsOf hmem'
    rw [hevents] at hsame
    cases List.mem_singleton.1 hsame
    exact hlt
  · constructor
    · rintro ⟨exc', hexc⟩
      cases hexc
    · rintro ⟨c, -, hmem, -⟩
      have hnone : .counted i c ∈ eventsOf i w.trace := mem_eventsOf hmem
      rw [hevents] at hnone
      cases hnone

theorem gated_of_limited (h : Limited calls limits windows w) (hfixed : Fixed calls limits windows)
    (htold : ∀ i, Told i (calls i) (w.proc i) (eventsOf i w.trace)) (s : RateSettings) : Gated s calls w where
  distinct g g' hne hkey := hne (Gate.key_inj hkey)
  untouched g g' hne := Gate.consume_frame hne
  own i g c hcall hmem g' hcounted := by
    have hkey : c.key = g.key := (hcall ▸ htold i).counted_key (mem_eventsOf hmem)
    exact Gate.key_inj ((mem_countedOf.1 hcounted).2.symm.trans hkey)
  refused i g r hcall hproc := refused_iff h (hfixed i g.key _ _ hcall).1 hcall hproc

end Gated

/-- The windows of `consume` admit what they say, in every run, and the gates on verification do not share any. -/
theorem verification_windows_admit [DecidableEq π] (s : RateSettings) (d : Server) (hclean : ∀ key, d.keys (rateKey key) = none)
    (calls : π → Call) {limits windows : String → Int} (hfixed : Fixed calls limits windows) (hlimits : ∀ key, 1 ≤ limits key)
    (hwindows : ∀ key, 1 ≤ windows key) {w : Clients π} (hrun : (clients π).Run (fun _ _ => True) (Clients.start d calls) w) :
    Limited calls limits windows w ∧ Gated s calls w := by
  have hmetered := metered_of_run d hclean calls hfixed hwindows hrun
  have hlimited := hmetered.limited (fun key => Int.le_of_lt (hlimits key)) hwindows
  exact ⟨hlimited, gated_of_limited hlimited hfixed hmetered.told s⟩

/-- A limit for each key, that of its gate if there is one. -/
theorem gates_fixed (π : Type) (s : RateSettings) : ∃ limits windows : String → Int, (∀ key, 1 ≤ limits key ∧ 1 ≤ windows key) ∧
    ∀ gates : π → Gate, Fixed (fun i => (gates i).call s) limits windows := by
  classical
  have hgate : ∀ key, ∃ g : Gate, (∃ g' : Gate, g'.key = key) → g.key = key := by
    intro key
    by_cases h : ∃ g' : Gate, g'.key = key
    · exact h.imp fun _ hkey _ => hkey
    · exact ⟨.globalVerificationCap, fun h' => absurd h' h⟩
  choose gateOf hgateOf using hgate
  refine ⟨fun key => (gateOf key).limit s, fun key => (gateOf key).windowSeconds s, fun key => (gateOf key).limit_pos s, ?_⟩
  intro gates i key limit windowSeconds hcall
  cases hcall
  have hsame : gateOf (gates i).key = gates i := Gate.key_inj (hgateOf _ ⟨gates i, rfl⟩)
  exact ⟨(congrArg (Gate.limit s) hsame).symm, (congrArg (Gate.windowSeconds s) hsame).symm⟩

/-- Two organizations check assets of one id, and the first issues a challenge too. -/
def gatesPassed : Nat → Gate
  | 0 => .challengeRateLimit 1 7
  | 1 => .checkRateLimit 1 7
  | 2 => .orgVerificationCap 1
  | 3 => .globalVerificationCap
  | _ => .checkRateLimit 2 7

theorem verification_windows_admit_gates : ∃ (limits windows : String → Int) (w : Clients Nat),
    w.trace.length = 5 ∧ (∀ c ∈ w.trace.filterMap Event.counted?, c.count = 1) ∧
      Limited (fun i => (gatesPassed i).call .default) limits windows w ∧ Gated .default (fun i => (gatesPassed i).call .default) w := by
  have hexec : ((clients Nat).exec (fun _ _ => True) (Clients.start ⟨0, fun _ => none⟩ fun i => (gatesPassed i).call .default)
      ([0, 1, 2, 3, 4].map fun i => (i, ⟨1, someNonce⟩))).any (fun w => decide
        (w.trace.length = 5 ∧ ∀ c ∈ w.trace.filterMap Event.counted?, c.count = 1)) = true := by decide +kernel
  obtain ⟨w, hrun, hw⟩ := System.Run.of_exec_any hexec
  obtain ⟨limits, windows, hpos, hfixed⟩ := gates_fixed Nat .default
  exact ⟨limits, windows, w, (of_decide_eq_true hw).1, (of_decide_eq_true hw).2,
    verification_windows_admit .default _ (fun _ => rfl) _ (hfixed gatesPassed) (fun key => (hpos key).1) (fun key => (hpos key).2) hrun⟩

end TestingPlatform.Assets
