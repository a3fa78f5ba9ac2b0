import TestingPlatform.Core.Basic
import TestingPlatform.Lib.ReadCommitted

/-!
# Redis primitives

`core/redis_utils.py` over the keyspace of a Redis server. A command is atomic, and so is the transaction of `consume`; a
key is gone from the instant of its expiry on. The calls of all processes run one command at a time; in between a challenge
has been drawn and is not stored yet. A cached document is the text that `json.dumps` has written.
-/

namespace TestingPlatform.Redis

open ReadCommitted

/-! ### The server -/

structure Entry where
  value : String
  expiresAt : Option Time
  deriving DecidableEq, Repr

structure Server where
  now : Time
  keys : String → Option Entry

/-- A counter has 64 bits: this is `2^63 - 1`. -/
def maxInteger : Int := 9223372036854775807

namespace Server
variable (d : Server)

def get (key : String) : Option Entry := (d.keys key).filter fun e => e.expiresAt.all fun t => d.now < t

def put (key : String) (e : Option Entry) : Server := { d with keys := Function.update d.keys key e }

/-- `SET key value EX seconds`; the expiry has to lie ahead. -/
def setEx (key value : String) (seconds : Int) : Except String Server :=
  if seconds ≤ 0 then .error "invalid expire time in 'set' command"
  else .ok (d.put key (some ⟨value, some (d.now + Time.seconds seconds)⟩))

def getDel (key : String) : Option String × Server := ((d.get key).map (·.value), d.put key none)

/-- `INCR`: a key that is missing counts from 0, and an expiry stays. -/
def incr (key : String) : Except String (Int × Server) :=
  match d.get key with
  | none => .ok (1, d.put key (some ⟨Int.repr 1, none⟩))
  | some e =>
    match e.value.toInt? with
    | none => .error "value is not an integer or out of range"
    | some n =>
      if maxInteger ≤ n then .error "increment or decrement would overflow"
      else .ok (n + 1, d.put key (some ⟨Int.repr (n + 1), e.expiresAt⟩))

/-- `EXPIRE key seconds NX`: an expiry that is set is left alone, and one that does not lie ahead deletes the key. -/
def expireNx (key : String) (seconds : Int) : Server :=
  match d.get key with
  | some ⟨value, none⟩ => d.put key (if seconds ≤ 0 then none else some ⟨value, some (d.now + Time.seconds seconds)⟩)
  | _ => d

/-- `TTL`, in seconds to the nearest. -/
def ttl (key : String) : Int :=
  match d.get key with
  | none => -2
  | some ⟨_, none⟩ => -1
  | some ⟨_, some t⟩ => (t - d.now + 500000) / 1000000

end Server

namespace Server
variable {d : Server} {key key' : String} {e : Option Entry}

@[simp] theorem keys_put_self : (d.put key e).keys key = e := Function.update_self ..

theorem keys_put_of_ne (h : key' ≠ key) : (d.put key e).keys key' = d.keys key' := Function.update_of_ne h ..

@[simp] theorem now_put : (d.put key e).now = d.now := rfl

theorem get_eq_some {e : Entry} : d.get key = some e ↔ d.keys key = some e ∧ ∀ t, e.expiresAt = some t → d.now < t := by
  rw [get, Option.filter_eq_some_iff]
  cases e.expiresAt <;> simp

end Server

/-! ### Keys -/

def rateKey (key : String) : String := "ratelimit:" ++ key
def powKey (scope nonce : String) : String := "pow:" ++ scope ++ ":" ++ nonce
def cacheKey (key : String) : String := "cache:" ++ key

/-- `_NONCE_RE.fullmatch`. -/
def isNonce (nonce : String) : Bool :=
  nonce.toList.length = 32 && nonce.toList.all fun c => ('0' ≤ c && c ≤ '9') || ('a' ≤ c && c ≤ 'f')

/-- What `secrets.token_hex(16)` draws. -/
structure Nonce where
  text : String
  hex : isNonce text = true
  deriving DecidableEq

def someNonce : Nonce := ⟨"0123456789abcdef0123456789abcdef", by decide +kernel⟩

theorem powKey_toList (scope nonce : String) : (powKey scope nonce).toList = 'p' :: 'o' :: 'w' :: ':' :: (scope.toList ++ ':' :: nonce.toList) := by
  simp [powKey]

/-- Whatever the scopes are: the nonce is what is behind the last of the separators that can be one. -/
theorem powKey_inj {scope scope' nonce nonce' : String} (hn : isNonce nonce = true) (hn' : isNonce nonce' = true)
    (h : powKey scope nonce = powKey scope' nonce') : scope = scope' ∧ nonce = nonce' := by
  have hlist := congrArg String.toList h
  rw [powKey_toList, powKey_toList] at hlist
  simp only [isNonce, Bool.and_eq_true, decide_eq_true_eq] at hn hn'
  obtain ⟨hscope, hnonce⟩ := List.append_inj' (by simpa using hlist) (by simp only [List.length_cons, hn.1, hn'.1])
  exact ⟨String.toList_injective hscope, String.toList_injective (List.cons.inj hnonce).2⟩

theorem rateKey_inj {key key' : String} (h : rateKey key = rateKey key') : key = key' := by
  have hlist := congrArg String.toList h
  simp only [rateKey, String.toList_append, List.append_cancel_left_eq] at hlist
  exact String.toList_injective hlist

theorem rateKey_ne_powKey (key scope nonce : String) : rateKey key ≠ powKey scope nonce := by
  intro h
  have hlist := congrArg String.toList h
  simp [rateKey, powKey_toList] at hlist

theorem cacheKey_ne_powKey (key scope nonce : String) : cacheKey key ≠ powKey scope nonce := by
  intro h
  have hlist := congrArg String.toList h
  simp [cacheKey, powKey_toList] at hlist

theorem cacheKey_ne_rateKey (key key' : String) : cacheKey key ≠ rateKey key' := by
  intro h
  have hlist := congrArg String.toList h
  simp [cacheKey, rateKey] at hlist

/-! ### Calls -/

structure RateLimitDecision where
  allowed : Bool
  limit : Int
  remaining : Int
  resetSeconds : Int
  deriving DecidableEq, Repr

structure PowChallenge where
  nonce : String
  difficulty : Int
  ttlSeconds : Int
  deriving DecidableEq, Repr

inductive Call where
  | consume (key : String) (limit windowSeconds : Int)
  | issueChallenge (scope : String) (difficulty ttlSeconds : Int)
  | verifyAndConsume (scope nonce : String)
  | getJson (key : String)
  | setJson (key document : String) (ttlSeconds : Int)
  deriving DecidableEq, Repr

inductive Result where
  | decision (d : RateLimitDecision)
  | challenge (c : PowChallenge)
  | redeemed (difficulty : Option Int)
  | document (raw : Option String)
  | stored
  | raised (exc : String)
  deriving DecidableEq, Repr

/-- One request that has been counted. -/
structure Counted where
  key : String
  time : Time
  count : Int
  /-- The instant at which the key will be gone. -/
  expires : Time
  decision : RateLimitDecision
  deriving DecidableEq, Repr

/-- The expiry of a key that is there. -/
def Server.expiry (d : Server) (key : String) : Time := ((d.get key).bind fun e => e.expiresAt).getD d.now

/-- `consume`: the three commands of the transaction, and the decision on their answers. -/
def consume (d : Server) (key : String) (limit windowSeconds : Int) : Except String Counted × Server :=
  match d.incr (rateKey key) with
  -- a command that fails does not keep the next ones from running
  | .error exc => (.error exc, d.expireNx (rateKey key) windowSeconds)
  | .ok (count, d) =>
    let d := d.expireNx (rateKey key) windowSeconds
    let ttl := d.ttl (rateKey key)
    (.ok ⟨key, d.now, count, d.expiry (rateKey key), ⟨count ≤ limit, limit, max 0 (limit - count), max 0 ttl⟩⟩, d)

section Consume
variable {d d' : Server} {key : String} {limit windowSeconds : Int} {c : Counted} {r : Except String Counted}

theorem consume_key (h : consume d key limit windowSeconds = (.ok c, d')) : c.key = key := by
  unfold consume at h
  split at h
  · cases h
  · cases h
    rfl

theorem Server.expireNx_frame (d : Server) (key : String) (seconds : Int) :
    (d.expireNx key seconds).now = d.now ∧ ∀ k, k ≠ key → (d.expireNx key seconds).keys k = d.keys k := by
  unfold Server.expireNx
  split
  · exact ⟨rfl, fun k hk => Server.keys_put_of_ne hk⟩
  · exact ⟨rfl, fun _ _ => rfl⟩

theorem Server.incr_frame {n : Int} (h : d.incr key = .ok (n, d')) : d'.now = d.now ∧ ∀ k, k ≠ key → d'.keys k = d.keys k := by
  unfold Server.incr at h
  split at h
  · cases h
    exact ⟨rfl, fun k hk => Server.keys_put_of_ne hk⟩
  · split at h
    · cases h
    · split at h
      · cases h
      · cases h
        exact ⟨rfl, fun k hk => Server.keys_put_of_ne hk⟩

/-- The transaction changes its own key only. -/
theorem consume_frame (h : consume d key limit windowSeconds = (r, d')) : d'.now = d.now ∧ ∀ k, k ≠ rateKey key → d'.keys k = d.keys k := by
  unfold consume at h
  split at h
  · cases h
    exact d.expireNx_frame (rateKey key) windowSeconds
  next n d₁ hok =>
    cases h
    obtain ⟨hnow, hkeys⟩ := Server.incr_frame hok
    obtain ⟨hnow', hkeys'⟩ := d₁.expireNx_frame (rateKey key) windowSeconds
    exact ⟨hnow'.trans hnow, fun k hk => (hkeys' k hk).trans (hkeys k hk)⟩

end Consume

variable {π : Type}

/-- Where a call is, and which one it is. -/
inductive Proc (π : Type) where
  | called (self : π) (c : Call)
  /-- The nonce is drawn. -/
  | issuing (self : π) (scope nonce : String) (difficulty ttlSeconds : Int)
  /-- The nonce is well formed. -/
  | redeeming (self : π) (scope nonce : String)
  | returned (self : π) (r : Result)
  deriving DecidableEq

inductive Event (π : Type) where
  | counted (self : π) (c : Counted)
  | drawn (self : π) (nonce : String)
  | issued (self : π) (scope nonce : String) (difficulty : Int) (expires : Time)
  | redeemed (self : π) (scope nonce : String) (difficulty : Int) (time : Time)
  deriving DecidableEq

structure Choice where
  elapsed : Time
  /-- What `secrets.token_hex(16)` draws. -/
  nonce : Nonce

abbrev Step (π : Type) := Move Empty Server (Proc π) (Event π)

def goOn (d : Server) (next : Proc π) (emit : List (Event π) := []) : Step π := { op := .commit [d], next, emit }

/-- The next statement of a call; `d` has the clock that it sees. -/
def go (d : Server) (p : Proc π) (ch : Choice) : Option (Step π) :=
  match p with
  | .called self (.consume key limit windowSeconds) =>
    match consume d key limit windowSeconds with
    | (.error exc, d) => some (goOn d (.returned self (.raised exc)))
    | (.ok c, d) => some (goOn d (.returned self (.decision c.decision)) [.counted self c])
  | .called self (.issueChallenge scope difficulty ttlSeconds) =>
    some (goOn d (.issuing self scope ch.nonce.text difficulty ttlSeconds) [.drawn self ch.nonce.text])
  | .issuing self scope nonce difficulty ttlSeconds =>
    match d.setEx (powKey scope nonce) (Int.repr difficulty) ttlSeconds with
    | .error exc => some (goOn d (.returned self (.raised exc)))
    | .ok d' => some (goOn d' (.returned self (.challenge ⟨nonce, difficulty, ttlSeconds⟩))
        [.issued self scope nonce difficulty (d.now + Time.seconds ttlSeconds)])
  | .called self (.verifyAndConsume scope nonce) =>
    some (goOn d (if isNonce nonce = false then .returned self (.redeemed none) else .redeeming self scope nonce))
  | .redeeming self scope nonce =>
    match d.getDel (powKey scope nonce) with
    | (none, d) => some (goOn d (.returned self (.redeemed none)))
    | (some value, d) =>
      -- `int(value)`
      match value.toInt? with
      | none => some (goOn d (.returned self (.raised "ValueError")))
      | some difficulty => some (goOn d (.returned self (.redeemed (some difficulty)))
          [.redeemed self scope nonce difficulty d.now])
  | .called self (.getJson key) => some (goOn d (.returned self (.document ((d.get (cacheKey key)).map (·.value)))))
  | .called self (.setJson key document ttlSeconds) =>
    match d.setEx (cacheKey key) document ttlSeconds with
    | .error exc => some (goOn d (.returned self (.raised exc)))
    | .ok d => some (goOn d (.returned self .stored))
  | .returned .. => none

def Server.tick (d : Server) (elapsed : Time) : Server := { d with now := d.now + elapsed }

/-- The server's clock does not go back. -/
def clients (π : Type) : System Empty Server Server (Proc π) Choice (Event π) where
  write _ d := d
  move d p ch := if ch.elapsed < 0 then none else go (d.tick ch.elapsed) p ch

abbrev Clients (π : Type) := World π Empty Server (Proc π) (Event π)

def Clients.start (d : Server) (calls : π → Call) : Clients π where
  db := d
  owner _ := none
  proc i := .called i (calls i)
  trace := []

end TestingPlatform.Redis
