import TestingPlatform.Core.RedisSteps
import TestingPlatform.Lib.FixedWindow

/-!
# The fixed windows of `consume`

The requests counted under a key form windows (`Windows`): a request while the key is there joins the window of the one
before it, any other starts a window of its own. What the windows admit follows from that (`Windows.admits`), and the keys
of a server are counted so in every run (`metered_of_run`).
-/

namespace TestingPlatform.Redis

open ReadCommitted FixedWindow

variable {π : Type}

/-! ### Windows -/

/-- The request after `prev`: it is the next of its window, or the first of another. -/
def Follows (W : Time) (prev : Option Counted) (c : Counted) : Prop :=
  match prev with
  | none => c.count = 1 ∧ c.expires = c.time + W
  | some p => if c.time < p.expires then c.count = p.count + 1 ∧ c.expires = p.expires else c.count = 1 ∧ c.expires = c.time + W

/-- The requests counted under a key, oldest first. -/
inductive Windows (W : Time) : List Counted → Prop
  | nil : Windows W []
  | snoc {cs : List Counted} {c : Counted} (h : Windows W cs) (hnext : Follows W cs.getLast? c) (htime : ∀ p ∈ cs, p.time ≤ c.time) :
      Windows W (cs ++ [c])

/-- A request, charged to the window that it falls into. -/
def Counted.charge (W : Time) (c : Counted) : Charge Time := ⟨c.expires - W, c.time, 1⟩

/-- The requests of the window that starts at `start`. -/
def callsIn (W start : Time) (cs : List Counted) : List Counted := cs.filter fun c => c.expires - W = start

section Windows
variable {W start : Time} {cs cs' : List Counted} {c p : Counted}

theorem callsIn_concat : callsIn W start (cs ++ [c]) = callsIn W start cs ++ if c.expires - W = start then [c] else [] := by
  rw [callsIn, List.filter_append]
  by_cases hstart : c.expires - W = start <;> simp [callsIn, hstart]

theorem total_charges (cs : List Counted) : total (cs.map (Counted.charge W)) = cs.length := by
  induction cs with
  | nil => rfl
  | cons c cs ih =>
    simp only [total, List.map_cons, List.sum_cons, List.length_cons] at ih ⊢
    rw [ih, Counted.charge, Nat.add_comm]

theorem inWindow_charges : inWindow start (cs.map (Counted.charge W)) = (callsIn W start cs).map (Counted.charge W) := by
  rw [inWindow, List.filter_map]
  rfl

theorem total_inWindow_charges : total (inWindow start (cs.map (Counted.charge W))) = (callsIn W start cs).length := by
  rw [inWindow_charges, total_charges]

/-- The window of the last request, as a counter sees it. -/
def Counted.window (W : Time) (c : Counted) : Window Time := ⟨c.expires - W, c.count.toNat⟩

theorem tracks_opens (hW : 0 < W) (h : Tracks W ⟨c.time, 0⟩ (cs.map (Counted.charge W))) (hcount : c.count = 1)
    (hexpires : c.expires = c.time + W) : Tracks W (c.window W) ((cs ++ [c]).map (Counted.charge W)) := by
  have hstart : c.expires - W = c.time := by rw [hexpires, add_sub_cancel_right]
  have hcharge := h.charge le_rfl (lt_add_of_pos_right c.time hW) 1
  have hwindow : c.window W = (⟨c.time, 0⟩ : Window Time).take 1 := by simp [Counted.window, Window.take, hstart, hcount]
  have hlast : c.charge W = ⟨c.time, c.time, 1⟩ := by simp [Counted.charge, hstart]
  rwa [hwindow, List.map_append, List.map_singleton, hlast]

theorem Windows.tracks (hW : 0 < W) (h : Windows W cs) (hlast : cs.getLast? = some c) :
    Tracks W (c.window W) (cs.map (Counted.charge W)) ∧ c.expires - W ≤ c.time ∧ 1 ≤ c.count := by
  induction h generalizing c with
  | nil => cases hlast
  | @snoc cs c' h hnext htime ih =>
    obtain rfl : c' = c := by simpa using hlast
    have hopens : ∀ hfirst : c'.count = 1 ∧ c'.expires = c'.time + W, Tracks W ⟨c'.time, 0⟩ (cs.map (Counted.charge W)) →
        Tracks W (c'.window W) ((cs ++ [c']).map (Counted.charge W)) ∧ c'.expires - W ≤ c'.time ∧ 1 ≤ c'.count := by
      rintro ⟨hcount, hexpires⟩ hempty
      exact ⟨tracks_opens hW hempty hcount hexpires, by rw [hexpires, add_sub_cancel_right], hcount.ge⟩
    cases hprev : cs.getLast? with
    | none =>
      rw [hprev] at hnext
      obtain rfl : cs = [] := List.getLast?_eq_none_iff.1 hprev
      exact hopens hnext (.nil W c'.time)
    | some p =>
      rw [hprev] at hnext
      obtain ⟨htracks, hstart, hpos⟩ := ih hprev
      have hle : p.time ≤ c'.time := htime p (List.mem_of_getLast? hprev)
      simp only [Follows] at hnext
      split at hnext
      next hopen =>
        -- the window is open, and the counter goes on
        obtain ⟨hcount, hexpires⟩ := hnext
        have hcharge := htracks.charge (hstart.trans hle) (by simpa [Counted.window] using hopen) 1
        have hwindow : c'.window W = (p.window W).take 1 := by
          simp only [Counted.window, Window.take, hcount, hexpires, Window.mk.injEq, true_and]
          omega
        have hlast : c'.charge W = ⟨(p.window W).start, c'.time, 1⟩ := by simp [Counted.charge, Counted.window, hexpires]
        refine ⟨?_, by rw [hexpires]; exact hstart.trans hle, by omega⟩
        rwa [hwindow, List.map_append, List.map_singleton, hlast]
      next hover =>
        have hat : (p.window W).at W c'.time = ⟨c'.time, 0⟩ := by
          simp only [Window.at, Counted.window, sub_add_cancel]
          exact if_pos (not_lt.1 hover)
        exact hopens hnext (hat ▸ htracks.at hW c'.time)

theorem Windows.of_append (h : Windows W (cs ++ cs')) : Windows W cs := by
  induction cs' using List.reverseRecOn with
  | nil => rwa [List.append_nil] at h
  | append_singleton cs' c ih =>
    rw [← List.append_assoc] at h
    generalize hall : cs ++ cs' ++ [c] = ds at h
    cases h with
    | nil => simp at hall
    | snoc h => exact ih (by rwa [(List.append_inj' hall rfl).1])

/-- Whatever window it falls into, a request is the next one there. -/
theorem Windows.count_eq (hW : 0 < W) (h : Windows W (cs ++ [c])) : c.count = (callsIn W (c.expires - W) cs).length + 1 := by
  obtain ⟨htracks, -, hpos⟩ := h.tracks hW List.getLast?_concat
  have hcurrent : (callsIn W (c.expires - W) (cs ++ [c])).length = c.count.toNat := by
    rw [← total_inWindow_charges]
    exact htracks.current
  rw [callsIn_concat, if_pos rfl, List.length_append, List.length_singleton] at hcurrent
  omega

theorem Windows.windowed (hW : 0 < W) (h : Windows W cs) : Windowed W (cs.map (Counted.charge W)) := by
  cases hlast : cs.getLast? with
  | none =>
    rw [List.getLast?_eq_none_iff.1 hlast]
    exact (Tracks.nil W 0).windowed
  | some c => exact (h.tracks hW hlast).1.windowed

/-- The counter goes past the limit, so the requests it admits come first. -/
theorem Windows.filter_allowed (hW : 0 < W) (h : Windows W cs) {limit : Int}
    (hallowed : ∀ c ∈ cs, c.decision.allowed = decide (c.count ≤ limit)) (start : Time) :
    (callsIn W start cs).filter (·.decision.allowed) = (callsIn W start cs).take limit.toNat := by
  induction h with
  | nil => simp [callsIn]
  | @snoc cs c h hnext htime ih =>
    have ih := ih fun c' hc' => hallowed c' (List.mem_append_left _ hc')
    have hlast := hallowed c (List.mem_append_right _ (List.mem_singleton_self c))
    have hcount := (Windows.snoc h hnext htime).count_eq hW
    rw [callsIn_concat]
    by_cases hstart : c.expires - W = start
    · rw [hstart] at hcount
      rw [if_pos hstart, List.filter_append, ih, List.filter_singleton, hlast]
      by_cases hle : c.count ≤ limit
      · rw [List.take_of_length_le (by omega), List.take_of_length_le (by rw [List.length_append, List.length_singleton]; omega)]
        simp [hle]
      · rw [List.take_append_of_le_length (by omega)]
        simp [hle]
    · rw [if_neg hstart, List.append_nil, ih]

end Windows

/-! ### What the windows admit -/

/-- The requests that are allowed from `a` to `b`. -/
def allowedWithin (a b : Time) (cs : List Counted) : List Counted :=
  (cs.filter (·.decision.allowed)).filter fun c => a ≤ c.time ∧ c.time ≤ b

/-- A decision says what the counter says. -/
def Decided (limit : Int) (c : Counted) : Prop :=
  c.decision.allowed = decide (c.count ≤ limit) ∧ c.decision.limit = limit ∧ c.decision.remaining = max 0 (limit - c.count)

/-- What a limit for each window means for the requests counted under a key. -/
structure Admits (limit : Int) (W : Time) (cs : List Counted) : Prop where
  windows : Windows W cs
  inside : ∀ c ∈ cs, c.expires - W ≤ c.time ∧ c.time < c.expires
  counts : ∀ before c after, cs = before ++ c :: after → c.count = ((callsIn W (c.expires - W) before).length : Int) + 1
  decided : ∀ c ∈ cs, Decided limit c
  first : ∀ start, (callsIn W start cs).filter (·.decision.allowed) = (callsIn W start cs).take limit.toNat
  perWindow : ∀ start, (((callsIn W start cs).filter (·.decision.allowed)).length : Int) ≤ limit
  anyInterval : ∀ a b, b - a < W → ((allowedWithin a b cs).length : Int) ≤ 2 * limit

theorem Windows.admits {W : Time} {cs : List Counted} {limit : Int} (h : Windows W cs) (hW : 0 < W) (hlimit : 0 ≤ limit)
    (hdecided : ∀ c ∈ cs, Decided limit c) : Admits limit W cs := by
  have hfirst := h.filter_allowed hW fun c hc => (hdecided c hc).1
  have hper : ∀ start, (((callsIn W start cs).filter (·.decision.allowed)).length : Int) ≤ limit := by
    intro start
    rw [hfirst, List.length_take]
    omega
  constructor
  · exact h
  · intro c hc
    have hinside := (h.windowed hW).inside _ (List.mem_map_of_mem hc)
    simpa [Counted.charge] using hinside
  · intro before c after hcs
    rw [hcs, List.append_cons] at h
    exact h.of_append.count_eq hW
  · exact hdecided
  · exact hfirst
  · exact hper
  · intro a b hab
    -- only what is allowed is charged
    have hsub : ((cs.filter (·.decision.allowed)).map (Counted.charge W)).Sublist (cs.map (Counted.charge W)) := List.filter_sublist.map _
    have hL : ∀ start, total (inWindow start ((cs.filter (·.decision.allowed)).map (Counted.charge W))) ≤ limit.toNat := by
      intro start
      rw [total_inWindow_charges, callsIn, List.filter_filter]
      have hle := hper start
      rw [callsIn, List.filter_filter] at hle
      simp only [Bool.and_comm] at hle ⊢
      omega
    have hwithin := ((h.windowed hW).sublist hsub).within_le hL (lt_add_of_sub_left_lt hab)
    have hsame : within a b ((cs.filter (·.decision.allowed)).map (Counted.charge W)) = (allowedWithin a b cs).map (Counted.charge W) := by
      rw [within, List.filter_map]
      rfl
    rw [hsame, total_charges] at hwithin
    omega

/-! ### The transaction -/

namespace Server
variable {d : Server} {key value : String} {e : Entry} {seconds : Int} {t : Time}

theorem get_put_self (h : ∀ t, e.expiresAt = some t → d.now < t) : (d.put key (some e)).get key = some e :=
  get_eq_some.2 ⟨keys_put_self, h⟩

@[simp] theorem put_put (e e' : Option Entry) : (d.put key e).put key e' = d.put key e' := by
  simp [put]

theorem expireNx_none (h : d.get key = some ⟨value, none⟩) (hseconds : 0 < seconds) :
    d.expireNx key seconds = d.put key (some ⟨value, some (d.now + Time.seconds seconds)⟩) := by
  simp [expireNx, h, Int.not_le.2 hseconds]

theorem expireNx_some (h : d.get key = some ⟨value, some t⟩) : d.expireNx key seconds = d := by
  simp [expireNx, h]

end Server

theorem Time.seconds_pos {n : Int} (h : 0 < n) : 0 < Time.seconds n := Int.mul_pos h (by decide)

section Transaction
variable {d d' : Server} {key : String} {limit windowSeconds : Int} {last : Option Counted} {c : Counted} {exc : String}

theorem consume_first (hget : d.get (rateKey key) = none) (hwindow : 0 < windowSeconds)
    (hd' : d' = d.put (rateKey key) (some ⟨Int.repr 1, some (d.now + Time.seconds windowSeconds)⟩)) :
    consume d key limit windowSeconds = (.ok ⟨key, d.now, 1, d.now + Time.seconds windowSeconds,
      ⟨1 ≤ limit, limit, max 0 (limit - 1), max 0 (d'.ttl (rateKey key))⟩⟩, d') := by
  have hfresh : (d.put (rateKey key) (some ⟨Int.repr 1, none⟩)).get (rateKey key) = some ⟨Int.repr 1, none⟩ :=
    Server.get_put_self fun _ ht => by cases ht
  have hlive : d'.get (rateKey key) = some ⟨Int.repr 1, some (d.now + Time.seconds windowSeconds)⟩ := by
    rw [hd']
    exact Server.get_put_self fun _ ht => Option.some.inj ht ▸ lt_add_of_pos_right d.now (Time.seconds_pos hwindow)
  have hnow : d'.now = d.now := by rw [hd', Server.now_put]
  simp only [consume, Server.incr_none hget, Server.expireNx_none hfresh hwindow, Server.now_put, Server.put_put]
  simp only [← hd', Server.expiry, hlive, hnow, Option.bind_some, Option.getD_some]

theorem consume_next {n : Int} {t : Time} (hget : d.get (rateKey key) = some ⟨Int.repr n, some t⟩) (hn : n < maxInteger)
    (hd' : d' = d.put (rateKey key) (some ⟨Int.repr (n + 1), some t⟩)) :
    consume d key limit windowSeconds = (.ok ⟨key, d.now, n + 1, t,
      ⟨n + 1 ≤ limit, limit, max 0 (limit - (n + 1)), max 0 (d'.ttl (rateKey key))⟩⟩, d') := by
  have hlive : d'.get (rateKey key) = some ⟨Int.repr (n + 1), some t⟩ := by
    rw [hd']
    exact Server.get_put_self fun _ ht => Option.some.inj ht ▸ (Server.get_eq_some.1 hget).2 t rfl
  have hnow : d'.now = d.now := by rw [hd', Server.now_put]
  simp only [consume, Server.incr_some hget, if_neg (Int.not_le.2 hn), ← hd']
  rw [Server.expireNx_some hlive]
  simp only [Server.expiry, hlive, hnow, Option.bind_some, Option.getD_some]

theorem consume_full {n : Int} {t : Time} (hget : d.get (rateKey key) = some ⟨Int.repr n, some t⟩) (hn : maxInteger ≤ n) :
    consume d key limit windowSeconds = (.error "increment or decrement would overflow", d) := by
  simp only [consume, Server.incr_some hget, if_pos hn, Server.expireNx_some hget]

/-- The key is there until the last window ends. -/
theorem Server.get_counted (hstored : d.keys (rateKey key) = last.map fun c => ⟨Int.repr c.count, some c.expires⟩) :
    d.get (rateKey key) = none ∧ (∀ p, last = some p → p.expires ≤ d.now) ∨
    ∃ p, last = some p ∧ d.now < p.expires ∧ d.get (rateKey key) = some ⟨Int.repr p.count, some p.expires⟩ := by
  cases last with
  | none => exact .inl ⟨by rw [Server.get, hstored]; rfl, fun p hp => by cases hp⟩
  | some p =>
    rcases lt_or_ge d.now p.expires with hlt | hge
    · exact .inr ⟨p, rfl, hlt, Server.get_eq_some.2 ⟨hstored, fun t ht => Option.some.inj ht ▸ hlt⟩⟩
    · refine .inl ⟨?_, fun q hq => Option.some.inj hq ▸ hge⟩
      rw [Server.get, hstored]
      simpa using hge

theorem consume_counts (hstored : d.keys (rateKey key) = last.map fun c => ⟨Int.repr c.count, some c.expires⟩)
    (hwindow : 0 < windowSeconds) (h : consume d key limit windowSeconds = (.ok c, d')) :
    c.time = d.now ∧ Follows (Time.seconds windowSeconds) last c ∧ Decided limit c ∧
      d'.keys (rateKey key) = some ⟨Int.repr c.count, some c.expires⟩ := by
  rcases Server.get_counted hstored with ⟨hget, hover⟩ | ⟨p, rfl, hopen, hget⟩
  · rw [consume_first hget hwindow rfl] at h
    cases h
    refine ⟨rfl, ?_, ⟨rfl, rfl, rfl⟩, Server.keys_put_self⟩
    cases last with
    | none => exact ⟨rfl, rfl⟩
    | some p =>
      rw [Follows, if_neg (Int.not_lt.2 (hover p rfl))]
      exact ⟨rfl, rfl⟩
  · rcases lt_or_ge p.count maxInteger with hn | hn
    · rw [consume_next hget hn rfl] at h
      cases h
      refine ⟨rfl, ?_, ⟨rfl, rfl, rfl⟩, Server.keys_put_self⟩
      rw [Follows, if_pos hopen]
      exact ⟨rfl, rfl⟩
    · rw [consume_full hget hn] at h
      cases h

/-- A request that is not counted: the window has had as many as a counter can tell. -/
theorem consume_uncounted (hstored : d.keys (rateKey key) = last.map fun c => ⟨Int.repr c.count, some c.expires⟩)
    (hwindow : 0 < windowSeconds) (h : consume d key limit windowSeconds = (.error exc, d')) :
    d' = d ∧ ∃ p, last = some p ∧ d.now < p.expires ∧ maxInteger ≤ p.count := by
  rcases Server.get_counted hstored with ⟨hget, hover⟩ | ⟨p, hlast, hopen, hget⟩
  · rw [consume_first hget hwindow rfl] at h
    cases h
  · rcases lt_or_ge p.count maxInteger with hn | hn
    · rw [consume_next hget hn rfl] at h
      cases h
    · rw [consume_full hget hn] at h
      cases h
      exact ⟨rfl, p, hlast, hopen, hn⟩

end Transaction

/-! ### A key -/

def Event.counted? : Event π → Option Counted
  | counted _ c => some c
  | _ => none

/-- The requests counted under a key. -/
def countedOf (key : String) (es : List (Event π)) : List Counted := (es.filterMap Event.counted?).filter fun c => c.key = key

/-- What is stored under a key is where its last window has got to. -/
structure Meter (key : String) (limit windowSeconds : Int) (d : Server) (cs : List Counted) : Prop where
  windows : Windows (Time.seconds windowSeconds) cs
  past : ∀ c ∈ cs, c.time ≤ d.now
  decided : ∀ c ∈ cs, Decided limit c
  stored : d.keys (rateKey key) = cs.getLast?.map fun c => ⟨Int.repr c.count, some c.expires⟩

section Meter
variable {key key' : String} {limit windowSeconds : Int} {d d' : Server} {cs : List Counted} {c : Counted} {es es' : List (Event π)}
  {ch : Choice} {p : Proc π} {m : Step π}

theorem mem_countedOf : c ∈ countedOf key es ↔ (∃ i, .counted i c ∈ es) ∧ c.key = key := by
  rw [countedOf, List.mem_filter, List.mem_filterMap, decide_eq_true_iff]
  refine and_congr_left fun _ => ⟨?_, fun ⟨i, hmem⟩ => ⟨_, hmem, rfl⟩⟩
  rintro ⟨e, hmem, hcounted⟩
  cases e with
  | counted i c' =>
    obtain rfl : c' = c := Option.some.inj hcounted
    exact ⟨i, hmem⟩
  | _ => cases hcounted

theorem countedOf_append : countedOf key (es ++ es') = countedOf key es ++ countedOf key es' := by
  simp [countedOf]

theorem countedOf_self {self : π} (h : c.key = key) : countedOf key [.counted self c] = [c] := by
  simp [countedOf, Event.counted?, h]

theorem countedOf_eq_nil (h : ∀ i c, .counted i c ∈ es → c.key ≠ key) : countedOf key es = [] := by
  refine List.eq_nil_iff_forall_not_mem.2 fun c hc => ?_
  obtain ⟨⟨i, hmem⟩, hkey⟩ := mem_countedOf.1 hc
  exact h i c hmem hkey

theorem Meter.tick (h : Meter key limit windowSeconds d cs) {elapsed : Time} (helapsed : 0 ≤ elapsed) :
    Meter key limit windowSeconds (d.tick elapsed) cs where
  windows := h.windows
  past c hc := (h.past c hc).trans (Int.le_add_of_nonneg_right helapsed)
  decided := h.decided
  stored := h.stored

theorem Meter.quiet (h : Meter key limit windowSeconds d cs) (hnow : d'.now = d.now)
    (hkeys : d'.keys (rateKey key) = d.keys (rateKey key)) : Meter key limit windowSeconds d' cs where
  windows := h.windows
  past c hc := hnow ▸ h.past c hc
  decided := h.decided
  stored := hkeys ▸ h.stored

theorem Meter.counts (h : Meter key limit windowSeconds d cs) (hwindow : 0 < windowSeconds)
    (hconsume : consume d key limit windowSeconds = (.ok c, d')) : Meter key limit windowSeconds d' (cs ++ [c]) := by
  obtain ⟨htime, hnext, hdecided, hstored⟩ := consume_counts h.stored hwindow hconsume
  have hnow := (consume_frame hconsume).1
  constructor
  · exact h.windows.snoc hnext fun p hp => htime ▸ h.past p hp
  · intro c' hc'
    rw [hnow]
    rcases List.mem_append.1 hc' with hold | hlast
    · exact h.past c' hold
    · rw [List.mem_singleton.1 hlast]
      exact htime.le
  · intro c' hc'
    rcases List.mem_append.1 hc' with hold | hlast
    · exact h.decided c' hold
    · rw [List.mem_singleton.1 hlast]
      exact hdecided
  · rw [hstored, List.getLast?_concat]
    rfl

/-- Any statement, when the calls under the key agree on the limit and the window. -/
theorem Meter.step (h : Meter key limit windowSeconds d (countedOf key es)) (hwindow : 0 < windowSeconds) (hm : Leads d ch p m)
    (hfixed : ∀ self limit' windowSeconds', p = .called self (.consume key limit' windowSeconds') →
      limit' = limit ∧ windowSeconds' = windowSeconds) :
    Meter key limit windowSeconds (m.op.effect (clients π).write d) (countedOf key (es ++ m.emit)) := by
  have hquiet : ∀ {d' : Server} {emit : List (Event π)}, (∀ i c, .counted i c ∈ emit → c.key ≠ key) → d'.now = d.now →
      d'.keys (rateKey key) = d.keys (rateKey key) → Meter key limit windowSeconds d' (countedOf key es ++ countedOf key emit) := by
    intro d' emit hemit hnow hkeys
    rw [countedOf_eq_nil hemit, List.append_nil]
    exact h.quiet hnow hkeys
  rw [countedOf_append]
  cases hm with
  | @counts self key' limit' windowSeconds' c d' hconsume =>
    have hc : c.key = key' := consume_key hconsume
    by_cases hkey : key' = key
    · subst hkey
      obtain ⟨rfl, rfl⟩ := hfixed self limit' windowSeconds' rfl
      show Meter key' limit' windowSeconds' d' (countedOf key' es ++ countedOf key' [Event.counted self c])
      rw [countedOf_self hc]
      exact h.counts hwindow hconsume
    · obtain ⟨hnow, hkeys⟩ := consume_frame hconsume
      refine hquiet ?_ hnow (hkeys _ fun heq => hkey (rateKey_inj heq).symm)
      intro i c' hmem
      cases List.mem_singleton.1 hmem
      rwa [hc]
  | @uncounted self key' limit' windowSeconds' exc d' hconsume =>
    obtain ⟨hnow, hkeys⟩ := consume_frame hconsume
    refine hquiet (by simp [goOn]) hnow ?_
    by_cases hkey : key' = key
    · subst hkey
      obtain ⟨rfl, rfl⟩ := hfixed self limit' windowSeconds' rfl
      exact (consume_uncounted h.stored hwindow hconsume).1 ▸ rfl
    · exact hkeys _ fun heq => hkey (rateKey_inj heq).symm
  | draws | unissued | malformed | redeeming | reads | uncached => exact hquiet (by simp [goOn]) rfl rfl
  | @issues _ scope nonce | @misses _ scope nonce | @unreadable _ scope nonce | @redeems _ scope nonce =>
    exact hquiet (by simp [goOn]) rfl (Server.keys_put_of_ne (rateKey_ne_powKey key scope nonce))
  | @caches _ key' => exact hquiet (by simp [goOn]) rfl (Server.keys_put_of_ne (cacheKey_ne_rateKey key' key).symm)

end Meter

/-! ### Every run -/

/-- All calls under a key agree on its limit and its window. -/
def Fixed (calls : π → Call) (limits windows : String → Int) : Prop :=
  ∀ i key limit windowSeconds, calls i = .consume key limit windowSeconds → limit = limits key ∧ windowSeconds = windows key

/-- What holds of rate limits at any time. -/
structure Limited [DecidableEq π] (calls : π → Call) (limits windows : String → Int) (w : Clients π) : Prop where
  admits : ∀ key, Admits (limits key) (Time.seconds (windows key)) (countedOf key w.trace)
  /-- A call that has returned was counted once, and has the decision on that; or its window has had as many requests as a
  counter can tell. -/
  answered : ∀ i key limit windowSeconds r, calls i = .consume key limit windowSeconds → w.proc i = .returned i r →
    (∃ c, c.key = key ∧ eventsOf i w.trace = [.counted i c] ∧ r = .decision c.decision) ∨
      eventsOf i w.trace = [] ∧ (∃ c ∈ countedOf key w.trace, maxInteger ≤ c.count) ∧ ∃ exc, r = .raised exc

structure Metered [DecidableEq π] (calls : π → Call) (limits windows : String → Int) (w : Clients π) : Prop where
  told : ∀ i, Told i (calls i) (w.proc i) (eventsOf i w.trace)
  meter : ∀ key, Meter key (limits key) (windows key) w.db (countedOf key w.trace)
  full : ∀ i key limit windowSeconds exc, calls i = .consume key limit windowSeconds → w.proc i = .returned i (.raised exc) →
    ∃ c ∈ countedOf key w.trace, maxInteger ≤ c.count

section Metered
variable {d : Server} {p : Proc π} {i : π} {ch : Choice} {m : Step π} {es : List (Event π)} {key : String}
  {limit windowSeconds : Int}

theorem Told.consume_eq {key' : String} {limit' windowSeconds' : Int} {c : Call} {self : π}
    (h : Told i c (.called self (.consume key' limit' windowSeconds')) es) : c = .consume key' limit' windowSeconds' := by
  cases h
  rfl

theorem Leads.raises {exc : String} (hm : Leads d ch p m) (htold : Told i (.consume key limit windowSeconds) p es)
    (hnext : m.next = .returned i (.raised exc)) : ∃ exc d', consume d key limit windowSeconds = (.error exc, d') := by
  cases htold with
  | called =>
    cases hm with
    | counts => cases hnext
    | uncounted hconsume => exact ⟨_, _, hconsume⟩
  | counted | uncounted => cases hm

theorem Told.answered {r : Result} (h : Told i (.consume key limit windowSeconds) (.returned i r) es) :
    (∃ c, c.key = key ∧ es = [.counted i c] ∧ r = .decision c.decision) ∨ es = [] ∧ ∃ exc, r = .raised exc := by
  cases h with
  | counted hkey => exact .inl ⟨_, hkey, rfl, rfl⟩
  | uncounted => exact .inr ⟨rfl, _, rfl⟩

theorem Told.counted_key {j : π} {c : Counted} (h : Told i (.consume key limit windowSeconds) p es) (hmem : .counted j c ∈ es) :
    c.key = key := by
  cases h with
  | counted hkey =>
    obtain ⟨-, rfl⟩ : j = i ∧ _ := by simpa using hmem
    exact hkey
  | _ => simp at hmem

variable [DecidableEq π] {calls : π → Call} {limits windows : String → Int} {w : Clients π}

theorem Metered.step (h : Metered calls limits windows w) (hfixed : Fixed calls limits windows) (hwindows : ∀ key, 0 < windows key)
    (hm : (clients π).Fires w i ch m) : Metered calls limits windows ((clients π).after w i m) := by
  obtain ⟨helapsed, hleads⟩ := fires_leads hm
  have hmeter := fun key => (h.meter key).tick helapsed
  constructor
  · exact told_after h.told hm
  · intro key
    have hstep := (hmeter key).step (hwindows key) hleads fun self limit windowSeconds hp =>
      hfixed i key limit windowSeconds (by
        have htold := h.told i
        rw [hp] at htold
        exact htold.consume_eq)
    rw [hleads.effect_eq (w.db.tick ch.elapsed) w.db] at hstep
    exact hstep
  · intro j key limit windowSeconds exc hcall hproc
    rw [System.trace_after, countedOf_append]
    rcases System.proc_after_eq hproc with ⟨rfl, hnext⟩ | ⟨-, hold⟩
    · have htold := h.told j
      rw [hcall] at htold
      obtain ⟨exc, d', hconsume⟩ := hleads.raises htold hnext
      obtain ⟨-, rfl⟩ := hfixed j key limit windowSeconds hcall
      obtain ⟨-, p, hlast, -, hfull⟩ := consume_uncounted (hmeter key).stored (hwindows key) hconsume
      exact ⟨p, List.mem_append_left _ (List.mem_of_getLast? hlast), hfull⟩
    · obtain ⟨c, hc, hfull⟩ := h.full j key limit windowSeconds exc hcall hold
      exact ⟨c, List.mem_append_left _ hc, hfull⟩

theorem Metered.limited (h : Metered calls limits windows w) (hlimits : ∀ key, 0 ≤ limits key) (hwindows : ∀ key, 0 < windows key) :
    Limited calls limits windows w := by
  constructor
  · exact fun key => (h.meter key).windows.admits (Time.seconds_pos (hwindows key)) (hlimits key) (h.meter key).decided
  · intro i key limit windowSeconds r hcall hproc
    have htold := h.told i
    rw [hcall, hproc] at htold
    rcases htold.answered with hcounted | ⟨hnone, exc, rfl⟩
    · exact .inl hcounted
    · exact .inr ⟨hnone, h.full i key limit windowSeconds exc hcall hproc, exc, rfl⟩

end Metered

/-- Whatever else the server is used for meanwhile. -/
theorem metered_of_run [DecidableEq π] (d : Server) (hclean : ∀ key, d.keys (rateKey key) = none) (calls : π → Call)
    {limits windows : String → Int} (hfixed : Fixed calls limits windows) (hwindows : ∀ key, 0 < windows key) {w : Clients π}
    (hrun : (clients π).Run (fun _ _ => True) (Clients.start d calls) w) : Metered calls limits windows w := by
  have hstart : Metered calls limits windows (Clients.start d calls) := by
    constructor
    · exact fun i => .called
    · intro key
      constructor
      · exact .nil
      · exact fun c hc => absurd hc List.not_mem_nil
      · exact fun c hc => absurd hc List.not_mem_nil
      · exact hclean key
    · intro i key limit windowSeconds exc hcall hproc
      cases hproc
  exact hrun.invariant hstart fun _ _ _ _ h _ hm => h.step hfixed hwindows hm

end TestingPlatform.Redis
