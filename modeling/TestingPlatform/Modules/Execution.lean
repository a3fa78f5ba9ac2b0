import TestingPlatform.Modules.Values
import Mathlib.Tactic.NormNum

/-!
# The engine runner

`modules/execution.py`: the engine runs in a child process and writes JSON messages into a pipe; the parent loop reads
them until the first one that ends the run, or until the budget is used up. What a run meets is a `Wire`: the events of
the pipe in order, the readings of the clock and the answers of `poll`. `loop_eq` says what comes of it, from the
events that arrive in time. `poll` counts milliseconds in a C `int` and raises where more time than that is left, which
no budget check keeps out: `run_engine_one_outcome_iff`.
-/

namespace TestingPlatform

/-! ### Outcomes -/

structure EngineOutcome where
  report : Option Json := none
  timedOut : Bool := false
  error : Option String := none

namespace EngineOutcome

def ok (o : EngineOutcome) : Bool := o.report.isSome && o.error.isNone && !o.timedOut

def unwrap (o : EngineOutcome) : Except PyException Json :=
  let refusal := PyException.runtimeError <|
    match o.error with
    | none | some "" => "the engine produced no result."
    | some error => error
  match o.report with
  | some report => if o.ok then .ok report else .error refusal
  | none => .error refusal

end EngineOutcome

/-! ### The child -/

/-- What a callback writes for one line of progress. -/
def progressMessage (channel rendered : String) : Json :=
  .obj [("kind", .str "progress"), ("channel", .str channel),
    ("message", .str (if rendered = "" then channel else rendered))]

/-- How the call of the engine ended. -/
inductive ChildEnd where
  | returned (report : List (String × Json))
  | raised (type message : String)

/-- The last message of `_child_main`; a report is a dictionary. -/
def ChildEnd.message : ChildEnd → Json
  | .returned report => .obj [("kind", .str "result"), ("report", .obj report)]
  | .raised type message => .obj [("kind", .str "error"), ("type", .str type), ("message", .str message)]

/-! ### The parent loop -/

/-- What `recv` gives. -/
inductive PipeEvent where
  | message (m : Json)
  | eof (exitcode : Option ℤ)

/-- What a child sends that is not stopped: its lines of progress, each with its channel, and its end. -/
def childEvents (lines : List (String × String)) (e : ChildEnd) : List PipeEvent :=
  lines.map (fun line => .message (progressMessage line.1 line.2)) ++ [.message e.message, .eof (some 0)]

/-- What one run meets. After the events the pipe is silent. -/
structure Wire where
  events : List PipeEvent
  /-- The reading of the clock from which the deadline is counted. -/
  start : ℚ
  /-- The reading in each iteration. -/
  clock : ℕ → ℚ
  start_le : start ≤ clock 0
  clock_mono : Monotone clock
  /-- Whether the poll of the iteration sees the next event before its time is over. -/
  ready : ℕ → Bool
  /-- Whether the child is alive when it is reaped, and after the grace period. -/
  alive : Bool × Bool

inductive Action where
  | recv (e : PipeEvent)
  | emit (message channel : Json)
  | terminate
  | joinGrace
  | kill
  | join
  | close

/-- What the body of the loop makes of a message. -/
inductive Handled where
  | progress (message channel : Json)
  | report (report : Json)
  | failed (error : String)

/-- `message[key]`; `none` for a `KeyError` or a `TypeError`. -/
def item (message : Json) (key : String) : Option Json :=
  match message with
  | .obj members => (members.find? fun m => m.1 == key).map (·.2)
  | _ => none

section Loop
variable (T : PyText)

def handle (message : Json) : Handled :=
  let malformed := Handled.failed ("engine sent a malformed message: " ++ T.repr message)
  match item message "kind" with
  | none => malformed
  | some (.str "progress") =>
    match item message "message", item message "channel" with
    | some text, some channel => .progress text channel
    | _, _ => malformed
  | some (.str "result") =>
    match item message "report" with
    | some report => .report report
    | none => malformed
  | some _ =>
    match item message "type", item message "message" with
    | some type, some text => .failed (T.str type ++ ": " ++ T.str text)
    | _, _ => malformed

def overran (budget : ℚ) : EngineOutcome where
  timedOut := true
  error := some ("engine overran its " ++ T.formatG budget ++ "s budget and was killed.")

def exitText : Option ℤ → String
  | none => "None"
  | some code => toString code

def exited (exitcode : Option ℤ) : EngineOutcome where
  error := some ("engine process exited without a result (exit code " ++ exitText exitcode ++ ").")

/-- The longest time that `poll` takes: `2 ^ 31 - 1` milliseconds. -/
def pollLimit : ℚ := 2147483647 / 1000

def timeoutTooLarge : PyException := .other "timeout is too large"

/-- The loop from iteration `n` on, with the events that are left. -/
def loop (wire : Wire) (budget : ℚ) (events : List PipeEvent) (n : ℕ) : Except PyException EngineOutcome × List Action :=
  let remaining := wire.start + budget - wire.clock n
  if remaining ≤ 0 then (.ok (overran T budget), [])
  -- out of `poll`, which nothing catches
  else if pollLimit < remaining then (.error timeoutTooLarge, [])
  else if !wire.ready n then (.ok (overran T budget), [])
  else
    match events with
    -- nothing more arrives: the poll gives up
    | [] => (.ok (overran T budget), [])
    | .eof exitcode :: _ => (.ok (exited exitcode), [.recv (.eof exitcode)])
    | .message m :: events =>
      match handle T m with
      | .progress text channel =>
        let (outcome, actions) := loop wire budget events (n + 1)
        (outcome, .recv (.message m) :: .emit text channel :: actions)
      -- `report` stays `None`
      | .report .null =>
        let (outcome, actions) := loop wire budget events (n + 1)
        (outcome, .recv (.message m) :: actions)
      | .report report => (.ok { report := some report }, [.recv (.message m)])
      | .failed error => (.ok { error := some error }, [.recv (.message m)])

/-- `_reap`. -/
def reap (wire : Wire) : List Action :=
  (if wire.alive.1 then [.terminate, .joinGrace] else []) ++ (if wire.alive.2 then [.kill] else []) ++ [.join]

/-- `run_engine`: the outcome, and what was done on the way. The child is reaped in a `finally`. -/
def runEngine (budget : ℚ) (wire : Wire) : Except PyException EngineOutcome × List Action :=
  if budget ≤ 0 then (.error (.valueError "`budget` must be a positive, finite number of seconds."), [])
  else
    let (outcome, actions) := loop T wire budget wire.events 0
    (outcome, actions ++ reap wire ++ [.close])

end Loop

/-! ### What arrives in time -/

section Spec
variable (T : PyText)

/-- Iteration `n` reads an event: there is time left, not more than `poll` takes, and the poll sees the event. -/
def Wire.Reads (wire : Wire) (budget : ℚ) (n : ℕ) : Prop :=
  wire.clock n < wire.start + budget ∧ wire.start + budget - wire.clock n ≤ pollLimit ∧ wire.ready n = true

instance (wire : Wire) (budget : ℚ) (n : ℕ) : Decidable (wire.Reads budget n) := inferInstanceAs (Decidable (_ ∧ _))

/-- The events that arrive in time from iteration `n` on, if none of them ends the run. -/
def Wire.inTime (wire : Wire) (budget : ℚ) : List PipeEvent → ℕ → List PipeEvent
  | [], _ => []
  | e :: es, n => if wire.Reads budget n then e :: inTime wire budget es (n + 1) else []

/-- The event ends the run. A line of progress does not, and neither does a result whose report is null. -/
def terminal : PipeEvent → Bool
  | .eof _ => true
  | .message m =>
    match handle T m with
    | .progress .. | .report .null => false
    | .report _ | .failed _ => true

/-- The outcome from the first event that ends the run. -/
def outcomeOf (budget : ℚ) : Option PipeEvent → EngineOutcome
  | none => overran T budget
  | some (.eof exitcode) => exited exitcode
  | some (.message m) =>
    match handle T m with
    | .progress .. => overran T budget
    | .report report => { report := some report }
    | .failed error => { error := some error }

def emission : PipeEvent → Option (Json × Json)
  | .eof _ => none
  | .message m =>
    match handle T m with
    | .progress text channel => some (text, channel)
    | .report _ | .failed _ => none

def actionsOf (e : PipeEvent) : List Action :=
  .recv e :: ((emission T e).map fun p => Action.emit p.1 p.2).toList

variable {T} {wire : Wire} {budget : ℚ}

/-- The first poll takes the time that is left. -/
def Wire.Polls (wire : Wire) (budget : ℚ) : Prop := wire.start + budget - wire.clock 0 ≤ pollLimit

theorem Wire.Polls.le (h : wire.Polls budget) (n : ℕ) : wire.start + budget - wire.clock n ≤ pollLimit :=
  (sub_le_sub_left (wire.clock_mono (Nat.zero_le n)) _).trans h

theorem Wire.Reads.left_pos {n : ℕ} (h : wire.Reads budget n) : ¬ wire.start + budget - wire.clock n ≤ 0 :=
  not_le.2 (sub_pos.2 h.1)

theorem loop_of_late (hpolls : wire.Polls budget) {events : List PipeEvent} {n : ℕ} (h : ¬ wire.Reads budget n) :
    loop T wire budget events n = (.ok (overran T budget), []) := by
  have hle := hpolls.le n
  rw [loop.eq_def]
  dsimp only
  by_cases hleft : wire.start + budget - wire.clock n ≤ 0
  · rw [if_pos hleft]
  · have hready : (!wire.ready n) = true := by
      rw [Bool.not_eq_true']
      exact Bool.eq_false_of_not_eq_true fun hr => h ⟨sub_pos.1 (not_le.1 hleft), hle, hr⟩
    rw [if_neg hleft, if_neg (not_lt.2 hle), if_pos hready]

/-- With more time left than `poll` takes, the first iteration raises. -/
theorem loop_overflows (h : ¬ wire.Polls budget) (events : List PipeEvent) :
    loop T wire budget events 0 = (.error timeoutTooLarge, []) := by
  have hlong : pollLimit < wire.start + budget - wire.clock 0 := not_le.1 h
  have hpos : (0 : ℚ) < pollLimit := by norm_num [pollLimit]
  rw [loop.eq_def]
  dsimp only
  rw [if_neg (not_le.2 (hpos.trans hlong)), if_pos hlong]

theorem loop_ends {e : PipeEvent} {es : List PipeEvent} {n : ℕ} (hopen : wire.Reads budget n) (he : terminal T e = true) :
    loop T wire budget (e :: es) n = (.ok (outcomeOf T budget (some e)), [.recv e]) := by
  rw [loop.eq_def]
  simp only [hopen.left_pos, not_lt.2 hopen.2.1, hopen.2.2, Bool.not_true, Bool.false_eq_true, if_false]
  cases e with
  | eof exitcode => rfl
  | message m =>
    simp only [terminal] at he
    simp only [outcomeOf]
    cases hm : handle T m with
    | progress text channel => simp [hm] at he
    | report report => cases report <;> simp [hm] at he ⊢
    | failed error => simp

theorem loop_passes {e : PipeEvent} {es : List PipeEvent} {n : ℕ} (hopen : wire.Reads budget n) (he : terminal T e = false) :
    loop T wire budget (e :: es) n =
      ((loop T wire budget es (n + 1)).1, actionsOf T e ++ (loop T wire budget es (n + 1)).2) := by
  rw [loop.eq_def]
  simp only [hopen.left_pos, not_lt.2 hopen.2.1, hopen.2.2, Bool.not_true, Bool.false_eq_true, if_false]
  cases e with
  | eof exitcode => cases he
  | message m =>
    simp only [terminal] at he
    simp only [actionsOf, emission]
    cases hm : handle T m with
    | progress text channel => rfl
    | report report => cases report <;> simp [hm] at he ⊢
    | failed error => simp [hm] at he

/-- The loop reads what arrives in time up to the first event that ends the run. -/
theorem loop_eq (hpolls : wire.Polls budget) (events : List PipeEvent) (n : ℕ) :
    loop T wire budget events n =
      (.ok (outcomeOf T budget ((wire.inTime budget events n).find? (terminal T))),
        ((wire.inTime budget events n).takeWhile fun e => !terminal T e).flatMap (actionsOf T) ++
          (((wire.inTime budget events n).find? (terminal T)).map .recv).toList) := by
  induction events generalizing n with
  | nil =>
    rw [loop]
    simp only [not_lt.2 (hpolls.le n), if_false]
    split
    · rfl
    · split <;> rfl
  | cons e es ih =>
    by_cases hopen : wire.Reads budget n
    · rw [Wire.inTime, if_pos hopen, List.find?_cons, List.takeWhile_cons]
      cases he : terminal T e with
      | true => exact loop_ends hopen he
      | false =>
        rw [loop_passes hopen he, ih]
        simp only [Bool.not_false, if_true, List.flatMap_cons, List.append_assoc]
    · rw [loop_of_late hpolls hopen, Wire.inTime, if_neg hopen]
      rfl

def Wire.arrivals (wire : Wire) (budget : ℚ) : List PipeEvent := wire.inTime budget wire.events 0

theorem arrivals_of_overflow (h : ¬ wire.Polls budget) : wire.arrivals budget = [] := by
  unfold Wire.arrivals
  cases wire.events with
  | nil => rfl
  | cons e es => rw [Wire.inTime, if_neg fun hopen => h hopen.2.1]

theorem runEngine_eq (hbudget : 0 < budget) (hpolls : wire.Polls budget) :
    runEngine T budget wire = (.ok (outcomeOf T budget ((wire.arrivals budget).find? (terminal T))),
      ((wire.arrivals budget).takeWhile fun e => !terminal T e).flatMap (actionsOf T) ++
        (((wire.arrivals budget).find? (terminal T)).map .recv).toList ++ reap wire ++ [.close]) := by
  rw [runEngine, if_neg (not_le.2 hbudget), loop_eq hpolls]
  rfl

theorem runEngine_overflows (hbudget : 0 < budget) (h : ¬ wire.Polls budget) :
    (runEngine T budget wire).1 = .error timeoutTooLarge := by
  rw [runEngine, if_neg (not_le.2 hbudget), loop_overflows h]

theorem Wire.polls_of_budget (wire : Wire) (h : budget ≤ pollLimit) : wire.Polls budget := by
  have hstart := wire.start_le
  unfold Wire.Polls
  linarith

/-! ### Runs of a child that is not stopped -/

theorem find_child (lines : List (String × String)) (e : ChildEnd) (n : ℕ)
    (hopen : ∀ i, n ≤ i → i ≤ n + lines.length → wire.Reads budget i) :
    (wire.inTime budget (childEvents lines e) n).find? (terminal T) = some (.message e.message) := by
  induction lines generalizing n with
  | nil =>
    have hend : terminal T (.message e.message) = true := by cases e <;> rfl
    show ((wire.inTime budget [.message e.message, .eof (some 0)]) n).find? _ = _
    rw [Wire.inTime, if_pos (hopen n le_rfl (Nat.le_add_right _ _)), List.find?_cons, hend]
  | cons line lines ih =>
    show ((wire.inTime budget (.message (progressMessage line.1 line.2) :: childEvents lines e)) n).find? _ = _
    rw [Wire.inTime, if_pos (hopen n le_rfl (Nat.le_add_right _ _)), List.find?_cons]
    refine ih (n + 1) fun i hi hle => hopen i (by omega) ?_
    rw [List.length_cons]
    omega

/-- A child whose messages arrive in time determines the outcome. -/
theorem runEngine_child (T : PyText) (budget : ℚ) (wire : Wire) {lines : List (String × String)} {e : ChildEnd}
    (hbudget : 0 < budget) (hlimit : budget ≤ pollLimit) (hevents : wire.events = childEvents lines e)
    (hopen : ∀ i ≤ lines.length, wire.clock i < wire.start + budget ∧ wire.ready i = true) :
    (runEngine T budget wire).1 = .ok (outcomeOf T budget (some (.message e.message))) := by
  have hpolls := wire.polls_of_budget hlimit
  have hfind := find_child (T := T) lines e 0 fun i _ hi =>
    ⟨(hopen i (by omega)).1, hpolls.le i, (hopen i (by omega)).2⟩
  rw [runEngine_eq hbudget hpolls, Wire.arrivals, hevents, hfind]

/-- A child that answers after one line of progress. -/
def quickRun (e : ChildEnd) : Wire where
  events := childEvents [("progress", "checking")] e
  start := 0
  clock n := n
  start_le := le_of_eq Nat.cast_zero.symm
  clock_mono _ _ h := Nat.cast_le.2 h
  ready _ := true
  alive := (true, false)

theorem runEngine_quickRun (T : PyText) (e : ChildEnd) {budget : ℚ} (hbudget : 1 < budget) (hlimit : budget ≤ pollLimit) :
    (runEngine T budget (quickRun e)).1 = .ok (outcomeOf T budget (some (.message e.message))) := by
  have hopen : ∀ i ≤ [("progress", "checking")].length, (i : ℚ) < 0 + budget ∧ true = true := by
    intro i hi
    have hle : (i : ℚ) ≤ 1 := by exact_mod_cast hi
    exact ⟨by linarith, rfl⟩
  exact runEngine_child T budget (quickRun e) (by linarith) hlimit rfl hopen

end Spec

end TestingPlatform
