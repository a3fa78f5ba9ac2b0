import Mathlib.Data.Fintype.Basic
import TestingPlatform.Scan.Cancellation
import TestingPlatform.Scan.Closing

/-!
# The end of a channel

Whoever closes a job publishes the terminal `job` message and `end` one after the other, on the channel of
the job. Everybody else publishes after a commit of his own and without a lock, so that a task event or a
heartbeat that is on its way when the close is announced arrives after `end` (`event_after_end`). That is
the only way: with the job closed nobody gets anything new to say about it, since all its tasks are terminal
and heartbeats go to running jobs. In a run in which a close is announced only when nobody else has
something left to publish on the channel, `end` is the last message (`end_is_last`).
-/

namespace TestingPlatform.Scan

open ReadCommitted

variable {π : Type} [DecidableEq π] {plus : Time → Time}

def Message.channel : Message → Option Uuid
  | .task jobId .. | .job jobId .. | .end jobId .. | .heartbeat jobId .. => some jobId
  | .runModule .. | .revoke .. | .ran .. => none

def onChannel (jobId : Uuid) (messages : List Message) : List Message :=
  messages.filter fun x => x.channel = some jobId

@[simp] theorem onChannel_append (jobId : Uuid) (l l' : List Message) :
    onChannel jobId (l ++ l') = onChannel jobId l ++ onChannel jobId l' := List.filter_append ..

theorem onChannel_eq_nil {jobId : Uuid} {l : List Message} : onChannel jobId l = [] ↔ ∀ x ∈ l, x.channel ≠ some jobId := by
  simp [onChannel, List.filter_eq_nil_iff]

/-- The job whose close is the next message. -/
def Proc.ending : Proc → Option Uuid
  | .publish (.job jobId status _ _ :: _) _ => if status.terminal then some jobId else none
  | _ => none

/-- A close is announced when nobody else has anything left to publish on the channel. -/
def EndsQuietly (w : Deployment π) (a : π × Choice) : Prop :=
  a.2 = .go → ∀ jobId ∈ (w.proc a.1).ending, ∀ j, j ≠ a.1 → onChannel jobId (w.proc j).outbox = []

instance [Fintype π] (w : Deployment π) (a : π × Choice) : Decidable (EndsQuietly w a) :=
  inferInstanceAs (Decidable (a.2 = .go → ∀ jobId ∈ (w.proc a.1).ending, ∀ j, j ≠ a.1 → _ = []))

/-- What a client reads off a channel: `end` is the last message and comes right after the terminal `job`
message, which nothing else follows. -/
structure EndIsLast (jobId : Uuid) (channel : List Message) : Prop where
  nothing_follows : ∀ pre status now post, channel = pre ++ .end jobId status now :: post → post = []
  follows_job : ∀ pre status now post, channel = pre ++ .end jobId status now :: post →
    status.terminal = true ∧ ∃ pre' reason, pre = pre' ++ [.job jobId status reason now]
  job_then_end : ∀ pre status reason now post, channel = pre ++ .job jobId status reason now :: post →
    status.terminal = true → post = [] ∨ post = [.end jobId status now]

/-! ### A channel that ends -/

section List
variable {α : Type} {pre₀ pre post rest : List α} {a b x : α}

/-- Where an element stands in a list whose last two are `a` and `b`, if it does not stand before. -/
theorem split_last_two (h : pre ++ x :: post ++ rest = pre₀ ++ [a, b]) (hx : x ∉ pre₀) :
    (x = a ∧ pre = pre₀ ∧ post ++ rest = [b]) ∨ (x = b ∧ pre = pre₀ ++ [a] ∧ post ++ rest = []) := by
  rw [List.append_assoc, List.cons_append] at h
  rcases List.append_eq_append_iff.1 h with ⟨c, hpre₀, hc⟩ | ⟨c, hpre, hc⟩
  · cases c with
    | nil =>
      rw [List.append_nil] at hpre₀
      rw [List.nil_append, List.cons.injEq] at hc
      exact .inl ⟨hc.1, hpre₀.symm, hc.2⟩
    | cons y c =>
      rw [List.cons_append, List.cons.injEq] at hc
      rw [hpre₀, hc.1] at hx
      exact absurd (List.mem_append_right _ List.mem_cons_self) hx
  · rcases c with _ | ⟨y, _ | ⟨z, c⟩⟩
    · rw [List.append_nil] at hpre
      rw [List.nil_append, List.cons.injEq] at hc
      exact .inl ⟨hc.1.symm, hpre, hc.2.symm⟩
    · simp only [List.cons_append, List.nil_append, List.cons.injEq] at hc
      exact .inr ⟨hc.2.1.symm, by rw [hpre, hc.1], hc.2.2.symm⟩
    · simp at hc

end List

/-- A channel up to its end. -/
def Script (jobId : Uuid) (channel : List Message) : Prop :=
  ∃ pre status reason now, channel = pre ++ [.job jobId status reason now, .end jobId status now] ∧
    status.terminal = true ∧ ∀ (k : Closing), ∀ x ∈ pre, k.is jobId x = false

theorem Script.endIsLast {jobId : Uuid} {l channel : List Message} (hl : Script jobId l) (h : channel <+: l) :
    EndIsLast jobId channel := by
  obtain ⟨pre₀, status₀, reason₀, now₀, rfl, hterm, hnone⟩ := hl
  obtain ⟨rest, hrest⟩ := h
  have isEnd : ∀ status now, (.end jobId status now : Message) ∉ pre₀ := fun status now hmem => by
    have hfalse := hnone .end _ hmem
    simp [Closing.is] at hfalse
  have isJob : ∀ status reason now, status.terminal = true → (.job jobId status reason now : Message) ∉ pre₀ :=
    fun status reason now hst hmem => by
      have hfalse := hnone .event _ hmem
      simp [Closing.is, hst] at hfalse
  constructor
  · intro pre status now post he
    rw [he] at hrest
    rcases split_last_two hrest (isEnd status now) with ⟨hx, -⟩ | ⟨-, -, hpost⟩
    · cases hx
    · exact (List.append_eq_nil_iff.1 hpost).1
  · intro pre status now post he
    rw [he] at hrest
    rcases split_last_two hrest (isEnd status now) with ⟨hx, -⟩ | ⟨hx, hpre, -⟩
    · cases hx
    · cases hx
      exact ⟨hterm, pre₀, reason₀, hpre⟩
  · intro pre status reason now post he hst
    rw [he] at hrest
    rcases split_last_two hrest (isJob status reason now hst) with ⟨hx, -, hpost⟩ | ⟨hx, -⟩
    · cases hx
      rcases List.append_eq_singleton_iff.1 hpost with ⟨hnil, -⟩ | ⟨hone, -⟩
      · exact .inl hnil
      · exact .inr hone
    · cases hx

theorem endIsLast_of_open {jobId : Uuid} {channel : List Message} (h : ∀ (k : Closing), ∀ x ∈ channel, k.is jobId x = false) :
    EndIsLast jobId channel := by
  have isEnd : ∀ {pre status now post}, channel ≠ pre ++ .end jobId status now :: post := fun {pre status now post} he => by
    have hfalse := h .end (.end jobId status now) (by rw [he]; simp)
    simp [Closing.is] at hfalse
  constructor
  · exact fun _ _ _ _ he => absurd he isEnd
  · exact fun _ _ _ _ he => absurd he isEnd
  · intro pre status reason now post he hst
    have hfalse := h .event (.job jobId status reason now) (by rw [he]; simp)
    simp [Closing.is, hst] at hfalse

/-! ### Who speaks on a channel -/

/-- The job is open, or has an open task. -/
def Live (d : Db) (jobId : Uuid) : Prop :=
  (∃ job, d.jobs.find jobId = some job ∧ job.status.terminal = false) ∨
    ∃ id t, d.tasks.find id = some t ∧ t.scanJobId = jobId ∧ t.status.terminal = false

theorem Commits.live {held : Lock → Prop} {d : Db} {p q : Proc} {ws : List Write} (h : Commits plus p ws q)
    (hA : p.Holds held d) {x : Message} (hx : x ∈ q.outbox) {jobId : Uuid} (hch : x.channel = some jobId) :
    Live d jobId := by
  have event : ∀ {id status reason now}, x ∈ publishJobEvent id status reason now → id = jobId := by
    intro id status reason now hx
    rcases List.mem_cons.1 hx with rfl | hx
    · exact Option.some.inj hch
    · split at hx
      · rw [List.mem_singleton.1 hx] at hch
        exact Option.some.inj hch
      · cases hx
  cases h with
  | dispatch c p =>
    obtain ⟨hp, -⟩ := hA
    rcases List.mem_append.1 hx with hx | hx
    · split at hx
      · exact .inl ⟨p.job, event hx ▸ hp.job.row, hp.job.live⟩
      · cases hx
    · obtain ⟨_, -, rfl⟩ := List.mem_map.1 hx
      cases hch
  | refuse c task status reason =>
    rw [List.mem_singleton.1 hx] at hch
    exact .inr ⟨_, task, hA.1.row, Option.some.inj hch, by rw [hA.1.queued]; rfl⟩
  | start c task run =>
    rw [List.mem_singleton.1 hx] at hch
    exact .inr ⟨_, task, hA.1.row, Option.some.inj hch, by rw [hA.1.queued]; rfl⟩
  | finish c run task v =>
    rw [List.mem_singleton.1 hx] at hch
    exact .inr ⟨_, task, hA.1.row, hA.1.job_id.trans (Option.some.inj hch), by rw [hA.1.running]; rfl⟩
  | reap c live =>
    obtain ⟨id, hid, hx⟩ := List.mem_flatMap.1 hx
    simp only [List.mem_cons, List.not_mem_nil, or_false] at hx
    rcases hx with rfl | rfl
    · cases hch
    · obtain ⟨-, t, ht, hl⟩ := hA id hid
      obtain ⟨hj, hst⟩ : t.scanJobId = c.jobId ∧ t.status.terminal = false := by simpa [isLiveOf] using hl
      exact .inr ⟨id, t, ht, hj.trans (Option.some.inj hch), hst⟩
  | close f job outcome =>
    obtain ⟨hjob, hid, -⟩ := hA
    exact .inl ⟨job, by rw [← event hx, ← hid]; exact hjob.row, hjob.live⟩
  | cancel => cases hx

section Step
variable {w w₀ : Deployment π} {i : π} {c : Choice} {m : Step} {jobId : Uuid}

omit [DecidableEq π] in
theorem not_live_of_closed (hcount : Counting w) (hclosed : JobTerminal w.db jobId) : ¬ Live w.db jobId := by
  obtain ⟨job, hj, hterm⟩ := hclosed
  rintro (⟨job', hj', hlive⟩ | ⟨id, t, ht, hjob, hlive⟩)
  · obtain rfl : job = job' := Option.some.inj (hj.symm.trans hj')
    rw [hterm] at hlive
    cases hlive
  · obtain ⟨outcome, hout, -⟩ := Option.map_eq_some_iff.1 (hcount.counted jobId job hj hterm none)
    have hall := (deriveJobOutcome_isSome.1 (by rw [hout]; rfl)).2
    have hst := hall _ (mem_statusesOf.2 ⟨id, t, ht, hjob, rfl⟩)
    rw [hlive] at hst
    cases hst

omit [DecidableEq π] in
/-- About a closed job a statement says what was left to say, or nothing. -/
theorem silent_of_closed (hb : Base w) (hcount : Counting w) (hclosed : JobTerminal w.db jobId)
    (hm : (pipeline plus).Fires w i c m) :
    onChannel jobId m.emit ++ onChannel jobId m.next.outbox = onChannel jobId (w.proc i).outbox ∨
      (m.emit = [] ∧ m.next.outbox = []) := by
  by_cases hc : c = .go
  · subst hc
    left
    have hmove : go plus w.db (w.proc i) = some m := hm.1
    rw [← onChannel_append]
    rcases outbox_of_go hmove with he | ⟨he, hout, ws, hop⟩ | ⟨hout, hx⟩
    · rw [he]
    · rw [he, hout, List.nil_append]
      refine onChannel_eq_nil.2 fun x hx hch => ?_
      exact not_live_of_closed hcount hclosed ((Commits.of_go hmove hop).live (hb.holds i) hx hch)
    · rw [hout]
      refine onChannel_eq_nil.2 fun x hmem hch => ?_
      rcases hx x hmem with ⟨id, rfl⟩ | ⟨job, hj, hrun, now, rfl⟩
      · cases hch
      · -- a heartbeat goes to a running job
        obtain rfl : job.id = jobId := Option.some.inj hch
        exact not_live_of_closed hcount hclosed (.inl ⟨job, w.db.jobs.find_of_mem hj, by rw [hrun]; rfl⟩)
  · right
    cases rollback_of_ne_go hm.1 hc
    exact ⟨rfl, rfl⟩

/-- The channel of a closed job: what has been said, and what the one who closed it has left to say. -/
structure Ending (w : Deployment π) (jobId : Uuid) (k : π) (l : List Message) : Prop where
  script : Script jobId l
  others : ∀ j, j ≠ k → onChannel jobId (w.proc j).outbox = []
  said : onChannel jobId w.trace ++ onChannel jobId (w.proc k).outbox = l ∨
    (onChannel jobId (w.proc k).outbox = [] ∧ onChannel jobId w.trace <+: l)

theorem Ending.step {k : π} {l : List Message} (hb : Base w) (hcount : Counting w) (hclosed : JobTerminal w.db jobId)
    (he : Ending w jobId k l) (hm : (pipeline plus).Fires w i c m) :
    Ending ((pipeline plus).after w i m) jobId k l := by
  have hsilent := silent_of_closed hb hcount hclosed hm
  have htrace : onChannel jobId ((pipeline plus).after w i m).trace = onChannel jobId w.trace ++ onChannel jobId m.emit := by
    rw [System.trace_after, onChannel_append]
  by_cases hik : i = k
  · subst hik
    refine ⟨he.script, fun j hj => by rw [System.proc_after_of_ne hj]; exact he.others j hj, ?_⟩
    rw [System.proc_after_self, htrace]
    rcases hsilent with hsame | ⟨hemit, hout⟩
    · rw [List.append_assoc, hsame]
      refine he.said.imp_right fun ⟨hnil, hpre⟩ => ?_
      rw [hnil, List.append_eq_nil_iff] at hsame
      rw [hsame.1, List.append_nil]
      exact ⟨hsame.2, hpre⟩
    · -- killed with something left to say
      right
      rw [hemit, hout]
      refine ⟨rfl, ?_⟩
      rw [show onChannel jobId [] = [] from rfl, List.append_nil]
      rcases he.said with hl | ⟨-, hpre⟩
      · exact hl ▸ List.prefix_append ..
      · exact hpre
  · have hnil : onChannel jobId m.emit = [] ∧ onChannel jobId m.next.outbox = [] := by
      rcases hsilent with hsame | ⟨hemit, hout⟩
      · rw [he.others i hik] at hsame
        exact List.append_eq_nil_iff.1 hsame
      · rw [hemit, hout]
        exact ⟨rfl, rfl⟩
    refine ⟨he.script, fun j hj => ?_, ?_⟩
    · by_cases hij : j = i
      · subst hij
        rw [System.proc_after_self]
        exact hnil.2
      · rw [System.proc_after_of_ne hij]
        exact he.others j hj
    · rw [System.proc_after_of_ne (Ne.symm hik), htrace, hnil.1, List.append_nil]
      exact he.said

/-- Nobody has told of a close, and who has one to tell begins with it. -/
structure Unsaid (w : Deployment π) (jobId : Uuid) : Prop where
  said : ∀ (k : Closing), ∀ x ∈ w.trace, k.is jobId x = false
  left : ∀ i, (∀ (k : Closing), ∀ x ∈ (w.proc i).outbox, k.is jobId x = false) ∨
    ∃ status reason now next, w.proc i = .publish (publishJobEvent jobId status reason now) next ∧ status.terminal = true

omit [DecidableEq π] in
theorem unsaid_of_commits {held : Lock → Prop} {d : Db} {p q : Proc} {ws : List Write} (h : Commits plus p ws q)
    (hA : p.Holds held d) (jobId : Uuid) :
    (∀ (k : Closing), ∀ x ∈ q.outbox, k.is jobId x = false) ∨
      ∃ status reason now next, q = .publish (publishJobEvent jobId status reason now) next ∧ status.terminal = true := by
  by_cases hclose : ∃ f job outcome, p = .close f job outcome ∧ f.jobId = jobId
  · obtain ⟨f, job, outcome, rfl, rfl⟩ := hclose
    cases h
    exact .inr ⟨_, _, _, _, rfl, hA.2.2⟩
  · left
    intro k x hx
    have hzero : q.outbox.countP (k.is jobId) = 0 := by
      rcases count_of_commits k jobId h with hz | ⟨f, job, outcome, hp, hid, -⟩
      · exact hz
      · exact absurd ⟨f, job, outcome, hp, hid⟩ hclose
    simpa using List.countP_eq_zero.1 hzero x hx

theorem Unsaid.step (hb : Base w) (hu : Unsaid w jobId) (hm : (pipeline plus).Fires w i c m) :
    Unsaid ((pipeline plus).after w i m) jobId ∨ c = .go ∧ ∃ status reason now next,
      w.proc i = .publish (publishJobEvent jobId status reason now) next ∧ status.terminal = true := by
  -- what the statement does not tell and does not leave to tell is all there is to look at
  have keep : (∀ (k : Closing), ∀ x ∈ m.emit, k.is jobId x = false) →
      ((∀ (k : Closing), ∀ x ∈ m.next.outbox, k.is jobId x = false) ∨ ∃ status reason now next,
        m.next = .publish (publishJobEvent jobId status reason now) next ∧ status.terminal = true) →
      Unsaid ((pipeline plus).after w i m) jobId := fun hemit hleft => by
    refine ⟨fun k x hx => ?_, fun j => ?_⟩
    · rcases List.mem_append.1 hx with hx | hx
      · exact hu.said k x hx
      · exact hemit k x hx
    · by_cases hij : j = i
      · subst hij
        rw [System.proc_after_self]
        exact hleft
      · rw [System.proc_after_of_ne hij]
        exact hu.left j
  by_cases hgo : c = .go
  · subst hgo
    have hmove : go plus w.db (w.proc i) = some m := hm.1
    rcases hu.left i with hnone | hscript
    · left
      rcases outbox_of_go hmove with he | ⟨he, -, ws, hop⟩ | ⟨-, hx⟩
      · rw [← he] at hnone
        exact keep (fun k x hx => hnone k x (List.mem_append_left _ hx))
          (.inl fun k x hx => hnone k x (List.mem_append_right _ hx))
      · refine keep (fun k x hx => ?_) (unsaid_of_commits (Commits.of_go hmove hop) (hb.holds i) jobId)
        rw [he] at hx
        cases hx
      · have hquiet : ∀ (k : Closing), ∀ x ∈ m.emit ++ m.next.outbox, k.is jobId x = false := fun k x hmem => by
          rcases hx x hmem with ⟨id, rfl⟩ | ⟨job, -, -, now, rfl⟩ <;> cases k <;> rfl
        exact keep (fun k x hx => hquiet k x (List.mem_append_left _ hx))
          (.inl fun k x hx => hquiet k x (List.mem_append_right _ hx))
    · exact .inr ⟨rfl, hscript⟩
  · left
    cases rollback_of_ne_go hm.1 hgo
    exact keep (fun k x hx => by cases hx) (.inl fun k x hx => by cases hx)

/-- With its first message the announcement of a close has the channel to itself. -/
theorem ending_of_announcement (hu : Unsaid w jobId) (hquiet : EndsQuietly w (i, .go))
    (hm : (pipeline plus).Fires w i .go m) {status : ScanJobStatus} {reason : Option String} {now : Time} {next : Next}
    (hp : w.proc i = .publish (publishJobEvent jobId status reason now) next) (hterm : status.terminal = true) :
    ∃ l, Ending ((pipeline plus).after w i m) jobId i l := by
  have hmove : go plus w.db (w.proc i) = some m := hm.1
  have hothers : ∀ j, j ≠ i → onChannel jobId (w.proc j).outbox = [] := fun j hij =>
    hquiet rfl jobId (by rw [hp]; simp [publishJobEvent, Proc.ending, hterm]) j hij
  rw [hp, publishJobEvent, if_pos hterm] at hmove
  cases hmove
  refine ⟨onChannel jobId w.trace ++ [.job jobId status reason now, .end jobId status now],
    ⟨_, _, _, _, rfl, hterm, fun k x hx => hu.said k x (List.mem_filter.1 hx).1⟩, fun j hij => ?_, .inl ?_⟩
  · rw [System.proc_after_of_ne hij]
    exact hothers j hij
  · rw [System.proc_after_self, System.trace_after, onChannel_append, List.append_assoc]
    refine congrArg _ ?_
    simp [onChannel, Message.channel, Proc.outbox]

/-- In a run in which closes are announced quietly, nothing follows `end` on any channel. -/
theorem end_is_last (h₀ : Start w₀) (h : (pipeline plus).Run EndsQuietly w₀ w) (jobId : Uuid) :
    EndIsLast jobId (onChannel jobId w.trace) := by
  have hall : ∀ {v}, (pipeline plus).Run EndsQuietly w₀ v →
      Base v ∧ Counting v ∧ (Closing.event.account jobId).Account v := fun hv =>
    ⟨base_of_run h₀ hv, counting_of_run h₀ hv, account_of_run .event jobId h₀ hv⟩
  have hinv : Unsaid w jobId ∨ (JobTerminal w.db jobId ∧ ∃ k l, Ending w jobId k l) := by
    refine (h.using hall).invariant
      (I := fun v => Unsaid v jobId ∨ (JobTerminal v.db jobId ∧ ∃ k l, Ending v jobId k l)) ?_
      fun v i c m ih ⟨hquiet, hb, hcount, ha⟩ hm => ?_
    · refine .inl ⟨fun k x hx => ?_, fun i => .inl fun k x hx => ?_⟩
      · rw [h₀.trace] at hx
        cases hx
      · rw [h₀.outbox i] at hx
        cases hx
    · have hmono : JobTerminal v.db jobId → JobTerminal ((pipeline plus).after v i m).db jobId :=
        fun ⟨job, hj, hterm⟩ => ⟨job, job_terminal_step hb hm hj hterm, hterm⟩
      rcases ih with hu | ⟨hclosed, k, l, he⟩
      · rcases hu.step hb hm with hu' | ⟨rfl, status, reason, now, next, hp, hterm⟩
        · exact .inl hu'
        · refine .inr ⟨hmono ?_, i, ending_of_announcement hu hquiet hm hp hterm⟩
          -- who has a close to tell has closed the job
          by_contra hopen
          have howes : (v.proc i).outbox.countP (Closing.event.is jobId) = 0 := (ha.still hopen).2 i
          rw [hp] at howes
          simp [Proc.outbox, publishJobEvent, Closing.is, hterm] at howes
      · exact .inr ⟨hmono hclosed, k, l, he.step hb hcount hclosed hm⟩
  rcases hinv with hu | ⟨-, k, l, he⟩
  · exact endIsLast_of_open fun k x hx => hu.said k x (List.mem_filter.1 hx).1
  · refine he.script.endIsLast ?_
    rcases he.said with hl | ⟨-, hpre⟩
    · exact hl ▸ List.prefix_append ..
    · exact hpre

end Step

/-! ### An event on its way -/

open Canceled in
/-- A delivery has completed the last task and not yet published it when a sweep finds nothing open, closes
the job and ends the channel. -/
theorem event_after_end :
    ∃ w₀ w : Deployment (Fin 4), Start w₀ ∧ (pipeline id).Run (fun _ _ => True) w₀ w ∧
      ∃ pre, onChannel 1 w.trace = pre ++ [.end 1 .completed (Time.hours 3 + Time.seconds 1),
        .task 1 10 .completed none (Time.seconds 5)] := by
  have run : ((pipeline id).exec (fun _ _ => True) begin (steps 0 11 ++ steps 3 10 ++ steps 2 9 ++ steps 3 1)).any
      (fun w => decide (onChannel 1 w.trace = [.job 1 .running none 0, .task 1 10 .running none (Time.seconds 2),
        .job 1 .completed none (Time.hours 3 + Time.seconds 1), .end 1 .completed (Time.hours 3 + Time.seconds 1),
        .task 1 10 .completed none (Time.seconds 5)])) = true := by
    decide +kernel
  obtain ⟨w, hw, hp⟩ := System.Run.of_exec_any run
  exact ⟨begin, w, start, hw, [.job 1 .running none 0, .task 1 10 .running none (Time.seconds 2),
    .job 1 .completed none (Time.hours 3 + Time.seconds 1)], of_decide_eq_true hp⟩

open Canceled in
/-- The delivery publishes first; the sweep then ends the channel. -/
theorem end_is_last_of_sweep :
    ∃ w : Deployment (Fin 4), (pipeline id).Run EndsQuietly begin w ∧
      .end 1 .completed (Time.hours 3 + Time.seconds 1) ∈ w.trace ∧ EndIsLast 1 (onChannel 1 w.trace) := by
  have run : ((pipeline id).exec EndsQuietly begin (steps 0 11 ++ steps 3 11 ++ steps 2 9)).any
      (fun w => decide (.end 1 .completed (Time.hours 3 + Time.seconds 1) ∈ w.trace)) = true := by
    decide +kernel
  obtain ⟨w, hw, hp⟩ := System.Run.of_exec_any run
  exact ⟨w, hw, of_decide_eq_true hp, end_is_last start hw 1⟩

end TestingPlatform.Scan
