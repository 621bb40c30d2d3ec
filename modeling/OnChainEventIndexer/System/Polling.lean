import OnChainEventIndexer.Backoff
import OnChainEventIndexer.System.Machine

/-!
# The polling of the workers

`main` and `worker_loop` with their clock: the workers start 700 ms apart, and one that finds no job,
or whose claim fails, sleeps as long as its backoff says before it tries again. Times are
microseconds, as in the tables; a `sleep` may end late, but not early.

* `loops_refine`: without the clock these are runs of the system.
* `polls_paced`: however long there is nothing to do, a worker asks at most once in 100 ms.
* **`nobody_sleeps`**: if the timers are on time (`Prompt`), a job that can be claimed is not left
  for more than two seconds while a worker sleeps.
-/

namespace OnChainEventIndexer

open Lts

/-- The variables of a `worker_loop`: its backoff and the end of its `sleep`. -/
structure LoopVars where
  workerBackoff : WorkerBackoff
  wake : Option Int

namespace LoopVars

/-- `WorkerBackoff::new(200.0, 2000.0, 2.0)` -/
def new (wake : Option Int) : LoopVars := ⟨.new (200 : Nat) (2000 : Nat) (2 : Nat), wake⟩

/-- A claim found nothing, or failed. -/
def sleep (v : LoopVars) (jitter : Rat) (now : Int) : LoopVars :=
  let (workerBackoff, delay) := v.workerBackoff.stepAndGetSleepDuration jitter
  ⟨workerBackoff, some (now + (delay / 1000 : Nat))⟩

/-- A job is claimed. -/
def reset (v : LoopVars) : LoopVars := ⟨v.workerBackoff.reset, none⟩

/-- The backoff is where some number of steps has led. -/
def Regular (v : LoopVars) : Prop := ∃ k, v.workerBackoff = .after 200 2000 2 k

theorem regular_new (wake : Option Int) : (new wake).Regular :=
  ⟨0, WorkerBackoff.new_eq_after (by decide) (by decide)⟩

theorem Regular.reset {v : LoopVars} (h : v.Regular) : v.reset.Regular := by
  obtain ⟨k, hk⟩ := h
  refine ⟨0, ?_⟩
  unfold LoopVars.reset
  rw [hk]
  exact WorkerBackoff.reset_after (by decide) k

/-- **Between 100 ms and two seconds.** -/
theorem Regular.sleep {v : LoopVars} (h : v.Regular) {jitter : Rat}
    (hj : v.workerBackoff.draws jitter = true) (now : Int) : (v.sleep jitter now).Regular ∧
      ∃ t, (v.sleep jitter now).wake = some t ∧ now + 100000 ≤ t ∧ t ≤ now + 2000000 := by
  obtain ⟨k, hk⟩ := h
  rw [hk] at hj
  obtain ⟨hlow, hhigh⟩ := WorkerBackoff.sleep_after (by decide) (by decide) (by decide) (by decide) hj
  have hmin : 200 ≤ WorkerBackoff.delayAfter 200 2000 2 k :=
    WorkerBackoff.le_delayAfter (by decide) (by decide) k
  have hmax : WorkerBackoff.delayAfter 200 2000 2 k ≤ 2000 := WorkerBackoff.delayAfter_le k
  unfold LoopVars.sleep
  rw [hk]
  refine ⟨⟨k + 1, WorkerBackoff.step_after (by decide) (by decide) k jitter⟩, _, rfl, ?_, ?_⟩
  · unfold fromMillis at hlow
    omega
  · unfold fromMillis at hhigh
    omega

end LoopVars

/-- The system, and the variables of each worker's loop. -/
structure Loops where
  sys : Sys
  vars : Nat → LoopVars

/-- A step with what the loops add to it. -/
inductive LoopEvent
  /-- A step of the system; `jitter` is for a claim that returns no job. -/
  | act (a : Act) (jitter : Rat)
  /-- `claim_pending_job` returns an error of the database. -/
  | claimFailed (w : Nat) (jitter : Rat)

namespace Loops

/-- `main`: worker `w` starts after `w - 1` sleeps of 700 ms. -/
def init (now : Int) : Loops :=
  ⟨Sys.init now, fun w => .new (some (now + (700000 * (w - 1) : Nat)))⟩

/-- The worker does not sleep. -/
def awake (s : Loops) (w : Nat) : Bool := (s.vars w).wake.all fun t => decide (t ≤ s.sys.now)

/-- The system is now `sys`, the loop of `w` has the variables `v`. -/
def setLoop (s : Loops) (sys : Sys) (w : Nat) (v : LoopVars) : Loops :=
  ⟨sys, fun u => if u = w then v else s.vars u⟩

@[simp] theorem setLoop_sys (s : Loops) (sys : Sys) (w : Nat) (v : LoopVars) :
    (s.setLoop sys w v).sys = sys := rfl

@[simp] theorem setLoop_vars_self (s : Loops) (sys : Sys) (w : Nat) (v : LoopVars) :
    (s.setLoop sys w v).vars w = v := if_pos rfl

theorem setLoop_vars_of_ne (s : Loops) (sys : Sys) {u w : Nat} (v : LoopVars) (h : u ≠ w) :
    (s.setLoop sys w v).vars u = s.vars u := if_neg h

/-- The inner loop of `worker_loop` once, around a claim that leads to `claimed`. -/
def poll (s : Loops) (w : Nat) (jitter : Rat) (claimed : Option Sys) : Option Loops :=
  if s.awake w then
    claimed.bind fun sys =>
      match sys.workers w with
      | .idle =>
        if (s.vars w).workerBackoff.draws jitter then
          some (s.setLoop sys w ((s.vars w).sleep jitter s.sys.now))
        else none
      | _ => some (s.setLoop sys w (s.vars w).reset)
  else none

/-- The two ends of a poll. -/
theorem poll_cases {s s' : Loops} {w : Nat} {jitter : Rat} {claimed : Option Sys}
    (h : s.poll w jitter claimed = some s') : s.awake w = true ∧ ∃ sys, claimed = some sys ∧
      ((sys.workers w = .idle ∧ (s.vars w).workerBackoff.draws jitter = true ∧
        s' = (s.setLoop sys w ((s.vars w).sleep jitter s.sys.now))) ∨
      (sys.workers w ≠ .idle ∧ s' = (s.setLoop sys w (s.vars w).reset))) := by
  unfold poll at h
  split at h
  · rename_i ha
    obtain ⟨sys, hsys, h⟩ := Option.bind_eq_some_iff.mp h
    refine ⟨ha, sys, hsys, ?_⟩
    split at h
    · rename_i hw
      split at h
      · rename_i hj
        exact Or.inl ⟨hw, hj, (Option.some.inj h).symm⟩
      · exact absurd h (by simp)
    · rename_i hw
      exact Or.inr ⟨hw, (Option.some.inj h).symm⟩
  · exact absurd h (by simp)

variable [External]

/-- **One step of the loops.** -/
def step (api : HeliusApi) (s : Loops) : LoopEvent → Option Loops
  | .act (.claim w) jitter => s.poll w jitter (Sys.step api s.sys (.claim w))
  | .act (.claimRaced w jobId) jitter => s.poll w jitter (Sys.step api s.sys (.claimRaced w jobId))
  | .act (.claimLost w jobId) jitter => s.poll w jitter (Sys.step api s.sys (.claimLost w jobId))
  | .claimFailed w jitter =>
    match s.sys.workers w with
    | .idle => s.poll w jitter (some s.sys)
    | _ => none
  | .act (.restart w) _ =>
    (Sys.step api s.sys (.restart w)).map fun sys => (s.setLoop sys w (.new none))
  | .act a _ => (Sys.step api s.sys a).map fun sys => ⟨sys, s.vars⟩

/-- The steps as a relation. -/
def Step (api : HeliusApi) (s : Loops) (e : LoopEvent) (s' : Loops) : Prop := step api s e = some s'

end Loops

/-! ## What the steps do to the workers -/

namespace Sys

/-- `claim_pending_job` returns a job. -/
def findsJob (s : Sys) (w : Nat) : Bool :=
  match s.db.claimPendingJob w s.now with
  | .ok (some _, _) => true
  | _ => false

/-- A claimable job is found by every worker whose id fits the column. -/
theorem findsJob_of_nextJob {s : Sys} {w : Nat} (hw : w ≤ 32767) (h : s.db.nextJob ≠ none) :
    s.findsJob w = true := by
  obtain ⟨j, hj⟩ := Option.ne_none_iff_exists'.mp h
  unfold findsJob Db.claimPendingJob
  rw [hj]
  simp only [Db.claimSet_of_le hw]

theorem after_start_ne_idle (job : ClaimedJob) : Worker.after job (Pc.start job) ≠ .idle := by
  unfold Pc.start
  split <;> simp [Worker.after]

variable [External] {api : HeliusApi} {s s' : Sys} {a : Act} {w : Nat}

theorem claim_step (h : Step api s (.claim w) s') : s.workers w = .idle ∧
    ((s.findsJob w = false ∧ s' = s) ∨ (s.findsJob w = true ∧ s'.workers w ≠ .idle)) := by
  unfold Step at h
  simp only [step] at h
  split at h
  · rename_i hw
    refine ⟨hw, ?_⟩
    rcases hc : s.db.claimPendingJob w s.now with _ | ⟨_ | job, db⟩
    · rw [hc] at h
      exact Or.inl ⟨by simp only [findsJob, hc], (Option.some.inj h).symm⟩
    · rw [hc] at h
      exact Or.inl ⟨by simp only [findsJob, hc], (Option.some.inj h).symm⟩
    · rw [hc] at h
      rw [← Option.some.inj h]
      exact Or.inr ⟨by simp only [findsJob, hc], by simpa using after_start_ne_idle job⟩
  · exact absurd h (by simp)

theorem claimRaced_step {jobId : Nat} (h : Step api s (.claimRaced w jobId) s') :
    s.workers w = .idle ∧ s'.workers w ≠ .idle := by
  cases step_next h with
  | created ha => rcases ha with he | he <;> exact absurd he (by simp)
  | claimed ha hw hj hp hset =>
    rcases ha with ⟨he, -⟩ | he
    · exact absurd he (by simp)
    · obtain ⟨rfl, -⟩ := Act.claimRaced.inj he
      exact ⟨hw, by simpa [take] using after_start_ne_idle _⟩

/-- A claim whose answer is lost leaves the workers as they are. -/
theorem claimLost_step {jobId : Nat} (h : Step api s (.claimLost w jobId) s') :
    s.workers w = .idle ∧ s'.now = s.now ∧ s'.workers = s.workers := by
  cases step_next h with
  | created ha => rcases ha with he | he <;> exact absurd he (by simp)
  | claimed ha hw hj hp hset =>
    rcases ha with ⟨he, -⟩ | he <;> exact absurd he (by simp)
  | lostClaim hw hj hp hset => exact ⟨hw, rfl, rfl⟩

/-- A claim concerns its worker only. -/
theorem claim_others (h : Step api s a s') (ha : a = .claim w ∨ ∃ jobId, a = .claimRaced w jobId) :
    s'.now = s.now ∧ ∀ v, v ≠ w → s'.workers v = s.workers v := by
  cases step_next h with
  | created hc => rcases hc with rfl | rfl <;> rcases ha with he | ⟨jobId, he⟩ <;>
      exact absurd he (by simp)
  | foundNothing hw => exact ⟨rfl, fun _ _ => rfl⟩
  | @claimed u a j j' hb hw hj hp hset =>
    have hu : u = w := by
      rcases hb with ⟨rfl, -⟩ | rfl <;> rcases ha with he | ⟨jobId, he⟩ <;> simp_all
    subst hu
    exact ⟨rfl, fun v hv => setWorker_of_ne _ _ hv⟩
  | _ => rcases ha with he | ⟨jobId, he⟩ <;> exact absurd he (by simp)

/-- The other steps: a worker stays as it is, or it was executing a job, or it is dead now. -/
theorem other_step (h : Step api s a s') (hclaim : ∀ w, a ≠ .claim w)
    (hraced : ∀ w jobId, a ≠ .claimRaced w jobId) (hrestart : ∀ w, a ≠ .restart w) :
    (s'.now = s.now ∨ ∃ d, a = .tick d ∧ s'.now = s.now + d) ∧
      ∀ w, s'.workers w = s.workers w ∨ (∃ job pc, s.workers w = .running job pc) ∨
        s'.workers w = .dead := by
  cases step_next h with
  | @ticked d => exact ⟨Or.inr ⟨d, rfl, rfl⟩, fun _ => Or.inl rfl⟩
  | created ha => exact ⟨Or.inl rfl, fun _ => Or.inl rfl⟩
  | foundNothing hw => exact absurd rfl (hclaim _)
  | claimed ha hw hj hp hset =>
    rcases ha with ⟨rfl, -⟩ | rfl
    · exact absurd rfl (hclaim _)
    · exact absurd rfl (hraced _ _)
  | lostClaim hw hj hp hset => exact ⟨Or.inl rfl, fun _ => Or.inl rfl⟩
  | @called v answer job pc db' pc' hv hn =>
    refine ⟨Or.inl rfl, fun w => ?_⟩
    by_cases hw : w = v
    · exact Or.inr (Or.inl ⟨job, pc, hw ▸ hv⟩)
    · exact Or.inl (setWorker_of_ne _ _ hw)
  | @lostCall v chosen job pc db' pc' hv hi hn =>
    refine ⟨Or.inl rfl, fun w => ?_⟩
    by_cases hw : w = v
    · exact Or.inr (Or.inl ⟨job, pc, hw ▸ hv⟩)
    · exact Or.inl (setWorker_of_ne _ _ hw)
  | @crashed v hv =>
    refine ⟨Or.inl rfl, fun w => ?_⟩
    by_cases hw : w = v
    · exact Or.inr (Or.inr (hw ▸ setWorker_self _ _ _))
    · exact Or.inl (setWorker_of_ne _ _ hw)
  | restarted hw => exact absurd rfl (hrestart _)

theorem restart_step (h : Step api s (.restart w) s') : s'.now = s.now ∧
    s'.workers w = .idle ∧ ∀ v, v ≠ w → s'.workers v = s.workers v := by
  cases step_next h with
  | created ha => rcases ha with he | he <;> exact absurd he (by simp)
  | claimed ha hw hj hp hset =>
    rcases ha with ⟨he, -⟩ | he <;> exact absurd he (by simp)
  | restarted hw => exact ⟨rfl, setWorker_self _ _ _, fun v hv => setWorker_of_ne _ _ hv⟩

end Sys

namespace Loops

/-! ## What holds of the wakes -/

/-- After `n` polls since `start` that found nothing: 100 ms have passed for each of them, or will
have when the worker wakes. -/
structure Paced (start : Int) (n : Nat) (now : Int) (wake : Option Int) : Prop where
  asked : (n : Int) * 100000 ≤ now - start + 100000
  due : (n : Int) * 100000 ≤ now - start ∨ ∃ t ∈ wake, (n : Int) * 100000 ≤ t - start

theorem Paced.later {start : Int} {n : Nat} {now now' : Int} {wake : Option Int}
    (h : Paced start n now wake) (hle : now ≤ now') : Paced start n now' wake := by
  obtain ⟨hasked, hdue⟩ := h
  exact ⟨by omega, hdue.imp_left fun hd => by omega⟩

/-- A worker that does not sleep. -/
theorem Paced.passed {s : Loops} {start : Int} {n : Nat} {w : Nat}
    (h : Paced start n s.sys.now (s.vars w).wake)
    (ha : s.awake w = true) : (n : Int) * 100000 ≤ s.sys.now - start := by
  rcases h.due with hd | ⟨t, ht, hd⟩
  · exact hd
  · unfold awake at ha
    rw [Option.mem_def.mp ht, Option.all_some, decide_eq_true_eq] at ha
    omega

/-- Every worker that sleeps wakes at `latest`, and none has overslept. -/
structure Awaits (count : Nat) (latest : Int) (s : Loops) : Prop where
  busy : ∀ w job pc, s.sys.workers w = .running job pc → (s.vars w).wake = none
  idle : ∀ w, 1 ≤ w → w ≤ count → s.sys.workers w = .idle →
    ∀ t ∈ (s.vars w).wake, s.sys.now ≤ t ∧ t ≤ latest

/-- A step of worker `v` alone. -/
theorem Awaits.set {s : Loops} {count : Nat} {latest latest' : Int} (h : Awaits count latest s)
    (hle : latest ≤ latest') {sys : Sys} {v : Nat} {x : LoopVars} (hnow : sys.now = s.sys.now)
    (hothers : ∀ w, w ≠ v → sys.workers w = s.sys.workers w)
    (hbusy : ∀ job pc, sys.workers v = .running job pc → x.wake = none)
    (hidle : v ≤ count → ∀ t ∈ x.wake, s.sys.now ≤ t ∧ t ≤ latest') :
    Awaits count latest' (s.setLoop sys v x) := by
  constructor
  · intro w job pc hw
    by_cases hv : w = v
    · subst hv
      rw [setLoop_vars_self]
      exact hbusy job pc hw
    · rw [setLoop_vars_of_ne _ _ _ hv]
      exact h.busy w job pc ((hothers w hv).symm.trans hw)
  · intro w hw1 hwc hw t ht
    rw [setLoop_sys, hnow]
    by_cases hv : w = v
    · subst hv
      rw [setLoop_vars_self] at ht
      exact hidle hwc t ht
    · rw [setLoop_vars_of_ne _ _ _ hv] at ht
      obtain ⟨hlow, hhigh⟩ := h.idle w hw1 hwc ((hothers w hv).symm.trans hw) t ht
      exact ⟨hlow, Int.le_trans hhigh hle⟩

section Steps

variable [External]

/-- A poll of `w` that returns no job: there is none, or the claim fails, or its answer is lost. -/
def emptyPoll (w : Nat) (x : Loops × LoopEvent) : Bool :=
  match x.2 with
  | .claimFailed v _ => v = w
  | .act (.claim v) _ => v = w && !x.1.sys.findsJob v
  | .act (.claimLost v _) _ => v = w
  | _ => false

/-- Everything a step can do. -/
inductive Next (api : HeliusApi) (s : Loops) : LoopEvent → Loops → Prop
  | slept {e w jitter sys} (he : ∀ v, emptyPoll v (s, e) = decide (w = v))
      (hsys : sys = s.sys ∨ ∃ a, Sys.Step api s.sys a sys) (hnow : sys.now = s.sys.now)
      (hworkers : sys.workers = s.sys.workers) (hw : s.sys.workers w = .idle)
      (ha : s.awake w = true) (hj : (s.vars w).workerBackoff.draws jitter = true) :
      Next api s e (s.setLoop sys w ((s.vars w).sleep jitter s.sys.now))
  | claimed {a w jitter sys}
      (hc : (a = .claim w ∧ s.sys.findsJob w = true) ∨ ∃ jobId, a = .claimRaced w jobId)
      (hn : Sys.Step api s.sys a sys) (hw : sys.workers w ≠ .idle) (ha : s.awake w = true) :
      Next api s (.act a jitter) (s.setLoop sys w (s.vars w).reset)
  | restarted {w jitter sys} (hn : Sys.Step api s.sys (.restart w) sys) :
      Next api s (.act (.restart w) jitter) (s.setLoop sys w (.new none))
  | other {a jitter sys} (hclaim : ∀ w, a ≠ .claim w) (hraced : ∀ w jobId, a ≠ .claimRaced w jobId)
      (hlost : ∀ w jobId, a ≠ .claimLost w jobId) (hrestart : ∀ w, a ≠ .restart w)
      (hn : Sys.Step api s.sys a sys) : Next api s (.act a jitter) ⟨sys, s.vars⟩

variable {api : HeliusApi} {s s' : Loops} {e : LoopEvent}

theorem step_other {a : Act} {jitter : Rat} (hclaim : ∀ w, a ≠ .claim w)
    (hraced : ∀ w jobId, a ≠ .claimRaced w jobId) (hlost : ∀ w jobId, a ≠ .claimLost w jobId)
    (hrestart : ∀ w, a ≠ .restart w)
    (h : (Sys.step api s.sys a).map (fun sys => (⟨sys, s.vars⟩ : Loops)) = some s') :
    Next api s (.act a jitter) s' := by
  obtain ⟨sys, hsys, rfl⟩ := Option.map_eq_some_iff.mp h
  exact .other hclaim hraced hlost hrestart hsys

/-- **The inversion of a step.** -/
theorem step_next (h : Step api s e s') : Next api s e s' := by
  unfold Step at h
  cases e with
  | claimFailed w jitter =>
    simp only [step] at h
    split at h
    · rename_i hw
      obtain ⟨ha, sys, hsys, hcase⟩ := poll_cases h
      obtain rfl := Option.some.inj hsys
      rcases hcase with ⟨-, hj, rfl⟩ | ⟨hne, -⟩
      · exact .slept (fun v => rfl) (Or.inl rfl) rfl rfl hw ha hj
      · exact absurd hw hne
    · exact absurd h (by simp)
  | act a jitter =>
    cases a with
    | claim w =>
      obtain ⟨ha, sys, hsys, hcase⟩ := poll_cases h
      obtain ⟨hw, ⟨hf, rfl⟩ | ⟨hf, hne⟩⟩ := Sys.claim_step hsys
      · rcases hcase with ⟨-, hj, rfl⟩ | ⟨hne, -⟩
        · exact .slept (fun v => by simp [emptyPoll, hf]) (Or.inl rfl) rfl rfl hw ha hj
        · exact absurd hw hne
      · rcases hcase with ⟨hidle, -⟩ | ⟨-, rfl⟩
        · exact absurd hidle hne
        · exact .claimed (Or.inl ⟨rfl, hf⟩) hsys hne ha
    | claimRaced w jobId =>
      obtain ⟨ha, sys, hsys, hcase⟩ := poll_cases h
      have hne := (Sys.claimRaced_step hsys).2
      rcases hcase with ⟨hidle, -⟩ | ⟨-, rfl⟩
      · exact absurd hidle hne
      · exact .claimed (Or.inr ⟨jobId, rfl⟩) hsys hne ha
    | claimLost w jobId =>
      obtain ⟨ha, sys, hsys, hcase⟩ := poll_cases h
      obtain ⟨hw, hnow, hworkers⟩ := Sys.claimLost_step hsys
      rcases hcase with ⟨-, hj, rfl⟩ | ⟨hne, -⟩
      · exact .slept (fun v => rfl) (Or.inr ⟨_, hsys⟩) hnow hworkers hw ha hj
      · exact absurd (hworkers ▸ hw) hne
    | restart w =>
      obtain ⟨sys, hsys, rfl⟩ := Option.map_eq_some_iff.mp h
      exact .restarted hsys
    | tick d => exact step_other (by simp) (by simp) (by simp) (by simp) h
    | create address txLimit requestedHours =>
      exact step_other (by simp) (by simp) (by simp) (by simp) h
    | createLost address txLimit requestedHours =>
      exact step_other (by simp) (by simp) (by simp) (by simp) h
    | call w a => exact step_other (by simp) (by simp) (by simp) (by simp) h
    | callLost w chosen => exact step_other (by simp) (by simp) (by simp) (by simp) h
    | crash w => exact step_other (by simp) (by simp) (by simp) (by simp) h

theorem Next.now_le (h : Next api s e s') : s.sys.now ≤ s'.sys.now := by
  cases h with
  | slept he hsys hnow hworkers hw ha hj => exact Int.le_of_eq hnow.symm
  | claimed hc hn hw ha => exact Int.le_of_eq (Sys.claim_others hn (hc.imp_left And.left)).1.symm
  | restarted hn => exact Int.le_of_eq (Sys.restart_step hn).1.symm
  | @other a jitter sys hclaim hraced hlost hrestart hn =>
    show s.sys.now ≤ sys.now
    rcases (Sys.other_step hn hclaim hraced hrestart).1 with hnow | ⟨d, -, hnow⟩ <;> omega

/-- **Without the clock** a run of the loops is a run of the system. -/
theorem loops_refine {now : Int} {tr : List (Loops × LoopEvent)}
    (h : Run (Step api) (init now) tr s) : ∃ l, Run (Sys.Step api) (Sys.init now) l s.sys := by
  have hsim : ∀ t e u, True → Step api t e u → (u.sys = t.sys ∧ (none : Option Unit) = none) ∨
      ∃ a, Sys.Step api t.sys a u.sys ∧ (none : Option Unit) = none := by
    intro t e u _ hs
    cases step_next hs with
    | slept he hsys hnow hworkers hw ha hj =>
      rcases hsys with rfl | ⟨a, hn⟩
      · exact Or.inl ⟨rfl, rfl⟩
      · exact Or.inr ⟨a, hn, rfl⟩
    | claimed hc hn hw ha => exact Or.inr ⟨_, hn, rfl⟩
    | restarted hn => exact Or.inr ⟨_, hn, rfl⟩
    | other hclaim hraced hlost hrestart hn => exact Or.inr ⟨_, hn, rfl⟩
  obtain ⟨l, hl, -⟩ := h.simulates Loops.sys (fun _ => none) (fun _ => none)
    (fun _ _ _ _ _ => trivial) hsim trivial
  exact ⟨l, hl⟩

/-! ## How often a worker asks -/

theorem regular_step (h : ∀ w, (s.vars w).Regular) (hn : Next api s e s') (w : Nat) :
    (s'.vars w).Regular := by
  have hset : ∀ sys v x, x.Regular → ((s.setLoop sys v x).vars w).Regular := by
    intro sys v x hx
    by_cases hw : w = v
    · rw [hw, setLoop_vars_self]
      exact hx
    · rw [setLoop_vars_of_ne _ _ _ hw]
      exact h w
  cases hn with
  | slept he hsys hnow hworkers hw ha hj => exact hset _ _ _ ((h _).sleep hj _).1
  | claimed hc hn hw ha => exact hset _ _ _ (h _).reset
  | restarted hn => exact hset _ _ _ (LoopVars.regular_new none)
  | other hclaim hraced hlost hrestart hn => exact h w

theorem regular_run {now : Int} {tr : List (Loops × LoopEvent)} (h : Run (Step api) (init now) tr s)
    (w : Nat) : (s.vars w).Regular :=
  h.invariant (I := fun s => ∀ w, (s.vars w).Regular)
    (fun _ _ _ hi hs => regular_step hi (step_next hs)) (fun _ => LoopVars.regular_new _) w

/-- **The step lemma.** -/
theorem paced_step {w : Nat} {start : Int} {n : Nat} (h : Paced start n s.sys.now (s.vars w).wake)
    (hreg : (s.vars w).Regular) (hr : ∀ jitter, e ≠ .act (.restart w) jitter) (hn : Next api s e s') :
    Paced start (n + (emptyPoll w (s, e)).toNat) s'.sys.now (s'.vars w).wake := by
  have hlater := hn.now_le
  cases hn with
  | @slept e v jitter sys he hsys hnow hworkers hw ha hj =>
    by_cases hv : w = v
    · subst hv
      have hone : emptyPoll w (s, e) = true := (he w).trans (decide_eq_true rfl)
      obtain ⟨-, t, hwake, hlow, -⟩ := hreg.sleep hj s.sys.now
      have hpassed := h.passed ha
      rw [hone, setLoop_sys, setLoop_vars_self, hwake, Bool.toNat_true, hnow]
      exact ⟨by omega, Or.inr ⟨t, rfl, by omega⟩⟩
    · have hnone : emptyPoll w (s, e) = false := (he w).trans (decide_eq_false (Ne.symm hv))
      rw [hnone, setLoop_sys, setLoop_vars_of_ne _ _ _ hv, hnow]
      exact h
  | @claimed a v jitter sys hc hs hw ha =>
    have hnone : emptyPoll w (s, .act a jitter) = false := by
      rcases hc with ⟨rfl, hf⟩ | ⟨jobId, rfl⟩ <;> simp [emptyPoll, *]
    have hnow := (Sys.claim_others hs (hc.imp_left And.left)).1
    rw [hnone, setLoop_sys, hnow]
    by_cases hv : w = v
    · subst hv
      rw [setLoop_vars_self]
      exact ⟨h.asked, Or.inl (h.passed ha)⟩
    · rw [setLoop_vars_of_ne _ _ _ hv]
      exact h
  | @restarted v jitter sys hs =>
    have hv : w ≠ v := fun he => hr jitter (he ▸ rfl)
    rw [setLoop_sys, (Sys.restart_step hs).1, setLoop_vars_of_ne _ _ _ hv]
    exact h
  | @other a jitter sys hclaim hraced hlost hrestart hs =>
    have hnone : emptyPoll w (s, .act a jitter) = false := by
      unfold emptyPoll
      split
      · rename_i he
        exact absurd he (by simp)
      · rename_i he
        exact absurd (LoopEvent.act.inj he).1 (hclaim _)
      · rename_i he
        exact absurd (LoopEvent.act.inj he).1 (hlost _ _)
      · rfl
    rw [hnone]
    exact h.later hlater

/-- **However long there is nothing to do**: over any part of a run in which the worker is not
restarted, it has asked in vain at most once in 100 ms, and once more. -/
theorem polls_paced {now : Int} {w : Nat} {pre part : List (Loops × LoopEvent)} {u : Loops}
    (hu : Run (Step api) (init now) pre u) (h : Run (Step api) u part s)
    (hr : ∀ x ∈ part, ∀ jitter, x.2 ≠ .act (.restart w) jitter) :
    (part.countP (emptyPoll w) : Int) * 100000 ≤ s.sys.now - u.sys.now + 100000 := by
  have hpaced : Paced u.sys.now (part.countP (emptyPoll w)) s.sys.now (s.vars w).wake := by
    refine h.invariant_trace (I := fun part s =>
      (∀ x ∈ part, ∀ jitter, x.2 ≠ .act (.restart w) jitter) →
      Paced u.sys.now (part.countP (emptyPoll w)) s.sys.now (s.vars w).wake) ?_ ?_ hr
    · intro _
      exact ⟨by simp, Or.inl (by simp)⟩
    · intro part s e s' hrun ih hs hr
      have hprev := ih fun x hx => hr x (List.mem_append_left _ hx)
      have hlast := hr (s, e) (List.mem_append_right _ (List.mem_singleton_self _))
      rw [List.countP_append, List.countP_singleton]
      have hstep := paced_step hprev (regular_run (hu.append hrun) w) hlast (step_next hs)
      cases hp : emptyPoll w (s, e) with
      | true => rwa [hp] at hstep
      | false => rwa [hp] at hstep
  exact hpaced.asked

end Steps

/-- The database is empty. -/
theorem polls_paced_empty :
    letI : External := smallNetwork [] []
    ∃ part s, Run (Step sampleApi) (init 0) [] (init 0) ∧ Run (Step sampleApi) (init 0) part s ∧
      part.countP (emptyPoll 1) = 3 ∧
      (part.countP (emptyPoll 1) : Int) * 100000 ≤ s.sys.now - 0 + 100000 := by
  let : External := smallNetwork [] []
  obtain ⟨part, s, hrun, hlab, htest⟩ := exists_run_of_exec (step sampleApi) (init 0)
    [.act (.claim 1) 0, .act (.tick 100000) 0, .claimFailed 1 7, .act (.tick 250000) 0,
      .act (.claim 1) 0] (fun part _ => part.countP (emptyPoll 1) = 3) (by decide +kernel)
  refine ⟨part, s, Run.refl, hrun, of_decide_eq_true htest, polls_paced Run.refl hrun ?_⟩
  intro x hx jitter he
  have hmem := List.mem_map_of_mem (f := Prod.snd) hx
  rw [hlab, he] at hmem
  simp at hmem

/-! ## How long a job waits -/

/-- The timers are on time: time does not pass the end of a sleep, and no claim takes time. -/
def Prompt (count : Nat) (s : Loops) : LoopEvent → Prop
  | .act (.tick d) _ => ∀ w, 1 ≤ w → w ≤ count → s.sys.workers w = .idle →
    ∃ t ∈ (s.vars w).wake, s.sys.now + d ≤ t
  | _ => True

section Waiting

variable [External] {api : HeliusApi} {s s' : Loops} {e : LoopEvent}

/-- **The step lemma.** A worker that has asked in vain wakes within two seconds. -/
theorem awaits_step {count : Nat} {latest latest' : Int} (h : Awaits count latest s)
    (hreg : ∀ w, (s.vars w).Regular) (hprompt : Prompt count s e) (hle : latest ≤ latest')
    (hpoll : ∀ w, w ≤ count → emptyPoll w (s, e) = true → s.sys.now + 2000000 ≤ latest')
    (hn : Next api s e s') : Awaits count latest' s' := by
  cases hn with
  | @slept e v jitter sys he hsys hnow hworkers hw ha hj =>
    refine h.set hle hnow (fun _ _ => by rw [hworkers]) (fun job pc hr => ?_) fun hv t ht => ?_
    · rw [hworkers, hw] at hr
      exact absurd hr (by simp)
    have hone : emptyPoll v (s, e) = true := (he v).trans (decide_eq_true rfl)
    obtain ⟨-, t', hwake, hlow, hhigh⟩ := (hreg v).sleep hj s.sys.now
    obtain rfl := Option.some.inj (hwake.symm.trans ht)
    have hbound := hpoll v hv hone
    exact ⟨by omega, by omega⟩
  | @claimed a v jitter sys hc hs hw ha =>
    obtain ⟨hnow, hothers⟩ := Sys.claim_others hs (hc.imp_left And.left)
    exact h.set hle hnow hothers (fun _ _ _ => rfl) fun _ t ht => absurd ht (by simp [LoopVars.reset])
  | @restarted v jitter sys hs =>
    obtain ⟨hnow, -, hothers⟩ := Sys.restart_step hs
    exact h.set hle hnow hothers (fun _ _ _ => rfl) fun _ t ht => absurd ht (by simp [LoopVars.new])
  | @other a jitter sys hclaim hraced hlost hrestart hs =>
    obtain ⟨hnow, hworkers⟩ := Sys.other_step hs hclaim hraced hrestart
    constructor
    · intro w job pc hw
      have hw' : sys.workers w = .running job pc := hw
      rcases hworkers w with he | ⟨job', pc', hr⟩ | hdead
      · exact h.busy w job pc (he.symm.trans hw')
      · exact h.busy w job' pc' hr
      · exact absurd (hw'.symm.trans hdead) (by simp)
    · intro w hw1 hwc hw t ht
      have hw' : sys.workers w = .idle := hw
      have ht' : t ∈ (s.vars w).wake := ht
      rcases hworkers w with he | ⟨job', pc', hr⟩ | hdead
      · have hidle := he.symm.trans hw'
        obtain ⟨hlow, hhigh⟩ := h.idle w hw1 hwc hidle t ht'
        refine ⟨?_, Int.le_trans hhigh hle⟩
        show sys.now ≤ t
        rcases hnow with hnow | ⟨d, rfl, hnow⟩
        · omega
        · -- the timer is on time
          obtain ⟨t', hwake, hle⟩ := hprompt w hw1 hwc hidle
          obtain rfl := Option.some.inj (hwake.symm.trans ht')
          omega
      · rw [h.busy w job' pc' hr] at ht'
        exact absurd ht' (by simp)
      · exact absurd (hw'.symm.trans hdead) (by simp)

/-- The last worker starts at `startup`. -/
theorem awaits_run {count : Nat} {now : Int} {tr : List (Loops × LoopEvent)}
    (h : Run (Guarded (Step api) (Prompt count)) (init now) tr s) :
    Awaits count (max (s.sys.now + 2000000) (now + (700000 * (count - 1) : Nat))) s := by
  have hrun := Run.invariant (I := fun s => (∀ w, (s.vars w).Regular) ∧
    Awaits count (max (s.sys.now + 2000000) (now + (700000 * (count - 1) : Nat))) s) ?_ h ?_
  · exact hrun.2
  · intro t e u hi hs
    have hn := step_next hs.1
    have hnow := hn.now_le
    exact ⟨regular_step hi.1 hn, awaits_step hi.2 hi.1 hs.2 (by omega) (fun _ _ _ => by omega) hn⟩
  · refine ⟨fun w => LoopVars.regular_new _, fun w job pc hw => absurd hw (by simp [init, Sys.init]),
      fun w hw1 hwc _ t ht => ?_⟩
    obtain rfl : now + (700000 * (w - 1) : Nat) = t := Option.some.inj ht
    have hmul : 700000 * (w - 1) ≤ 700000 * (count - 1) := Nat.mul_le_mul_left _ (by omega)
    show now ≤ _ ∧ _
    omega

/-- **A job does not wait for a worker that sleeps.** While the timers are on time and no claim fails
or loses its answer: if a job could have been claimed for more than two seconds, and every worker has
been started, none of them sleeps; each executes a job, or is about to claim one, or is dead. -/
theorem nobody_sleeps {count : Nat} (hcount : count ≤ 32767) {now : Int}
    {pre part : List (Loops × LoopEvent)} {u : Loops}
    (hu : Run (Guarded (Step api) (Prompt count)) (init now) pre u)
    (h : Run (Guarded (Step api) (Prompt count)) u part s)
    (hjob : ∀ x ∈ part, x.1.sys.db.nextJob ≠ none)
    (hfail : ∀ x ∈ part, ∀ w jitter, x.2 ≠ .claimFailed w jitter ∧
      ∀ jobId, x.2 ≠ .act (.claimLost w jobId) jitter)
    (hstarted : now + (700000 * (count - 1) : Nat) < s.sys.now)
    (hlate : u.sys.now + 2000000 < s.sys.now) :
    ∀ w, 1 ≤ w → w ≤ count → s.sys.workers w = .idle → (s.vars w).wake = none := by
  have hregular := regular_run (Run.guarded_iff.mp hu).1
  have hboth : (∀ w, (s.vars w).Regular) ∧
      Awaits count (max (u.sys.now + 2000000) (now + (700000 * (count - 1) : Nat))) s := by
    refine h.invariant_trace (I := fun part s => (∀ x ∈ part, x.1.sys.db.nextJob ≠ none) →
      (∀ x ∈ part, ∀ w jitter, x.2 ≠ .claimFailed w jitter ∧
        ∀ jobId, x.2 ≠ .act (.claimLost w jobId) jitter) → (∀ w, (s.vars w).Regular) ∧
        Awaits count (max (u.sys.now + 2000000) (now + (700000 * (count - 1) : Nat))) s)
      (fun _ _ => ⟨hregular, awaits_run hu⟩) ?_ hjob hfail
    intro part t e s' _ ih hs hjob hfail
    obtain ⟨hreg, hawaits⟩ := ih (fun x hx => hjob x (List.mem_append_left _ hx))
      fun x hx => hfail x (List.mem_append_left _ hx)
    have hmem : (t, e) ∈ part ++ [(t, e)] := List.mem_append_right _ (List.mem_singleton_self _)
    have hn := step_next hs.1
    refine ⟨regular_step hreg hn, awaits_step hawaits hreg hs.2 (Int.le_refl _)
      (fun w hw hp => ?_) hn⟩
    -- a worker that asks finds the job
    have hfinds := Sys.findsJob_of_nextJob (Nat.le_trans hw hcount) (hjob (t, e) hmem)
    unfold emptyPoll at hp
    split at hp
    · rename_i v jitter he
      exact absurd he (hfail (t, e) hmem v jitter).1
    · rename_i v jitter he
      rw [Bool.and_eq_true, decide_eq_true_eq] at hp
      obtain ⟨rfl, hnot⟩ := hp
      rw [hfinds] at hnot
      exact absurd hnot (by simp)
    · rename_i v jobId jitter he
      exact absurd he ((hfail (t, e) hmem v jitter).2 jobId)
    · exact absurd hp Bool.false_ne_true
  intro w hw1 hwc hidle
  cases hwake : (s.vars w).wake with
  | none => rfl
  | some t =>
    obtain ⟨hlow, hhigh⟩ := hboth.2.idle w hw1 hwc hidle t hwake
    omega

end Waiting

/-- Time passes only while worker 1 is busy. -/
def promptForOne (x : Loops × LoopEvent) : Bool :=
  match x.2 with
  | .act (.tick _) _ =>
    match x.1.sys.workers 1 with
    | .idle => false
    | _ => true
  | _ => true

theorem prompt_of_promptForOne {s : Loops} {e : LoopEvent} (h : promptForOne (s, e) = true) :
    Prompt 1 s e := by
  unfold Prompt
  split
  · intro w hw1 hw2 hidle
    obtain rfl : w = 1 := Nat.le_antisymm hw2 hw1
    simp [promptForOne, hidle] at h
  · trivial

/-- Two jobs, at the start. -/
def twoJobs : Loops :=
  let db := (Db.empty.createProcessingJob "A" 10 1 0).2
  ⟨⟨(db.createProcessingJob "B" 10 1 0).2, 0, fun _ => .idle⟩, (init 0).vars⟩

/-- Worker 1 waits for a job. -/
def isFree (s : Loops) : Bool :=
  match s.sys.workers 1 with
  | .idle => true
  | _ => false

/-- The only worker is at a job that fails after three seconds; then it is about to claim the other
one. -/
theorem nobody_sleeps_twoJobs :
    letI : External := smallNetwork [] []
    ∃ pre part s, Run (Guarded (Step sampleApi) (Prompt 1)) (init 0) pre twoJobs ∧
      Run (Guarded (Step sampleApi) (Prompt 1)) twoJobs part s ∧ s.sys.now = 3000000 ∧
      isFree s = true ∧ ∀ w, 1 ≤ w → w ≤ 1 → s.sys.workers w = .idle → (s.vars w).wake = none := by
  let : External := smallNetwork [] []
  have hfirst : Guarded (Step sampleApi) (Prompt 1) (init 0) (.act (.create "A" 10 1) 0)
      ⟨⟨(Db.empty.createProcessingJob "A" 10 1 0).2, 0, fun _ => .idle⟩, (init 0).vars⟩ :=
    ⟨rfl, trivial⟩
  have hsecond : Guarded (Step sampleApi) (Prompt 1)
      ⟨⟨(Db.empty.createProcessingJob "A" 10 1 0).2, 0, fun _ => .idle⟩, (init 0).vars⟩
      (.act (.create "B" 10 1) 0) twoJobs := ⟨rfl, trivial⟩
  have hu := (Run.single hfirst).tail hsecond
  obtain ⟨part, s, hrun, hlab, htest⟩ := exists_run_of_exec (step sampleApi) twoJobs
    [.act (.claim 1) 0, .act (.tick 3000000) 0, .act (.call 1 (.signatures serveNothing 100)) 0,
      .act (.call 1 (.done [])) 0]
    (fun part s => part.all promptForOne && part.all (fun x => x.1.sys.db.nextJob.isSome) &&
      s.sys.now = 3000000 && isFree s) (by decide +kernel)
  simp only [Bool.and_eq_true, decide_eq_true_eq, List.all_eq_true] at htest
  obtain ⟨⟨⟨hprompt, hjob⟩, hnow⟩, hfree⟩ := htest
  have hrun := Run.guarded_iff.mpr ⟨hrun, fun x hx => prompt_of_promptForOne (hprompt x hx)⟩
  refine ⟨_, part, s, hu, hrun, hnow, hfree, nobody_sleeps (by decide) hu hrun
    (fun x hx hnone => ?_) (fun x hx w jitter => ?_) (hnow ▸ by decide) (hnow ▸ by decide)⟩
  · have := hjob x hx
    rw [hnone] at this
    exact absurd this (by simp)
  · have hmem := List.mem_map_of_mem (f := Prod.snd) hx
    rw [hlab] at hmem
    constructor
    · intro he
      rw [he] at hmem
      simp at hmem
    · intro jobId he
      rw [he] at hmem
      simp at hmem

end Loops

end OnChainEventIndexer
