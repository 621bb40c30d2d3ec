import OnChainEventIndexer.System.Machine

/-!
# Who executes which job

`Assigned`: in every run a worker that executes a job has it indexing, and no other worker executes
it. What the others do leaves the job's row alone (`others_step`), and so the part of a run of the
system in which a worker executes a job is a run of that job as `Indexer/Run.lean` describes it
(`local_run`): the theorems about these hold inside the system.
-/

namespace OnChainEventIndexer

open Keyed Lts

theorem Worker.after_eq_running {job job' : ClaimedJob} {pc pc' : Pc}
    (h : Worker.after job pc = .running job' pc') : job' = job ∧ pc' = pc ∧ pc.final = false := by
  cases pc with
  | returned => exact absurd h (by simp [Worker.after])
  | panicked => exact absurd h (by simp [Worker.after])
  | _ =>
    obtain ⟨rfl, rfl⟩ := Worker.running.inj h
    exact ⟨rfl, rfl, rfl⟩

theorem Worker.after_of_not_final {job : ClaimedJob} {pc : Pc} (h : pc.final = false) :
    Worker.after job pc = .running job pc := by
  cases pc with
  | returned => exact absurd h (by simp [Pc.final])
  | panicked => exact absurd h (by simp [Pc.final])
  | _ => rfl

section LostAnswers

variable [External] {api : HeliusApi} {job : ClaimedJob} {now : Int} {db db' : Db} {pc pc' : Pc}
  {a : Answer}

/-- A run returns from a status update. -/
theorem Next.isStatusUpdate (h : Next api job now db pc a db' pc') (hp : pc' = .returned) :
    pc.IsStatusUpdate := by
  cases h with
  | readyUpdated h => exact Or.inl rfl
  | errorUpdated => exact Or.inr rfl
  | signaturesWritten =>
    unfold Pc.afterPage at hp
    split at hp <;> exact absurd hp (by simp)
  | batchMarked =>
    unfold Pc.afterBatch at hp
    split at hp <;> exact absurd hp (by simp)
  | @dbFailed pc hi =>
    cases pc with
    | updateReady => exact Or.inl rfl
    | updateError => exact Or.inr rfl
    | _ => exact absurd hp (by simp [Pc.afterDbError])
  | _ => exact absurd hp (by simp)

/-- A run that goes on after a call whose answer was lost has its row as it was. -/
theorem Next.ownRow_lost (h : Next api job now db pc a db' pc') (hf : pc.afterDbError.final = false)
    {j : ProcessingData} (hj : j ∈ db.processingData) (hcl : j.claimed = job)
    (hs : j.status = .indexing) : j ∈ db'.processingData := by
  rcases h.ownRow hj hcl hs with ⟨hj', -⟩ | ⟨hret, -⟩
  · exact hj'
  · rcases h.isStatusUpdate hret with rfl | rfl <;>
      exact absurd hf (by simp [Pc.afterDbError, Pc.final])

end LostAnswers

namespace Sys

theorem setWorker_running {s : Sys} {v w : Nat} {x : Worker} {job : ClaimedJob} {pc : Pc} :
    (s.setWorker w x).workers v = .running job pc ↔
      (v = w ∧ x = .running job pc) ∨ (v ≠ w ∧ s.workers v = .running job pc) := by
  by_cases h : v = w
  · subst h
    simp
  · rw [setWorker_of_ne s x h]
    simp [h]

/-- A worker that executes a job has it indexing, alone. -/
structure Assigned (s : Sys) : Prop where
  indexing : ∀ w job pc, s.workers w = .running job pc →
    ∃ j ∈ s.db.processingData, j.claimed = job ∧ j.status = .indexing
  alone : ∀ v w job job' pc pc', s.workers v = .running job pc → s.workers w = .running job' pc' →
    job.jobId = job'.jobId → v = w

theorem assigned_init (now : Int) : Assigned (Sys.init now) :=
  ⟨fun _ _ _ h => absurd h (by simp [Sys.init]), fun _ _ _ _ _ _ h => absurd h (by simp [Sys.init])⟩

/-- A worker that stops executes nothing. -/
theorem Assigned.stop {s : Sys} (h : Assigned s) {w : Nat} {x : Worker}
    (hx : ∀ job pc, x ≠ .running job pc) : Assigned (s.setWorker w x) := by
  constructor
  · intro v job pc hv
    rcases setWorker_running.mp hv with ⟨-, hr⟩ | ⟨-, hr⟩
    · exact absurd hr (hx job pc)
    · exact h.indexing v job pc hr
  · intro u v job job' pc pc' hu hv hid
    rcases setWorker_running.mp hu with ⟨-, hr⟩ | ⟨-, hu⟩
    · exact absurd hr (hx job pc)
    · rcases setWorker_running.mp hv with ⟨-, hr⟩ | ⟨-, hv⟩
      · exact absurd hr (hx job' pc')
      · exact h.alone u v job job' pc pc' hu hv hid

/-- A job that is pending is executed by nobody. -/
theorem Assigned.not_running {s : Sys} (h : Assigned s) {j : ProcessingData}
    (hj : j ∈ s.db.processingData) (hp : j.status = .pending) {w : Nat} {job : ClaimedJob} {pc : Pc}
    (hw : s.workers w = .running job pc) : job.jobId ≠ j.id := by
  intro hid
  obtain ⟨x, hx, hcl, hs⟩ := h.indexing w job pc hw
  have hkey : x.id = j.id := (congrArg ClaimedJob.jobId hcl).trans hid
  obtain rfl := Table.eq_of_key hx hj hkey
  rw [hp] at hs
  exact absurd hs (by simp)

/-- A worker that makes a call, whether it gets the answer or not: what the call leaves alone is
its own job's row, as long as the job goes on, and the rows of all other jobs. -/
theorem Assigned.call {s : Sys} (h : Assigned s) {w : Nat} {job : ClaimedJob} {pc pc' : Pc}
    {db' : Db} (hw : s.workers w = .running job pc)
    (hother : ∀ j : ProcessingData, j.id ≠ job.jobId →
      (j ∈ s.db.processingData ↔ j ∈ db'.processingData))
    (hown : pc'.final = false → ∀ j ∈ s.db.processingData, j.claimed = job →
      j.status = .indexing → j ∈ db'.processingData) :
    Assigned ({ s with db := db' }.setWorker w (.after job pc')) := by
  have halone : ∀ v job' p, v ≠ w → s.workers v = .running job' p → job'.jobId ≠ job.jobId :=
    fun v job' p hne hv hid => hne (h.alone v w job' job p pc hv hw hid)
  constructor
  · intro v job' p hv
    rcases setWorker_running.mp hv with ⟨rfl, hr⟩ | ⟨hne, hv⟩
    · obtain ⟨rfl, rfl, hf⟩ := Worker.after_eq_running hr
      obtain ⟨j, hj, hcl, hs⟩ := h.indexing v job' pc hw
      exact ⟨j, hown hf j hj hcl hs, hcl, hs⟩
    · obtain ⟨j, hj, hcl, hs⟩ := h.indexing v job' p hv
      have hid : j.id ≠ job.jobId := fun he => halone v job' p hne hv (by rw [← hcl]; exact he)
      exact ⟨j, (hother j hid).mp hj, hcl, hs⟩
  · intro u v job' job'' p p' hu hv hid
    rcases setWorker_running.mp hu with ⟨rfl, hr⟩ | ⟨hneu, hu'⟩
    · obtain ⟨rfl, -, -⟩ := Worker.after_eq_running hr
      rcases setWorker_running.mp hv with ⟨rfl, -⟩ | ⟨hnev, hv'⟩
      · rfl
      · exact absurd hid.symm (halone v job'' p' hnev hv')
    · rcases setWorker_running.mp hv with ⟨rfl, hr⟩ | ⟨-, hv'⟩
      · obtain ⟨rfl, -, -⟩ := Worker.after_eq_running hr
        exact absurd hid (halone u job' p hneu hu')
      · exact h.alone u v job' job'' p p' hu' hv' hid

variable [External] {api : HeliusApi} {s s' : Sys} {a : Act}

/-- **The step lemma.** -/
theorem assigned_step (h : Assigned s) (hn : Next api s a s') : Assigned s' := by
  cases hn with
  | ticked => exact ⟨h.indexing, h.alone⟩
  | created ha =>
    refine ⟨fun w job pc hw => ?_, h.alone⟩
    obtain ⟨j, hj, hcl⟩ := h.indexing w job pc hw
    exact ⟨j, Db.mem_createProcessingJob.mpr (Or.inl hj), hcl⟩
  | foundNothing hw => exact h
  | @claimed w a j j' ha hw hj hp hset =>
    obtain ⟨n, -, rfl⟩ := Db.claimSet_eq_some hset
    have hfree : ∀ v job pc, s.workers v = .running job pc → job.jobId ≠ j.id :=
      fun v job pc hv => h.not_running hj hp hv
    constructor
    · intro v job pc hv
      rcases setWorker_running.mp hv with ⟨-, hr⟩ | ⟨-, hv⟩
      · obtain ⟨rfl, -, -⟩ := Worker.after_eq_running hr
        have hmem : j.id ∈ s.db.processingData.keys := Table.key_mem_keys hj
        exact ⟨_, Db.mem_setJob.mpr (Or.inr ⟨rfl, hmem⟩), rfl, rfl⟩
      · obtain ⟨x, hx, hcl, hs⟩ := h.indexing v job pc hv
        have hne : x.id ≠ j.id := fun he => hfree v job pc hv (by rw [← hcl]; exact he)
        exact ⟨x, Db.mem_setJob.mpr (Or.inl ⟨hx, hne⟩), hcl, hs⟩
    · intro u v job job' pc pc' hu hv hid
      rcases setWorker_running.mp hu with ⟨rfl, hr⟩ | ⟨-, hu'⟩
      · obtain ⟨rfl, -, -⟩ := Worker.after_eq_running hr
        rcases setWorker_running.mp hv with ⟨rfl, -⟩ | ⟨-, hv'⟩
        · rfl
        · exact absurd hid.symm (hfree v job' pc' hv')
      · rcases setWorker_running.mp hv with ⟨rfl, hr⟩ | ⟨-, hv'⟩
        · obtain ⟨rfl, -, -⟩ := Worker.after_eq_running hr
          exact absurd hid (hfree u job pc hu')
        · exact h.alone u v job job' pc pc' hu' hv' hid
  | @lostClaim w j j' hw hj hp hset =>
    obtain ⟨n, -, rfl⟩ := Db.claimSet_eq_some hset
    refine ⟨fun v job pc hv => ?_, h.alone⟩
    obtain ⟨x, hx, hcl, hs⟩ := h.indexing v job pc hv
    have hne : x.id ≠ j.id := fun he => h.not_running hj hp hv (by rw [← hcl]; exact he)
    exact ⟨x, Db.mem_setJob.mpr (Or.inl ⟨hx, hne⟩), hcl, hs⟩
  | @called w a job pc db' pc' hw hn =>
    refine h.call hw (fun j hj => hn.otherJobs hj) fun hf j hj hcl hs => ?_
    rcases hn.ownRow hj hcl hs with ⟨hj', -⟩ | ⟨rfl, -⟩
    · exact hj'
    · exact absurd hf (by simp [Pc.final])
  | lostCall hw hi hn =>
    exact h.call hw (fun j hj => hn.otherJobs hj) fun hf j hj hcl hs => hn.ownRow_lost hf hj hcl hs
  | crashed hw => exact h.stop (by simp)
  | restarted hw => exact h.stop (by simp)

theorem assigned_run {now : Int} {tr : List (Sys × Act)} (h : Run (Step api) (Sys.init now) tr s) :
    Assigned s := h.invariant (fun _ _ _ hi hs => assigned_step hi (step_next hs)) (assigned_init now)

/-! ## A job run inside the system -/

/-- The call is one of worker `w`. -/
def Act.IsCallOf (w : Nat) (a : Act) : Prop :=
  (∃ answer, a = .call w answer) ∨ ∃ chosen, a = .callLost w chosen

/-- **What the others do**: while `w` executes a job, a step that is not its own leaves the worker
and the job's row alone. -/
theorem others_step (h : Assigned s) (hn : Next api s a s') {w : Nat} {job : ClaimedJob} {pc pc' : Pc}
    (hw : s.workers w = .running job pc) (hw' : s'.workers w = .running job pc')
    (ha : ¬Act.IsCallOf w a) : pc' = pc ∧ s.now ≤ s'.now ∧ Db.SameJobRow job.jobId s.db s'.db := by
  obtain ⟨j, hj, hcl, hs⟩ := h.indexing w job pc hw
  have hid : j.id = job.jobId := congrArg ClaimedJob.jobId hcl
  have same : s'.workers w = s.workers w → pc' = pc := fun he => by
    rw [hw, hw'] at he
    exact (Worker.running.inj he).2
  cases hn with
  | ticked => exact ⟨same rfl, Int.le_add_of_nonneg_right (Int.natCast_nonneg _), .refl _ _⟩
  | created _ =>
    refine ⟨same rfl, Int.le_refl _, fun x hx => ?_⟩
    refine ⟨fun hm => Db.mem_createProcessingJob.mpr (Or.inl hm), fun hm => ?_⟩
    rcases Db.mem_createProcessingJob.mp hm with hm | rfl
    · exact hm
    · -- the new id is beyond that of the job
      have hlt := s.db.seq _ (Table.key_mem_keys hj)
      have : s.db.nextId = job.jobId := hx
      omega
  | foundNothing hv => exact ⟨same rfl, Int.le_refl _, .refl _ _⟩
  | @claimed v a x x' hb hv hx hp hset =>
    obtain ⟨n, -, rfl⟩ := Db.claimSet_eq_some hset
    have hne : w ≠ v := by
      rintro rfl
      rw [hw] at hv
      exact absurd hv (by simp)
    refine ⟨same (setWorker_of_ne _ _ hne), Int.le_refl _, fun y hy => ?_⟩
    have hother : y.id ≠ x.id := fun he => h.not_running hx hp hw (hy.symm.trans he)
    constructor
    · exact fun hm => Db.mem_setJob.mpr (Or.inl ⟨hm, hother⟩)
    · intro hm
      rcases Db.mem_setJob.mp hm with ⟨hm, -⟩ | ⟨rfl, -⟩
      · exact hm
      · exact absurd rfl hother
  | @lostClaim v x x' hv hx hp hset =>
    obtain ⟨n, -, rfl⟩ := Db.claimSet_eq_some hset
    refine ⟨same rfl, Int.le_refl _, fun y hy => ?_⟩
    have hother : y.id ≠ x.id := fun he => h.not_running hx hp hw (hy.symm.trans he)
    constructor
    · exact fun hm => Db.mem_setJob.mpr (Or.inl ⟨hm, hother⟩)
    · intro hm
      rcases Db.mem_setJob.mp hm with ⟨hm, -⟩ | ⟨rfl, -⟩
      · exact hm
      · exact absurd rfl hother
  | @called v answer job' p db' p' hv hn =>
    have hne : w ≠ v := by
      rintro rfl
      exact ha (Or.inl ⟨answer, rfl⟩)
    refine ⟨same (setWorker_of_ne _ _ hne), Int.le_refl _, fun y hy => hn.otherJobs fun he => ?_⟩
    exact hne (h.alone w v job job' pc p hw hv (hy.symm.trans he))
  | @lostCall v chosen job' p db' p' hv hi hn =>
    have hne : w ≠ v := by
      rintro rfl
      exact ha (Or.inr ⟨chosen, rfl⟩)
    refine ⟨same (setWorker_of_ne _ _ hne), Int.le_refl _, fun y hy => hn.otherJobs fun he => ?_⟩
    exact hne (h.alone w v job job' pc p hw hv (hy.symm.trans he))
  | @crashed v hv =>
    have hne : w ≠ v := by
      rintro rfl
      rw [setWorker_self] at hw'
      exact absurd hw' (by simp)
    exact ⟨same (setWorker_of_ne _ _ hne), Int.le_refl _, .refl _ _⟩
  | @restarted v hv =>
    have hne : w ≠ v := by
      rintro rfl
      rw [setWorker_self] at hw'
      exact absurd hw' (by simp)
    exact ⟨same (setWorker_of_ne _ _ hne), Int.le_refl _, .refl _ _⟩

/-- What a job run can rely on inside the system: its row is left alone, and rows stay. -/
def LeavesAlone (job : ClaimedJob) (db db' : Db) : Prop :=
  Db.SameJobRow job.jobId db db' ∧ db.Le db'

theorem call_eq {w : Nat} {answer : Answer} {job : ClaimedJob} {pc : Pc}
    (hw : s.workers w = .running job pc) (h : Step api s (.call w answer) s') :
    ∃ p, OnChainEventIndexer.step api job s.now s.db pc answer = some p ∧
      s' = { s with db := p.1 }.setWorker w (.after job p.2) := by
  unfold Step at h
  simp only [step, hw] at h
  obtain ⟨p, hp, rfl⟩ := Option.map_eq_some_iff.mp h
  exact ⟨p, hp, rfl⟩

/-- **A job run inside the system** is a run of the job: the calls of its worker, if each gets its
answer, are its steps, everything in between is what the others do. -/
theorem local_run {t : Sys} {tr : List (Sys × Act)} (hrun : Run (Step api) s tr t) (h : Assigned s)
    {w : Nat} {job : ClaimedJob} {pc pc' : Pc} (hw : s.workers w = .running job pc)
    (hall : ∀ x ∈ tr, (∃ p, x.1.workers w = .running job p) ∧ ∀ chosen, x.2 ≠ .callLost w chosen)
    (hw' : t.workers w = .running job pc') :
    ∃ ltr lt, Run (LocalStep api job (LeavesAlone job)) ⟨s.db, s.now, pc⟩ ltr lt ∧ lt.pc = pc' ∧
      lt.now ≤ t.now ∧ LeavesAlone job lt.db t.db := by
  induction hrun generalizing pc' with
  | refl =>
    rw [hw] at hw'
    obtain ⟨-, rfl⟩ := Worker.running.inj hw'
    exact ⟨[], _, Run.refl, rfl, Int.le_refl _, .refl _ _, .refl _⟩
  | @tail tr t u a hr hs ih =>
    obtain ⟨⟨p, hp⟩, hanswered⟩ := hall (t, a) (List.mem_append_right _ (List.mem_singleton_self _))
    obtain ⟨ltr, lt, hlrun, rfl, hnow, hrely⟩ :=
      ih (fun x hx => hall x (List.mem_append_left _ hx)) hp
    have hassigned : Assigned t := hr.invariant (fun _ _ _ hi hs => assigned_step hi (step_next hs)) h
    have hn := step_next hs
    by_cases hcall : Act.IsCallOf w a
    · obtain ⟨answer, rfl⟩ := hcall.resolve_right fun ⟨chosen, he⟩ => hanswered chosen he
      obtain ⟨q, hq, rfl⟩ := call_eq hp hs
      rw [setWorker_self] at hw'
      obtain ⟨-, rfl, -⟩ := Worker.after_eq_running hw'
      have hstep : LocalStep api job (LeavesAlone job) lt (t.now, answer) ⟨q.1, t.now, q.2⟩ :=
        ⟨t.db, hrely, hnow, rfl, hq⟩
      exact ⟨_, _, hlrun.tail hstep, rfl, Int.le_refl _, .refl _ _, .refl _⟩
    · obtain ⟨rfl, hle, hsame⟩ := others_step hassigned hn hp hw' hcall
      exact ⟨ltr, lt, hlrun, rfl, Int.le_trans hnow hle, fun j hj =>
        (hrely.1 j hj).trans (hsame j hj),
        hrely.2.trans hn.le⟩

end Sys

end OnChainEventIndexer
