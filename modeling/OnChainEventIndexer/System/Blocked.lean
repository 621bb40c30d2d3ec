import OnChainEventIndexer.System.Ownership

/-!
# Jobs blocked by a dead worker

`claim_pending_job` passes over every address that has an indexing job, and nothing but the run of
that job ends it: a job has no lease as a signature has. `notBlocked_of_safe`: as long as no worker
stops in the middle of a job, no claim loses its answer and no status update fails (`Safe`), every
indexing job is executed by a worker (`Attended`), and so a pending job can be claimed whenever no
worker executes one.
`blocked_by_crash` is the other case.
-/

namespace OnChainEventIndexer

open Keyed Lts

section JobRun

variable [External] {api : HeliusApi} {job : ClaimedJob} {now : Int} {db db' : Db} {pc pc' : Pc}
  {a : Answer}

/-- A call that panics is the fetch of a batch. -/
theorem Next.panics (hn : Next api job now db pc a db' pc') (hp : pc' = .panicked) :
    ∃ signatures reply, pc = .getTransaction signatures ∧ a = .transactions reply ∧
      getTransaction api reply signatures = none := by
  cases hn with
  | batchPanicked h => exact ⟨_, _, rfl, rfl, h⟩
  | signaturesWritten =>
    unfold Pc.afterPage at hp
    split at hp <;> exact absurd hp (by simp)
  | batchMarked =>
    unfold Pc.afterBatch at hp
    split at hp <;> exact absurd hp (by simp)
  | @dbFailed pc hi => cases pc <;> exact absurd hp (by simp [Pc.afterDbError])
  | _ => exact absurd hp (by simp)

/-- A status update that is executed and not refused leaves the job with a terminal status. -/
theorem Next.finished {chosen : List String} (hn : Next api job now db pc (.done chosen) db' pc')
    (hu : pc.IsStatusUpdate) {j : ProcessingData} (hj : j ∈ db.processingData)
    (hcl : j.claimed = job) (hs : j.status = .indexing)
    (hguard : pc = .updateReady → db.unprocessedInWindow j = false) :
    ∃ j' ∈ db'.processingData, j'.claimed = job ∧ (j'.status = .ready ∨ j'.status = .error) := by
  have hret : pc' = .returned := by
    cases hn with
    | readyUpdated h => rfl
    | readyBlocked h =>
      have hid : job.jobId = j.id := hcl ▸ rfl
      rw [hid, Db.updateStatus_eq_zero hj, Db.mayUpdateStatus_ready db hs, hguard rfl] at h
      exact absurd h (by simp)
    | errorUpdated => rfl
    | _ => rcases hu with h | h <;> exact absurd h (by simp)
  rcases hn.ownRow hj hcl hs with ⟨-, hfinal⟩ | ⟨-, h⟩
  · rcases hfinal (hret ▸ rfl) with h | ⟨h, -⟩
    · exact absurd (hret.symm.trans h) (by simp)
    · exact absurd h (by simp)
  · exact h

end JobRun

namespace Sys

/-- Whenever no worker executes a job and some job is pending, a claim returns a job (for every
worker id the column can hold). -/
def NotBlocked (s : Sys) : Prop :=
  (∀ w job pc, s.workers w ≠ .running job pc) → (∃ j ∈ s.db.processingData, j.status = .pending) →
    ∀ w ≤ 32767, ∃ job db, s.db.claimPendingJob w s.now = .ok (some job, db)

/-- Every indexing job is executed by a worker. -/
def Attended (s : Sys) : Prop :=
  ∀ j ∈ s.db.processingData, j.status = .indexing → ∃ w pc, s.workers w = .running j.claimed pc

/-- What a worker that executes no job becomes does not matter. -/
theorem Attended.setWorker {s : Sys} (h : s.Attended) {w : Nat}
    (hw : ∀ job pc, s.workers w ≠ .running job pc) (x : Worker) : (s.setWorker w x).Attended := by
  intro j hj hs
  obtain ⟨v, pc, hv⟩ := h j hj hs
  have hne : v ≠ w := by
    rintro rfl
    exact hw _ pc hv
  exact ⟨v, pc, setWorker_running.mpr (Or.inr ⟨hne, hv⟩)⟩

/-- A worker that changes no row but that of its job strands no job if it does not strand its
own. -/
theorem Attended.worked {s : Sys} (h : s.Attended) {w : Nat} {job : ClaimedJob} {pc : Pc}
    (hw : s.workers w = .running job pc) {db' : Db} {x : Worker}
    (hother : ∀ j : ProcessingData, j.id ≠ job.jobId →
      (j ∈ s.db.processingData ↔ j ∈ db'.processingData))
    (hown : ∀ j ∈ db'.processingData, j.id = job.jobId → j.status = .indexing →
      ∃ p, x = .running j.claimed p) :
    ({ s with db := db' }.setWorker w x).Attended := by
  intro j hj hs
  by_cases hid : j.id = job.jobId
  · obtain ⟨p, hx⟩ := hown j hj hid hs
    exact ⟨w, p, setWorker_running.mpr (Or.inl ⟨rfl, hx⟩)⟩
  · obtain ⟨v, p, hv⟩ := h j ((hother j hid).mpr hj) hs
    have hne : v ≠ w := by
      rintro rfl
      obtain ⟨hjob, -⟩ := Worker.running.inj (hw.symm.trans hv)
      exact hid (congrArg ClaimedJob.jobId hjob).symm
    exact ⟨v, p, setWorker_running.mpr (Or.inr ⟨hne, hv⟩)⟩

/-- The worker that claims a job executes it, unless `mask_addr` panics on its address. -/
theorem Attended.claimed {s : Sys} (h : s.Attended) {w : Nat} {j j' : ProcessingData}
    (hw : s.workers w = .idle) (hset : claimSet w s.now j = some j')
    (hmask : maskAddr j.address ≠ none) : (s.take w j').Attended := by
  obtain ⟨n, -, rfl⟩ := Db.claimSet_eq_some hset
  intro x hx hs
  rcases Db.mem_setJob.mp hx with ⟨hx, -⟩ | ⟨rfl, -⟩
  · have hidle : ∀ job pc, s.workers w ≠ .running job pc := by
      intro job pc hrun
      rw [hw] at hrun
      exact absurd hrun (by simp)
    exact h.setWorker hidle _ x hx hs
  · refine ⟨w, _, setWorker_running.mpr (Or.inl ⟨rfl, Worker.after_of_not_final ?_⟩)⟩
    unfold Pc.start
    split
    · rename_i hnone
      exact absurd hnone hmask
    · rfl

theorem Attended.notBlocked {s : Sys} (h : s.Attended) : s.NotBlocked := by
  intro hidle ⟨j, hj, hp⟩ w hw
  have hclaimable : s.db.claimable j = true := by
    refine Db.claimable_eq_true.mpr ⟨hp, fun x hx _ hs => ?_⟩
    obtain ⟨v, pc, hv⟩ := h x hx hs
    exact hidle v _ pc hv
  unfold Db.claimPendingJob
  split
  · rename_i hnone
    rw [Db.nextJob_eq_none.mp hnone j hj] at hclaimable
    exact absurd hclaimable (by simp)
  · rename_i x hx
    rw [Db.claimSet_of_le hw]
    exact ⟨_, _, rfl⟩

section Attendance

variable [External]

/-- The step does not strand a job: no worker stops while it executes one, be it by a panic (of
`mask_addr`, on the address of the job it takes or on a signature in a warning) or otherwise, no
claim takes a job and loses its answer, and no status update fails. One that loses its answer does
harm only where the ready guard has refused it. -/
def Safe (api : HeliusApi) (s : Sys) : Act → Prop
  | .claim _ => ∀ j, s.db.nextJob = some j → maskAddr j.address ≠ none
  | .claimRaced _ jobId => ∀ j ∈ s.db.processingData, j.id = jobId → maskAddr j.address ≠ none
  | .call w (.transactions reply) =>
    ∀ job signatures, s.workers w = .running job (.getTransaction signatures) →
      getTransaction api reply signatures ≠ none
  | .call w .dbError => ∀ job pc, s.workers w = .running job pc → ¬pc.IsStatusUpdate
  | .claimLost _ _ => False
  | .callLost w _ => ∀ job, s.workers w = .running job .updateReady →
    ∀ j ∈ s.db.processingData, j.id = job.jobId → s.db.unprocessedInWindow j = false
  | .crash w => ∀ job pc, s.workers w ≠ .running job pc
  | _ => True

variable {api : HeliusApi} {s s' : Sys} {a : Act}

/-- After a safe call of its run, the row of a job is terminal or the run goes on. -/
theorem running_of_called (ha : Assigned s) {w : Nat} {answer : Answer} {job : ClaimedJob}
    {pc pc' : Pc} {db' : Db} (hw : s.workers w = .running job pc) (hsafe : Safe api s (.call w answer))
    (hn : OnChainEventIndexer.Next api job s.now s.db pc answer db' pc') {x : ProcessingData}
    (hx : x ∈ db'.processingData) (hid : x.id = job.jobId) (hs : x.status = .indexing) :
    ∃ p, Worker.after job pc' = .running x.claimed p := by
  obtain ⟨j, hj, hcl, hj'⟩ := ha.indexing w job pc hw
  have hkey : x.id = j.id := hid.trans (congrArg ClaimedJob.jobId hcl).symm
  rcases hn.ownRow hj hcl hj' with ⟨hkept, hfinal⟩ | ⟨-, y, hy, hycl, hterm⟩
  · obtain rfl := Table.eq_of_key hx hkept hkey
    refine ⟨pc', ?_⟩
    rw [hcl]
    refine Worker.after_of_not_final ?_
    by_contra hf
    rcases hfinal (by simpa using hf) with hpanic | ⟨rfl, hu⟩
    · obtain ⟨signatures, reply, rfl, rfl, hnone⟩ := hn.panics hpanic
      exact hsafe job signatures hw hnone
    · exact hsafe job pc hw hu
  · have hyid : y.id = x.id := (congrArg ClaimedJob.jobId hycl).trans hid.symm
    obtain rfl := Table.eq_of_key hy hx hyid
    rw [hs] at hterm
    exact absurd hterm (by simp)

/-- The same of a call whose answer is lost: a status update has gone through, and after any other
statement the run marks its job as an error next. -/
theorem running_of_callLost (ha : Assigned s) {w : Nat} {chosen : List String} {job : ClaimedJob}
    {pc pc' : Pc} {db' : Db} (hw : s.workers w = .running job pc)
    (hsafe : Safe api s (.callLost w chosen))
    (hn : OnChainEventIndexer.Next api job s.now s.db pc (.done chosen) db' pc')
    {x : ProcessingData} (hx : x ∈ db'.processingData) (hid : x.id = job.jobId)
    (hs : x.status = .indexing) : ∃ p, Worker.after job pc.afterDbError = .running x.claimed p := by
  obtain ⟨j, hj, hcl, hj'⟩ := ha.indexing w job pc hw
  have hjid : j.id = job.jobId := congrArg ClaimedJob.jobId hcl
  by_cases hu : pc.IsStatusUpdate
  · obtain ⟨y, hy, hycl, hterm⟩ := hn.finished hu hj hcl hj' fun hpc =>
      hsafe job (hpc ▸ hw) j hj hjid
    have hyid : y.id = x.id := (congrArg ClaimedJob.jobId hycl).trans hid.symm
    obtain rfl := Table.eq_of_key hy hx hyid
    rw [hs] at hterm
    exact absurd hterm (by simp)
  · have hf : pc.afterDbError.final = false := by
      cases pc <;> first | rfl | exact absurd (Or.inl rfl) hu | exact absurd (Or.inr rfl) hu
    obtain rfl := Table.eq_of_key hx (hn.ownRow_lost hf hj hcl hj') (hid.trans hjid.symm)
    refine ⟨pc.afterDbError, ?_⟩
    rw [hcl]
    exact Worker.after_of_not_final hf

/-- **The step lemma.** -/
theorem attended_step (h : Attended s) (ha : Assigned s) (hsafe : Safe api s a)
    (hn : Next api s a s') : Attended s' := by
  cases hn with
  | ticked => exact h
  | created ha' =>
    intro j hj hs
    rcases Db.mem_createProcessingJob.mp hj with hj | rfl
    · exact h j hj hs
    · exact absurd hs (by simp)
  | foundNothing hw => exact h
  | @claimed w a j j' hb hw hj hp hset =>
    refine h.claimed hw hset ?_
    rcases hb with ⟨rfl, hnext⟩ | rfl
    · exact hsafe j hnext
    · exact hsafe j hj rfl
  | lostClaim hw hj hp hset => exact hsafe.elim
  | called hw hn =>
    exact h.worked hw (fun _ hid => hn.otherJobs hid) fun _ => running_of_called ha hw hsafe hn
  | lostCall hw hi hn =>
    exact h.worked hw (fun _ hid => hn.otherJobs hid) fun _ => running_of_callLost ha hw hsafe hn
  | crashed hw => exact h.setWorker hsafe _
  | restarted hw =>
    refine h.setWorker (fun job pc hrun => ?_) _
    rw [hw] at hrun
    exact absurd hrun (by simp)

/-- **No pending job is blocked**, in every state of every run whose steps are all safe. -/
theorem notBlocked_of_safe {now : Int} {tr : List (Sys × Act)}
    (hrun : Run (Guarded (Step api) (Safe api)) (Sys.init now) tr s) : NotBlocked s := by
  have hinv := hrun.invariant (I := fun s => Assigned s ∧ Attended s)
    (fun _ _ _ h hstep => ⟨assigned_step h.1 (step_next hstep.1),
      attended_step h.2 h.1 hstep.2 (step_next hstep.1)⟩)
    ⟨assigned_init now, fun j hj => absurd hj (Table.not_mem_empty j)⟩
  exact hinv.2.notBlocked

end Attendance

/-- A job fails for want of an answer, and a second one for the same address follows. -/
def failedJob : List Act :=
  [.create "A" 10 1, .claim 1, .call 1 (.signatures serveNothing 100), .call 1 (.done []),
    .create "A" 10 1]

theorem notBlocked_failedJob :
    letI : External := smallNetwork [] []
    ∃ tr t, Run (Guarded (Step sampleApi) (Safe sampleApi)) (Sys.init 0) tr t ∧
      tr.map Prod.snd = failedJob ∧ (∃ j ∈ t.db.processingData, j.status = .pending) ∧
      NotBlocked t := by
  let : External := smallNetwork [] []
  obtain ⟨tr, t, hrun, hlab, htest⟩ := exists_run_of_exec (step sampleApi) (Sys.init 0) failedJob
    (fun tr t => (tr.all fun x => x.1.db.nextJob.all fun j => (maskAddr j.address).isSome) &&
      decide (∃ j ∈ t.db.processingData, j.status = .pending)) (by decide +kernel)
  simp only [Bool.and_eq_true, decide_eq_true_eq, List.all_eq_true] at htest
  have hsafe : ∀ x ∈ tr, Safe sampleApi x.1 x.2 := by
    rintro ⟨s, a⟩ hx
    have hmem : a ∈ failedJob := hlab ▸ List.mem_map_of_mem hx
    have hmask := htest.1 (s, a) hx
    simp only [failedJob, List.mem_cons, List.not_mem_nil, or_false] at hmem
    rcases hmem with rfl | rfl | rfl | rfl | rfl
    · trivial
    · intro j hj hnone
      simp only [hj, Option.all_some, hnone] at hmask
      exact absurd hmask (by simp)
    · trivial
    · trivial
    · trivial
  have hrun := Run.guarded_iff.mpr ⟨hrun, hsafe⟩
  exact ⟨tr, t, hrun, hlab, htest.2, notBlocked_of_safe hrun⟩

/-- Worker 1 stops after it has taken the job, and a second job for the address is created. -/
theorem blocked_by_crash :
    letI : External := smallNetwork [] []
    ∃ tr t, Run (Step sampleApi) (Sys.init 0) tr t ∧
      tr.map Prod.snd = [.create "A" 10 1, .claim 1, .crash 1, .create "A" 10 1] ∧
      ¬NotBlocked t := by
  let : External := smallNetwork [] []
  let s1 : Sys := ⟨(Db.empty.createProcessingJob "A" 10 1 0).2, 0, fun _ => .idle⟩
  let s2 := s1.take 1 ⟨1, "A", .indexing, 0, 0, some 1, 10, 1⟩
  let s3 := s2.setWorker 1 .dead
  let s4 : Sys := { s3 with db := (s3.db.createProcessingJob "A" 10 1 0).2 }
  have h1 : Step sampleApi (Sys.init 0) (.create "A" 10 1) s1 := rfl
  have h2 : Step sampleApi s1 (.claim 1) s2 := rfl
  have h3 : Step sampleApi s2 (.crash 1) s3 := rfl
  have h4 : Step sampleApi s3 (.create "A" 10 1) s4 := rfl
  refine ⟨_, s4, (((Run.single h1).tail h2).tail h3).tail h4, rfl, fun h => ?_⟩
  have hidle : ∀ w job pc, s4.workers w ≠ .running job pc := by
    intro w job pc hw
    rcases setWorker_running.mp (hw : s3.workers w = _) with ⟨-, hr⟩ | ⟨hne, hw⟩
    · exact absurd hr (by simp)
    · rcases setWorker_running.mp hw with ⟨hw, -⟩ | ⟨-, hw⟩
      · exact hne hw
      · exact absurd hw (by simp [s1])
  have hnone : s4.db.nextJob = none := rfl
  have hpending : ∃ j ∈ s4.db.processingData, j.status = .pending :=
    ⟨⟨2, "A", .pending, 0, 0, none, 10, 1⟩, by decide, rfl⟩
  obtain ⟨job, db, hclaim⟩ := h hidle hpending 1 (by decide)
  unfold Db.claimPendingJob at hclaim
  rw [hnone] at hclaim
  exact absurd hclaim (by simp)

end Sys

end OnChainEventIndexer
