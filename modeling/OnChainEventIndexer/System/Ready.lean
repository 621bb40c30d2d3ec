import OnChainEventIndexer.System.Ownership

/-!
# What the report on a ready job says

The ready guard looks at the job's window once, at the status update; `get_job_info` looks at it
again with every request, and the signatures table is shared by all jobs of the address.
`ready_report`: a job is reported complete when it becomes ready, and from then on only
signatures that were written later can count as remaining. `remaining_after_ready` is a run in
which one does.
-/

namespace OnChainEventIndexer

open Keyed Lts

namespace Db

variable {db db' : Db} {j : ProcessingData}

/-- Nothing of the job's window is left. -/
theorem unprocessedInWindow_eq_false_iff_joined :
    db.unprocessedInWindow j = false ↔ ∀ r ∈ db.joined j, r.isProcessed = true := by
  rw [unprocessedInWindow_eq_false]
  constructor
  · intro h r hr
    obtain ⟨hr, ha, hw⟩ := mem_joined.mp hr
    exact h r hr ha hw
  · exact fun h r hr ha hw => h r (mem_joined.mpr ⟨hr, ha, hw⟩)

/-- The report on a job with nothing left. -/
theorem getJobInfo_complete (hj : j ∈ db.processingData) (h : db.unprocessedInWindow j = false) :
    ∃ info, db.getJobInfo j.id = some info ∧ info.status = j.status ∧
      info.remainingTransactions = 0 ∧ info.processedTransactions = info.totalTransactions := by
  have hall := unprocessedInWindow_eq_false_iff_joined.mp h
  refine ⟨_, getJobInfo_of_mem hj, rfl, ?_, ?_⟩
  · exact List.countP_eq_zero.mpr fun r hr => by simp [hall r hr]
  · exact List.countP_eq_length.mpr hall

/-- A row of the window that was processed is processed ever after. -/
theorem joined_mono (hle : db.Le db') {j' : ProcessingData} (hs : j.SameJob j')
    (hall : ∀ r ∈ db.joined j, r.isProcessed = true) {r : SignatureRow} (hr : r ∈ db'.joined j')
    (hk : r.key ∈ db.signatures.keys) : r.isProcessed = true := by
  obtain ⟨hr, ha, hw⟩ := mem_joined.mp hr
  obtain ⟨x, hx, hxk⟩ := Table.mem_keys.mp hk
  obtain ⟨x', hx', hk', hb', hp'⟩ := hle.sigs x hx
  obtain rfl := Table.eq_of_key hx' hr (hk'.trans hxk)
  obtain ⟨hxa, -⟩ := Prod.mk.inj hk'
  refine hp' (hall x (mem_joined.mpr ⟨hx, ?_, ?_⟩))
  · exact hxa.symm.trans (ha.trans hs.2.1)
  · rw [← hb']
    exact (hs.inWindow _).mp hw

end Db

section Reports

variable [External]

/-- **How a job becomes ready**: by the guarded update, so with nothing left in its window. -/
theorem Next.becameReady {api : HeliusApi} {job : ClaimedJob} {now : Int} {db db' : Db} {pc pc' : Pc}
    {a : Answer} (hn : Next api job now db pc a db' pc') {j j' : ProcessingData}
    (hj : j ∈ db.processingData) (hcl : j.claimed = job) (hs : j.status = .indexing)
    (hj' : j' ∈ db'.processingData) (hid : j'.id = j.id) (hr : j'.status = .ready) :
    db'.unprocessedInWindow j' = false := by
  have hjob : job.jobId = j.id := hcl ▸ rfl
  have kept : j ∈ db'.processingData → db'.unprocessedInWindow j' = false := by
    intro h
    obtain rfl := Table.eq_of_key hj' h hid
    rw [hs] at hr
    exact absurd hr (by simp)
  cases hn with
  | readyUpdated hone =>
    rw [hjob] at hone hj' ⊢
    have hmay := (Db.updateStatus_eq_one hj).mp hone
    obtain rfl := Table.eq_of_key hj' (Db.mem_updateStatus_of_may hj hmay) hid
    rw [Db.unprocessedInWindow_statusSet]
    exact (Db.mayUpdateStatus_eq_true.mp hmay).2.2 rfl
  | readyBlocked hzero =>
    rw [hjob] at hzero hj' ⊢
    have hmay := (Db.updateStatus_eq_zero hj).mp hzero
    obtain rfl := Table.eq_of_key hj' (Db.mem_updateStatus_of_not hj hmay) hid
    rw [hs] at hr
    exact absurd hr (by simp)
  | errorUpdated =>
    rw [hjob] at hj'
    have hmay := Db.mayUpdateStatus_error db hs
    obtain rfl := Table.eq_of_key hj' (Db.mem_updateStatus_of_may hj hmay) hid
    exact absurd hr (by simp [Db.statusSet])
  | nothingClaimed h => exact kept hj
  | batchClaimed h hne => exact kept hj
  | _ => exact kept (by simpa using hj)

namespace Sys

variable {api : HeliusApi} {s s' : Sys} {a : Act}

theorem Assigned.ready_call (h : Assigned s) {w : Nat} {job : ClaimedJob} {pc pc' : Pc}
    {answer : Answer} {db' : Db} (hw : s.workers w = .running job pc)
    (hn : OnChainEventIndexer.Next api job s.now s.db pc answer db' pc') {j : ProcessingData}
    (hj : j ∈ db'.processingData) (hr : j.status = .ready) :
    j ∈ s.db.processingData ∨
      ((∃ x ∈ s.db.processingData, x.id = j.id ∧ x.status = .indexing) ∧
        db'.unprocessedInWindow j = false) := by
  by_cases hid : j.id = job.jobId
  · obtain ⟨x, hx, hcl, hs⟩ := h.indexing w job pc hw
    have hxid : x.id = job.jobId := congrArg ClaimedJob.jobId hcl
    have hkey : j.id = x.id := hid.trans hxid.symm
    exact Or.inr ⟨⟨x, hx, hkey.symm, hs⟩, hn.becameReady hx hcl hs hj hkey hr⟩
  · exact Or.inl ((hn.otherJobs hid).mpr hj)

/-- A job that is ready after a step was so before, or has become so in the step. -/
theorem ready_step (h : Assigned s) (hn : Next api s a s') {j : ProcessingData}
    (hj : j ∈ s'.db.processingData) (hr : j.status = .ready) :
    j ∈ s.db.processingData ∨
      ((∃ x ∈ s.db.processingData, x.id = j.id ∧ x.status = .indexing) ∧
        s'.db.unprocessedInWindow j = false) := by
  cases hn with
  | ticked => exact Or.inl hj
  | created ha =>
    rcases Db.mem_createProcessingJob.mp hj with hj | rfl
    · exact Or.inl hj
    · exact absurd hr (by simp)
  | foundNothing hw => exact Or.inl hj
  | claimed ha hw hx hp hset =>
    obtain ⟨n, -, rfl⟩ := Db.claimSet_eq_some hset
    rcases Db.mem_setJob.mp hj with ⟨hj, -⟩ | ⟨rfl, -⟩
    · exact Or.inl hj
    · exact absurd hr (by simp)
  | lostClaim hw hx hp hset =>
    obtain ⟨n, -, rfl⟩ := Db.claimSet_eq_some hset
    rcases Db.mem_setJob.mp hj with ⟨hj, -⟩ | ⟨rfl, -⟩
    · exact Or.inl hj
    · exact absurd hr (by simp)
  | called hw hn => exact h.ready_call hw hn hj hr
  | lostCall hw hi hn => exact h.ready_call hw hn hj hr
  | crashed hw => exact Or.inl hj
  | restarted hw => exact Or.inl hj

/-- The run from `s0` to `t` passes from `s1` to `s2`, and there job `j` becomes ready. -/
structure BecomesReady (api : HeliusApi) (s0 : Sys) (tr : List (Sys × Act)) (t s1 s2 : Sys)
    (j : ProcessingData) : Prop where
  split : ∃ tr1 a tr2, tr = tr1 ++ (s1, a) :: tr2 ∧ Run (Step api) s0 tr1 s1 ∧ Step api s1 a s2 ∧
    Run (Step api) s2 tr2 t
  before : ∃ x ∈ s1.db.processingData, x.id = j.id ∧ x.status = .indexing
  after : j ∈ s2.db.processingData ∧ s2.db.unprocessedInWindow j = false

theorem becomesReady_run {now : Int} {tr : List (Sys × Act)} {t : Sys}
    (hrun : Run (Step api) (Sys.init now) tr t) {j : ProcessingData} (hj : j ∈ t.db.processingData)
    (hr : j.status = .ready) : ∃ s1 s2, BecomesReady api (Sys.init now) tr t s1 s2 j := by
  refine hrun.invariant_trace (I := fun tr t => ∀ j ∈ t.db.processingData, j.status = .ready →
    ∃ s1 s2, BecomesReady api (Sys.init now) tr t s1 s2 j) ?_ ?_ j hj hr
  · exact fun j hj _ => absurd hj (Table.not_mem_empty j)
  · intro tr t a u hrun ih hstep j hj hr
    rcases ready_step (assigned_run hrun) (step_next hstep) hj hr with hj' | ⟨hbefore, hwindow⟩
    · obtain ⟨s1, s2, ⟨tr1, b, tr2, rfl, hr1, hb, hr2⟩, hbefore, hafter⟩ := ih j hj' hr
      exact ⟨s1, s2, ⟨tr1, b, tr2 ++ [(t, a)], by simp, hr1, hb, hr2.tail hstep⟩, hbefore, hafter⟩
    · exact ⟨t, u, ⟨tr, a, [], rfl, hrun, hstep, Run.refl⟩, hbefore, hj, hwindow⟩

theorem le_run {tr : List (Sys × Act)} (hrun : Run (Step api) s tr s') : s.db.Le s'.db :=
  hrun.relation (R := fun s t => s.db.Le t.db) (fun _ => .refl _) (fun h h' => h.trans h')
    fun _ _ _ hstep => (step_next hstep).le

/-- **The report on a ready job.** In every run, a job that is ready has become so in one of its
steps; right after it the report says that nothing remains and everything is processed. In every
later state what is reported as remaining are the unprocessed signatures of the window, and none
of them had a row when the job became ready. -/
theorem ready_report {now : Int} {tr : List (Sys × Act)} {t : Sys}
    (hrun : Run (Step api) (Sys.init now) tr t) {j : ProcessingData} (hj : j ∈ t.db.processingData)
    (hr : j.status = .ready) :
    ∃ s1 s2, BecomesReady api (Sys.init now) tr t s1 s2 j ∧
      (∃ info, s2.db.getJobInfo j.id = some info ∧ info.status = .ready ∧
        info.remainingTransactions = 0 ∧ info.processedTransactions = info.totalTransactions) ∧
      (∃ info, t.db.getJobInfo j.id = some info ∧ info.status = .ready ∧
        info.remainingTransactions = (t.db.joined j).countP (!·.isProcessed)) ∧
      ∀ r ∈ t.db.joined j, r.isProcessed = false → r.key ∉ s2.db.signatures.keys := by
  obtain ⟨s1, s2, hready⟩ := becomesReady_run hrun hj hr
  obtain ⟨hj2, hwindow⟩ := hready.after
  obtain ⟨tr1, a, tr2, -, -, -, hlater⟩ := hready.split
  obtain ⟨info, hinfo, hs, hrem, hproc⟩ := Db.getJobInfo_complete hj2 hwindow
  refine ⟨s1, s2, hready, ⟨info, hinfo, hs.trans hr, hrem, hproc⟩,
    ⟨_, Db.getJobInfo_of_mem hj, hr, rfl⟩, fun r hjoined hp hk => ?_⟩
  have hall := Db.unprocessedInWindow_eq_false_iff_joined.mp hwindow
  have := Db.joined_mono (le_run hlater) (.refl j) hall hjoined hk
  rw [hp] at this
  exact absurd this (by simp)

end Sys

end Reports

namespace Sys

/-- Job 1 asks for an hour of `"A"`, for which nothing is listed yet, and becomes ready. Job 2 for
the same address finds a signature of that hour and writes it. -/
def laterJob : List Act :=
  [.create "A" 10 1, .claim 1, .call 1 (.signatures (servePage []) 10000), .call 1 (.done []),
    .call 1 (.done []), .call 1 (.done []),
    .create "A" 10 1, .claim 1, .call 1 (.signatures (servePage [⟨some 9000, "s1"⟩]) 10000),
    .call 1 (.done [])]

theorem ready_report_laterJob :
    letI : External := smallNetwork [[], [⟨some 9000, "s1"⟩]] []
    ∃ tr t j, Run (Step sampleApi) (Sys.init 10000000000) tr t ∧ tr.map Prod.snd = laterJob ∧
      j ∈ t.db.processingData ∧ j.status = .ready ∧
      ∃ s1 s2, BecomesReady sampleApi (Sys.init 10000000000) tr t s1 s2 j ∧
        (∃ info, s2.db.getJobInfo j.id = some info ∧ info.status = .ready ∧
          info.remainingTransactions = 0 ∧ info.processedTransactions = info.totalTransactions) ∧
        (∃ info, t.db.getJobInfo j.id = some info ∧ info.status = .ready ∧
          info.remainingTransactions = (t.db.joined j).countP (!·.isProcessed)) ∧
        ∀ r ∈ t.db.joined j, r.isProcessed = false → r.key ∉ s2.db.signatures.keys := by
  let : External := smallNetwork [[], [⟨some 9000, "s1"⟩]] []
  obtain ⟨tr, t, hrun, hlab, htest⟩ := exists_run_of_exec (step sampleApi) (Sys.init 10000000000)
    laterJob (fun _ t => decide (∃ j ∈ t.db.processingData, j.status = .ready)) (by decide +kernel)
  obtain ⟨j, hj, hr⟩ := of_decide_eq_true htest
  exact ⟨tr, t, j, hrun, hlab, hj, hr, ready_report hrun hj hr⟩

/-- **Ready, with one transaction remaining.** -/
theorem remaining_after_ready :
    letI : External := smallNetwork [[], [⟨some 9000, "s1"⟩]] []
    ∃ tr t info, Run (Step sampleApi) (Sys.init 10000000000) tr t ∧ tr.map Prod.snd = laterJob ∧
      t.db.getJobInfo 1 = some info ∧ info.status = .ready ∧ info.remainingTransactions = 1 ∧
      info.totalTransactions = 1 ∧ info.processedTransactions = 0 := by
  let : External := smallNetwork [[], [⟨some 9000, "s1"⟩]] []
  obtain ⟨tr, t, hrun, hlab, htest⟩ := exists_run_of_exec (step sampleApi) (Sys.init 10000000000)
    laterJob (fun _ t => (t.db.getJobInfo 1).any fun info => info.status = .ready &&
      info.remainingTransactions = 1 && info.totalTransactions = 1 && info.processedTransactions = 0)
    (by decide +kernel)
  obtain ⟨info, hinfo, hall⟩ := (Option.any_eq_true _ _).mp htest
  simp only [Bool.and_eq_true, decide_eq_true_eq] at hall
  exact ⟨tr, t, info, hrun, hlab, hinfo, hall.1.1.1, hall.1.1.2, hall.1.2, hall.2⟩

end Sys

end OnChainEventIndexer
