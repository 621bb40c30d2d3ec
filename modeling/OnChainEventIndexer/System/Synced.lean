import OnChainEventIndexer.Indexer.Listed
import OnChainEventIndexer.System.Exact
import OnChainEventIndexer.System.Interference
import OnChainEventIndexer.System.Progress

/-!
# A job syncs its address

From the claim of a job to the report on it. A worker executes the job, its calls succeed, and
nobody else works at its address; meanwhile time passes, jobs are created, and the other workers
claim and execute jobs of other addresses, fail, stop and start anew (`Undisturbed`).

The parts come together here: the worker ends and leaves nothing of the address unprocessed
(`Indexer/Recovery.lean`), it has listed what the history holds (`Indexer/Listed.lean`), and what is
processed is stored as it is on the chain (`System/Exact.lean`).

* `others_rows`: what the others do leaves the rows of the address alone.
* **`job_syncs`**: the job ends, and then its address is in sync.
-/

namespace OnChainEventIndexer

open Keyed Lts

theorem Db.sameRows_of_view {db db' : Db} {address : String} (jobId : Nat)
    (h : db'.view address jobId = db.view address jobId) : Db.SameRows address db db' := by
  obtain ⟨hsigs, htxs, htransfers, -⟩ := Db.view_eq_iff.mp h
  exact ⟨fun r hr => Table.mem_congr hsigs.symm hr, fun r hr => Table.mem_congr htxs.symm hr,
    fun r hr => Table.mem_congr htransfers.symm hr⟩

/-! ## The invariant -/

namespace Sys

/-- The invariant: the worker is before the call `pc`, or has just ended there. -/
structure Syncing (history : List Signature) (nowTs : Int) (w : Nat) (job : ClaimedJob) (start : Int)
    (s : Sys) (pc : Pc) : Prop where
  worker : s.workers w = .after job pc
  started : start ≤ s.now
  assigned : Assigned s
  row : ∃ j ∈ s.db.processingData, j.claimed = job ∧ Recovering job.address start s.db j pc
  listed : Listed job history nowTs s.db pc

/-- Before the end of the job. -/
theorem Syncing.running {history : List Signature} {nowTs : Int} {w : Nat} {job : ClaimedJob}
    {start : Int} {s : Sys} {pc : Pc} (h : Syncing history nowTs w job start s pc)
    {p : Pc} (hw : s.workers w = .running job p) : p = pc ∧ pc.final = false := by
  obtain ⟨-, rfl, hf⟩ := Worker.after_eq_running (h.worker.symm.trans hw)
  exact ⟨rfl, hf⟩

/-- A bound on the calls left. -/
def callsLeft (history : List Signature) (w : Nat) (s : Sys) : Nat :=
  match s.workers w with
  | .running job pc => remaining history job s.db pc
  | _ => 0

end Sys

section Network

variable [External]

/-- A run for another address. -/
theorem Next.sameRows {api : HeliusApi} {job : ClaimedJob} {now : Int} {db db' : Db} {pc pc' : Pc}
    {a : Answer} {address : String} (hn : Next api job now db pc a db' pc')
    (h : job.address ≠ address) : Db.SameRows address db db' := by
  cases hn with
  | signaturesWritten => exact Db.sameRows_of_view 0 (Db.writeSignatures_other h _)
  | nothingClaimed hc =>
    exact Db.sameRows_of_view 0 (Db.getUnprocessedSignatures_other h _ _)
  | batchClaimed hc hne =>
    exact Db.sameRows_of_view 0 (Db.getUnprocessedSignatures_other h _ _)
  | infoWritten => exact Db.sameRows_of_view 0 (Db.writeTransactionInfo_other h _)
  | transfersWritten => exact Db.sameRows_of_view 0 (Db.writeTokenTransfers_other h _)
  | batchMarked => exact Db.sameRows_of_view 0 (Db.markSignaturesProcessed_other h _)
  | _ => exact .of_eq rfl rfl rfl

/-- The answer to a call: a success that arrives at `nowTs` at the latest, with the transactions of
the chain. -/
structure Answered (api : HeliusApi) (txOf : String → TransactionInfo) (history : List Signature)
    (nowTs : Int) (job : ClaimedJob) (pc : Pc) (a : Answer) : Prop where
  succeeds : Succeeds api job history pc a
  clock : ∀ reply n, a = .signatures reply n → n ≤ nowTs
  honest : ∀ signatures reply, pc = .getTransaction signatures → a = .transactions reply →
    HonestBatch txOf signatures reply

namespace Sys

/-- Worker `w` is at the job and gets its answers; nobody else makes a call for the address. -/
structure Undisturbed (api : HeliusApi) (txOf : String → TransactionInfo) (history : List Signature)
    (nowTs : Int) (w : Nat) (job : ClaimedJob) (s : Sys) (a : Act) : Prop where
  busy : ∃ pc, s.workers w = .running job pc
  alive : a ≠ .crash w
  arrives : ∀ chosen, a ≠ .callLost w chosen
  answered : ∀ pc answer, s.workers w = .running job pc → a = .call w answer →
    Answered api txOf history nowTs job pc answer
  honest : Honest txOf s a
  elsewhere : ∀ v job' pc, Act.IsCallOf v a → v ≠ w → s.workers v = .running job' pc →
    job'.address ≠ job.address

/-- The steps that leave the job undisturbed. -/
def SyncStep (api : HeliusApi) (txOf : String → TransactionInfo) (history : List Signature)
    (nowTs : Int) (w : Nat) (job : ClaimedJob) : Sys → Act → Sys → Prop :=
  Guarded (Step api) (Undisturbed api txOf history nowTs w job)

/-- The step is a call of worker `w`. -/
def isCallOf (w : Nat) (x : Sys × Act) : Bool :=
  match x.2 with
  | .call v _ => v = w
  | _ => false

/-- The address is in sync: the report on the job is complete, the newest `tx_limit` recent entries
of the history are listed, and for everything listed the tables hold its transaction and its
transfers and nothing else. -/
structure InSync (txOf : String → TransactionInfo) (history : List Signature) (nowTs : Int)
    (job : ClaimedJob) (t : Sys) : Prop where
  report : ∃ info, poll none t job.jobId = ⟨200, .jobInfo info⟩ ∧ info.status = .ready ∧
    info.remainingTransactions = 0 ∧ info.processedTransactions = info.totalTransactions
  listed : NewestListed job history nowTs t.db
  stored : ∀ r ∈ t.db.signatures, r.ownerAddress = job.address →
    r.isProcessed = true ∧ TablesExact txOf t.db r

/-- **What becomes of the job**: the calls of its worker are bounded in number, none is the last
before the end, and at the end the worker is free and the address in sync. -/
structure Syncs (api : HeliusApi) (txOf : String → TransactionInfo) (history : List Signature)
    (nowTs : Int) (w : Nat) (job : ClaimedJob) (s : Sys) : Prop where
  ends : ∃ n, ∀ tr t, Run (SyncStep api txOf history nowTs w job) s tr t →
    tr.countP (isCallOf w) ≤ n
  goesOn : ∀ tr t pc, Run (SyncStep api txOf history nowTs w job) s tr t →
    t.workers w = .running job pc →
      (pc ≠ .claimBatch → ∀ a, Answered api txOf history nowTs job pc a →
        ∃ t', SyncStep api txOf history nowTs w job t (.call w a) t') ∧
      (pc = .claimBatch →
        ∃ chosen t', SyncStep api txOf history nowTs w job t (.call w (.done chosen)) t')
  synced : ∀ tr t, Run (SyncStep api txOf history nowTs w job) s tr t →
    (∀ pc, t.workers w ≠ .running job pc) →
      t.workers w = .idle ∧ InSync txOf history nowTs job t

variable {api : HeliusApi} {txOf : String → TransactionInfo} {history : List Signature} {nowTs : Int}
  {w : Nat} {job : ClaimedJob} {start : Int} {s s' : Sys} {a : Act}

/-! ## What the others do -/

/-- The worker of the job stays where it is. -/
theorem others_worker (hn : Next api s a s') {pc : Pc} (hw : s.workers w = .running job pc)
    (ha : ¬Act.IsCallOf w a) (halive : a ≠ .crash w) : s'.workers w = .running job pc := by
  cases hn with
  | @claimed v a j j' hb hv hj hp hset =>
    have hne : w ≠ v := by
      rintro rfl
      exact absurd (hw.symm.trans hv) (by simp)
    exact (setWorker_of_ne _ _ hne).trans hw
  | @called v answer job' p db' p' hv hn =>
    have hne : w ≠ v := by
      rintro rfl
      exact ha (Or.inl ⟨answer, rfl⟩)
    exact (setWorker_of_ne _ _ hne).trans hw
  | @lostCall v chosen job' p db' p' hv hi hn =>
    have hne : w ≠ v := by
      rintro rfl
      exact ha (Or.inr ⟨chosen, rfl⟩)
    exact (setWorker_of_ne _ _ hne).trans hw
  | @crashed v hv =>
    have hne : w ≠ v := by
      rintro rfl
      exact halive rfl
    exact (setWorker_of_ne _ _ hne).trans hw
  | @restarted v hv =>
    have hne : w ≠ v := by
      rintro rfl
      exact absurd (hw.symm.trans hv) (by simp)
    exact (setWorker_of_ne _ _ hne).trans hw
  | _ => exact hw

/-- **The rows of the address stay as they are.** -/
theorem others_rows (hn : Next api s a s') (ha : ¬Act.IsCallOf w a)
    (hu : Undisturbed api txOf history nowTs w job s a) : Db.SameRows job.address s.db s'.db := by
  cases hn with
  | @called v answer job' p db' p' hv hn =>
    exact hn.sameRows (hu.elsewhere v job' p (Or.inl ⟨answer, rfl⟩)
      (fun he => ha (Or.inl ⟨answer, he ▸ rfl⟩)) hv)
  | @lostCall v chosen job' p db' p' hv hi hn =>
    exact hn.sameRows (hu.elsewhere v job' p (Or.inr ⟨chosen, rfl⟩)
      (fun he => ha (Or.inr ⟨chosen, he ▸ rfl⟩)) hv)
  | _ => exact .of_eq rfl rfl rfl

/-! ## One step -/

theorem syncing_others {pc : Pc} (h : Syncing history nowTs w job start s pc)
    (hu : Undisturbed api txOf history nowTs w job s a) (hn : Next api s a s')
    (ha : ¬Act.IsCallOf w a) : Syncing history nowTs w job start s' pc ∧
      callsLeft history w s' = callsLeft history w s := by
  obtain ⟨p, hw⟩ := hu.busy
  obtain ⟨rfl, hf⟩ := h.running hw
  have hw' := others_worker hn hw ha hu.alive
  have hrows := others_rows hn ha hu
  obtain ⟨-, hnow, hjob⟩ := others_step h.assigned hn hw hw' ha
  obtain ⟨j, hj, hcl, hr⟩ := h.row
  constructor
  · exact {
      worker := hw'.trans (Worker.after_of_not_final hf).symm
      started := Int.le_trans h.started hnow
      assigned := assigned_step h.assigned hn
      row := ⟨j, (hjob j (congrArg ClaimedJob.jobId hcl)).mp hj, hcl, hr.of_same hrows⟩
      listed := h.listed.mono hn.le }
  · unfold callsLeft
    rw [hw, hw']
    exact remaining_same hrows p

theorem syncing_call (hist : History history) {pc : Pc} {answer : Answer}
    (h : Syncing history nowTs w job start s pc)
    (hu : Undisturbed api txOf history nowTs w job s (.call w answer))
    (hstep : Step api s (.call w answer) s') :
    ∃ pc', Syncing history nowTs w job start s' pc' ∧
      callsLeft history w s' < callsLeft history w s := by
  obtain ⟨p, hw⟩ := hu.busy
  obtain ⟨rfl, hf⟩ := h.running hw
  have hn := step_next hstep
  obtain ⟨⟨db', pc'⟩, hp, rfl⟩ := call_eq hw hstep
  have hcall := OnChainEventIndexer.step_next hp
  have hanswer := hu.answered p answer hw rfl
  obtain ⟨j, hj, hcl, hr⟩ := h.row
  refine ⟨pc', ?_, ?_⟩
  · exact {
      worker := setWorker_self _ _ _
      started := h.started
      assigned := assigned_step h.assigned hn
      row := recovering_next h.started hj hcl hr hanswer.succeeds hcall
      listed := listed_next hist h.listed hanswer.succeeds hanswer.clock hcall }
  · have hlt := remaining_lt hist.nodup hr hanswer.succeeds hcall
    unfold callsLeft
    rw [hw, setWorker_self]
    cases hf' : pc'.final with
    | false => rwa [Worker.after_of_not_final hf']
    | true =>
      split
      · rename_i he
        exact absurd (Worker.after_eq_running he).2.2 (by simp [hf'])
      · exact Nat.zero_lt_of_lt hlt

/-- **The step lemma.** -/
theorem syncing_step (hist : History history) (h : ∃ pc, Syncing history nowTs w job start s pc)
    (hstep : SyncStep api txOf history nowTs w job s a s') :
    (∃ pc, Syncing history nowTs w job start s' pc) ∧
      (isCallOf w (s, a) = true → callsLeft history w s' < callsLeft history w s) ∧
      (isCallOf w (s, a) = false → callsLeft history w s' ≤ callsLeft history w s) := by
  obtain ⟨pc, h⟩ := h
  obtain ⟨hstep, hu⟩ := hstep
  by_cases ha : Act.IsCallOf w a
  · obtain ⟨answer, rfl⟩ := ha.resolve_right fun ⟨chosen, he⟩ => hu.arrives chosen he
    obtain ⟨pc', h', hlt⟩ := syncing_call hist h hu hstep
    exact ⟨⟨pc', h'⟩, fun _ => hlt, fun _ => Nat.le_of_lt hlt⟩
  · obtain ⟨h', he⟩ := syncing_others h hu (step_next hstep) ha
    refine ⟨⟨pc, h'⟩, fun hcall => absurd ?_ ha, fun _ => Nat.le_of_eq he⟩
    unfold isCallOf at hcall
    split at hcall
    · rename_i v answer hact
      obtain rfl : a = .call v answer := hact
      exact Or.inl ⟨answer, by rw [of_decide_eq_true hcall]⟩
    · exact absurd hcall Bool.false_ne_true

/-! ## Every run -/

/-- The next call. -/
theorem syncing_goesOn {pc : Pc} (h : Syncing history nowTs w job start s pc)
    (hw : s.workers w = .running job pc) {answer : Answer}
    (hanswer : Answered api txOf history nowTs job pc answer)
    (hp : ∃ p, OnChainEventIndexer.step api job s.now s.db pc answer = some p) :
    ∃ t', SyncStep api txOf history nowTs w job s (.call w answer) t' := by
  obtain ⟨p, hp⟩ := hp
  refine ⟨{ s with db := p.1 }.setWorker w (.after job p.2), ?_, ?_⟩
  · unfold Step
    simp only [step, hw, hp]
    rfl
  · refine ⟨⟨pc, hw⟩, by simp, by simp, ?_, ?_, ?_⟩
    · rintro p' answer' hw' he
      obtain ⟨-, rfl⟩ := Act.call.inj he
      obtain ⟨-, rfl⟩ := Worker.running.inj (hw.symm.trans hw')
      exact hanswer
    · cases answer with
      | transactions reply =>
        intro job' signatures hw'
        obtain ⟨-, rfl⟩ := Worker.running.inj (hw.symm.trans hw')
        exact hanswer.honest signatures reply rfl rfl
      | _ => trivial
    · rintro v job' p' (⟨answer', he⟩ | ⟨chosen, he⟩) hne hv
      · exact absurd (Act.call.inj he).1.symm hne
      · exact absurd he (by simp)

/-- The end. -/
theorem syncing_ended {pc : Pc} (h : Syncing history nowTs w job start s pc)
    (hend : ∀ p, s.workers w ≠ .running job p)
    (hexact : ∀ r ∈ s.db.signatures, r.isProcessed = true → TablesExact txOf s.db r) :
    s.workers w = .idle ∧ InSync txOf history nowTs job s := by
  have hfinal : pc.final = true := by
    by_contra hf
    exact hend pc (h.worker.trans (Worker.after_of_not_final (Bool.eq_false_iff.mpr hf)))
  obtain ⟨j, hj, hcl, hr⟩ := h.row
  obtain rfl : pc = .returned := by
    cases pc with
    | returned => rfl
    | panicked => exact hr.elim
    | _ => exact absurd hfinal (by simp [Pc.final])
  obtain ⟨hready, hall⟩ := hr
  have hadd : job.address = j.address := hcl ▸ rfl
  have hid : job.jobId = j.id := hcl ▸ rfl
  refine ⟨h.worker, ?_, h.listed, fun r hr' ha => ?_⟩
  · have hwindow : s.db.unprocessedInWindow j = false := Db.AllProcessed.window (hadd ▸ hall)
    obtain ⟨info, hinfo, hstatus, hzero, htotal⟩ := Db.getJobInfo_complete hj hwindow
    refine ⟨info, ?_, hstatus.trans hready, hzero, htotal⟩
    unfold poll
    rw [hid, hinfo]
    rfl
  · have hp := hall r hr' ha
    exact ⟨hp, hexact r hr' hp⟩

/-- **A job syncs its address.** In every run of the system: a worker is about to fetch for its job,
and no signature of the address has been claimed less than five minutes before. If it is not
disturbed, its calls come to an end, and then the address is in sync with the chain. -/
theorem job_syncs (hfirst : ∀ s, (txOf s).transaction.signatures.head? = some s)
    (hist : History history) {now : Int} {tr : List (Sys × Act)}
    (hrun : Run (Guarded (Step api) (Honest txOf)) (Sys.init now) tr s)
    (hw : s.workers w = .running job (.fetchPage none 0))
    (hstale : s.db.InFlightOnly job.address s.now []) : Syncs api txOf history nowTs w job s := by
  have hassigned := assigned_run (Run.guarded_iff.mp hrun).1
  obtain ⟨j, hj, hcl, hs⟩ := hassigned.indexing w job _ hw
  have hstart : ∃ pc, Syncing history nowTs w job s.now s pc :=
    ⟨.fetchPage none 0, hw, Int.le_refl _, hassigned, ⟨j, hj, hcl, hs, hstale⟩,
      listed_start job history nowTs s.db⟩
  have hnext : ∀ t a u, (∃ pc, Syncing history nowTs w job s.now t pc) →
      SyncStep api txOf history nowTs w job t a u → _ := fun t a u => syncing_step hist
  have hinv : ∀ {tr t}, Run (SyncStep api txOf history nowTs w job) s tr t →
      ∃ pc, Syncing history nowTs w job s.now t pc := fun hrun =>
    hrun.invariant (fun t a u h hstep => (hnext t a u h hstep).1) hstart
  refine ⟨⟨callsLeft history w s, fun tr t hrun => ?_⟩, fun tr t pc hrun hwt => ?_,
    fun tr t hrun' hend => ?_⟩
  · have hcount := Run.countP_add_measure_le (p := isCallOf w) (callsLeft history w)
      (fun t a u h hstep => (hnext t a u h hstep).1) (fun t a u h hstep => (hnext t a u h hstep).2.1)
      (fun t a u h hstep => (hnext t a u h hstep).2.2) hrun hstart
    omega
  · obtain ⟨pc', h⟩ := hinv hrun
    obtain ⟨rfl, hf⟩ := h.running hwt
    obtain ⟨j, -, -, hr⟩ := h.row
    refine ⟨fun hc a ha => syncing_goesOn h hwt ha (step_of_succeeds hr hf ha.succeeds hc), ?_⟩
    rintro rfl
    obtain ⟨chosen, hchosen⟩ := Db.exists_isClaim t.db job.address 100 t.now
    refine ⟨chosen, syncing_goesOn h hwt ⟨trivial, by simp, by simp⟩ ?_⟩
    simp only [OnChainEventIndexer.step, hchosen, if_true]
    exact ⟨_, rfl⟩
  · obtain ⟨pc, h⟩ := hinv hrun'
    -- the whole run, from the start of the system, has honest answers
    have hwhole := hrun.append (hrun'.imp fun _ _ _ hstep => ⟨hstep.1, hstep.2.honest⟩)
    obtain ⟨hpersisted, hchain⟩ := exact_run hfirst hwhole
    exact syncing_ended h hend fun r hr hp => .of_processed hfirst hpersisted hchain hr hp

end Sys

end Network

namespace Sys

/-- Before the first call of job 2. -/
def atJob2 (s : Sys) : Bool :=
  match s.workers 2 with
  | .running job (.fetchPage none 0) => job = ⟨2, "A", 1, 10⟩
  | _ => false

theorem atJob2_eq_true {s : Sys} (h : atJob2 s = true) :
    s.workers 2 = .running ⟨2, "A", 1, 10⟩ (.fetchPage none 0) := by
  unfold atJob2 at h
  split at h
  · rename_i job hw
    rw [hw, of_decide_eq_true h]
  · exact absurd h Bool.false_ne_true

/-- Worker 2 has a job for the address where worker 1 stopped in the middle of a batch, five minutes
ago. -/
theorem job_syncs_reclaimed :
    letI : External := smallNetwork [[⟨some 9000, "s1"⟩]] ["s1"]
    ∃ tr s, Run (Guarded (Step sampleApi) (Honest transactionInfo)) (Sys.init 10100000000) tr s ∧
      tr.map Prod.snd = reclaimed.take 11 ∧ (∃ r ∈ s.db.signatures, r.isProcessed = false) ∧
      Syncs sampleApi transactionInfo [⟨some 9000, "s1"⟩] 10100 2 ⟨2, "A", 1, 10⟩ s := by
  let : External := smallNetwork [[⟨some 9000, "s1"⟩]] ["s1"]
  obtain ⟨tr, s, hrun, hlab, htest⟩ := exists_run_of_exec (step sampleApi) (Sys.init 10100000000)
    (reclaimed.take 11) (fun tr s => tr.all asksForS1 && atJob2 s &&
      decide (∃ r ∈ s.db.signatures, r.isProcessed = false) &&
      decide (∀ r ∈ s.db.signatures, r.ownerAddress = "A" → r.isProcessed = false →
        r.signature ∈ [] ∨ ∀ started ∈ r.processingStartedAt, started < s.now - fiveMinutes))
    (by decide +kernel)
  simp only [Bool.and_eq_true, decide_eq_true_eq, List.all_eq_true] at htest
  obtain ⟨⟨⟨hasks, hjob⟩, hrow⟩, hstale⟩ := htest
  have hhonest := honest_serve hasks fun x hx w reply hxa => by
    have hmem : x.2 ∈ reclaimed.take 11 := hlab ▸ List.mem_map_of_mem hx
    rw [hxa] at hmem
    simp only [reclaimed, List.take_succ_cons, List.take_zero, List.mem_cons, List.not_mem_nil,
      or_false, reduceCtorEq, Act.call.injEq, Answer.transactions.injEq, and_false, false_or] at hmem
    tauto
  have hrun := Run.guarded_iff.mpr ⟨hrun, hhonest⟩
  refine ⟨tr, s, hrun, hlab, hrow, ?_⟩
  exact job_syncs (fun _ => rfl) ⟨by decide, List.pairwise_singleton _ _⟩ hrun (atJob2_eq_true hjob)
    hstale

end Sys

end OnChainEventIndexer
