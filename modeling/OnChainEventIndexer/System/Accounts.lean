import OnChainEventIndexer.System.Persisted
import Mathlib.Algebra.BigOperators.Group.List.Basic

/-!
# The counts that the calls report

`write_signatures`, `write_transaction_info`, `write_token_transfers`, `mark_signatures_processed` and
`update_processing_status_by_job_id` return the rows they have affected, and the logs show them.
However the workers interleave, and also where two of them work on the same signatures, nothing is
counted twice, and nothing is left out but what the lost answers would have reported.

* `Account`: a number that the tables hold; `Sys.credit` is what a step reports of it, and
  `Sys.unreported` what a statement whose answer was lost has done to it.
* **`accounts_balance`**: in every state of every run the two add up to what the tables hold, and
  without lost answers the reports do; a job is claimed at most once, and finished at most once after
  that.
-/

namespace OnChainEventIndexer

open Keyed Lts

/-- A number of rows. -/
inductive Account
  /-- The signatures of the address. -/
  | listed (address : String)
  /-- ...those of them that are processed. -/
  | processed (address : String)
  | transactions (address : String)
  | tokenTransfers (address : String)
  /-- The job has been claimed. -/
  | claimed (jobId : Nat)
  /-- The job is ready, or has failed. -/
  | finished (jobId : Nat)
deriving DecidableEq

namespace Account

/-- What the tables hold. -/
def balance (db : Db) : Account → Nat
  | .listed address => db.signatures.rows.countP (·.ownerAddress = address)
  | .processed address => db.signatures.rows.countP fun r => r.ownerAddress = address && r.isProcessed
  | .transactions address => db.transactions.rows.countP (·.ownerAddress = address)
  | .tokenTransfers address => db.tokenTransfers.rows.countP (·.trackedOwner = address)
  | .claimed jobId => db.processingData.rows.countP fun j => j.id = jobId && j.status ≠ .pending
  | .finished jobId => db.processingData.rows.countP fun j =>
      j.id = jobId && (j.status = .ready || j.status = .error)

variable {db : Db}

/-! ## What the statements report -/

theorem balance_writeSignatures (acc : Account) (signatures : RpcResponse) (address : String) :
    acc.balance (db.writeSignatures signatures address).2 = acc.balance db +
      if acc = .listed address then (db.writeSignatures signatures address).1 else 0 := by
  rw [Db.writeSignatures_eq]
  cases acc with
  | listed owner =>
    have hkind : ∀ r ∈ signatures.result.map (Db.signatureRow address),
        decide (r.ownerAddress = owner) = decide (listed owner = .listed address) := by
      intro r hr
      obtain ⟨s, -, rfl⟩ := List.mem_map.mp hr
      exact decide_eq_decide.mpr ⟨fun h => h ▸ rfl, fun h => (Account.listed.inj h).symm⟩
    refine (Table.countP_insertAll hkind).trans ?_
    simp only [balance, decide_eq_true_eq]
  | processed owner =>
    have hkind : ∀ r ∈ signatures.result.map (Db.signatureRow address),
        (decide (r.ownerAddress = owner) && r.isProcessed) = false := by
      intro r hr
      obtain ⟨s, -, rfl⟩ := List.mem_map.mp hr
      simp [Db.signatureRow]
    exact Table.countP_insertAll hkind
  | _ => rfl

theorem balance_getUnprocessedSignatures (acc : Account) (address : String) (now : Int)
    (chosen : List String) :
    acc.balance (db.getUnprocessedSignatures address now chosen).2 = acc.balance db := by
  cases acc with
  | listed owner => exact Table.countP_update_eq (SignatureRow.claim_key now) fun _ _ _ => rfl
  | processed owner => exact Table.countP_update_eq (SignatureRow.claim_key now) fun _ _ _ => rfl
  | _ => rfl

theorem balance_markSignaturesProcessed (acc : Account) (address : String)
    (signatures : List String) :
    acc.balance (db.markSignaturesProcessed address signatures).2 = acc.balance db +
      if acc = .processed address then (db.markSignaturesProcessed address signatures).1 else 0 := by
  unfold Db.markSignaturesProcessed
  split
  · simp
  · cases acc with
    | listed owner => exact Table.countP_update_eq SignatureRow.mark_key fun _ _ _ => rfl
    | processed owner =>
      by_cases ho : owner = address
      · subst ho
        rw [if_pos rfl]
        refine Table.countP_update SignatureRow.mark_key fun r _ hw => ?_
        rw [Bool.and_eq_true, Db.ownedIn_eq_true, Bool.not_eq_true'] at hw
        simp [SignatureRow.mark, hw.1.1, hw.2]
      · rw [if_neg (by simpa using ho)]
        refine Table.countP_update_eq SignatureRow.mark_key fun r _ hw => ?_
        rw [Bool.and_eq_true, Db.ownedIn_eq_true] at hw
        have hother : r.ownerAddress ≠ owner := fun he => ho (he.symm.trans hw.1.1)
        simp [SignatureRow.mark, hother]
    | _ => rfl

theorem balance_writeTransactionInfo (acc : Account) (txs : List TransactionResult)
    (address : String) :
    acc.balance (db.writeTransactionInfo txs address).2 = acc.balance db +
      if acc = .transactions address then (db.writeTransactionInfo txs address).1 else 0 := by
  rw [Db.writeTransactionInfo_eq]
  cases acc with
  | transactions owner =>
    have hkind : ∀ r ∈ txs.map (transactionRow address),
        decide (r.ownerAddress = owner) = decide (transactions owner = .transactions address) := by
      intro r hr
      obtain ⟨tx, -, rfl⟩ := List.mem_map.mp hr
      exact decide_eq_decide.mpr ⟨fun h => h ▸ rfl, fun h => (Account.transactions.inj h).symm⟩
    refine (Table.countP_insertAll hkind).trans ?_
    simp only [balance, decide_eq_true_eq]
  | _ => rfl

/-- A status update finishes its job. -/
theorem balance_updateStatus (acc : Account) (jobId : Nat) {status : Status}
    (hs : status = .ready ∨ status = .error) (now : Int) :
    acc.balance (db.updateProcessingStatusByJobId jobId status now).2 = acc.balance db +
      if acc = .finished jobId then (db.updateProcessingStatusByJobId jobId status now).1 else 0 := by
  have hset : ∀ j, (Db.statusSet status now j).status = status := fun _ => rfl
  cases acc with
  | claimed i =>
    refine Table.countP_update_eq (Db.statusSet_id status now) fun j _ hm => ?_
    obtain ⟨-, hindexing, -⟩ := Db.mayUpdateStatus_eq_true.mp hm
    rw [hset, hindexing, Db.statusSet_id]
    rcases hs with rfl | rfl <;> rfl
  | finished i =>
    by_cases hi : i = jobId
    · subst hi
      rw [if_pos rfl]
      refine Table.countP_update (Db.statusSet_id status now) fun j _ hm => ?_
      obtain ⟨hid, hindexing, -⟩ := Db.mayUpdateStatus_eq_true.mp hm
      rw [hset, hindexing, Db.statusSet_id, hid]
      rcases hs with rfl | rfl <;> simp
    · rw [if_neg (by simpa using hi)]
      refine Table.countP_update_eq (Db.statusSet_id status now) fun j _ hm => ?_
      obtain ⟨hid, -, -⟩ := Db.mayUpdateStatus_eq_true.mp hm
      have hother : j.id ≠ i := fun he => hi (he.symm.trans hid)
      rw [Db.statusSet_id]
      simp [hother]
  | _ => rfl

/-- A new job is pending. -/
theorem balance_createProcessingJob (acc : Account) (address : String)
    (txLimit requestedHours : Int16) (now : Int) :
    acc.balance (db.createProcessingJob address txLimit requestedHours now).2 = acc.balance db := by
  have hnew : ∀ (row : ProcessingData) (p : ProcessingData → Bool), p row = false →
      (db.processingData.insertAll [row]).rows.countP p = db.processingData.rows.countP p :=
    fun row p hp => Table.countP_insertAll (b := false) fun r hr => List.mem_singleton.mp hr ▸ hp
  cases acc with
  | claimed i => exact hnew _ _ (by simp)
  | finished i => exact hnew _ _ (by simp)
  | _ => rfl

/-- A claim takes its job out of the pending ones. -/
theorem balance_setJob (acc : Account) {workerId : Nat} {now : Int} {j j' : ProcessingData}
    (hj : j ∈ db.processingData) (hp : j.status = .pending)
    (hset : claimSet workerId now j = some j') :
    acc.balance (db.setJob j') = acc.balance db + if acc = .claimed j.id then 1 else 0 := by
  obtain ⟨n, -, rfl⟩ := Db.claimSet_eq_some hset
  have hrow : ∀ x ∈ db.processingData, decide (x.id = j.id) = true → x = j := fun x hx hid =>
    Table.eq_of_key hx hj (of_decide_eq_true hid)
  have hid : ∀ x : ProcessingData, ({ j with
      id := x.id, status := .indexing, workerId := some n, updatedAt := now } : ProcessingData).id =
    x.id := fun _ => rfl
  cases acc with
  | claimed i =>
    by_cases hi : i = j.id
    · subst hi
      have hone : db.processingData.affected (fun x => x.id = j.id) = 1 :=
        Table.affected_eq_one (fun r hr => of_decide_eq_true hr) hj (decide_eq_true rfl)
      rw [if_pos rfl, ← hone]
      refine Table.countP_update hid fun x hx he => ?_
      obtain rfl := hrow x hx he
      simp [hp]
    · rw [if_neg (by simpa using hi)]
      refine Table.countP_update_eq hid fun x hx he => ?_
      obtain rfl := hrow x hx he
      simp [Ne.symm hi]
  | finished i =>
    refine Table.countP_update_eq hid fun x hx he => ?_
    obtain rfl := hrow x hx he
    simp [hp]
  | _ => rfl

variable [External]

theorem balance_writeTokenTransfers (acc : Account) (txs : List TransactionResult)
    (address : String) :
    acc.balance (db.writeTokenTransfers txs address).2 = acc.balance db +
      if acc = .tokenTransfers address then (db.writeTokenTransfers txs address).1 else 0 := by
  rw [Db.writeTokenTransfers_eq]
  cases acc with
  | tokenTransfers owner =>
    have hkind : ∀ r ∈ txs.flatMap (transferRows address), decide (r.trackedOwner = owner) =
        decide (tokenTransfers owner = .tokenTransfers address) := by
      intro r hr
      obtain ⟨tx, -, hr⟩ := List.mem_flatMap.mp hr
      obtain ⟨c, -, rfl⟩ := List.mem_map.mp hr
      exact decide_eq_decide.mpr ⟨fun h => h ▸ rfl, fun h => (Account.tokenTransfers.inj h).symm⟩
    refine (Table.countP_insertAll hkind).trans ?_
    simp only [balance, decide_eq_true_eq]
  | _ => rfl

/-! ## What the calls report -/

/-- The account that a call of a job run reports on. -/
def of (job : ClaimedJob) : Pc → Option Account
  | .writeSignatures _ _ => some (.listed job.address)
  | .writeTransactionInfo _ => some (.transactions job.address)
  | .writeTokenTransfers _ => some (.tokenTransfers job.address)
  | .markProcessed _ => some (.processed job.address)
  | .updateReady => some (.finished job.jobId)
  | .updateError => some (.finished job.jobId)
  | _ => none

/-- The count that the call returns. -/
def reported (job : ClaimedJob) (now : Int) (db : Db) : Pc → Nat
  | .writeSignatures page _ => (db.writeSignatures page.response job.address).1
  | .writeTransactionInfo batch => (db.writeTransactionInfo batch.transactions job.address).1
  | .writeTokenTransfers batch => (db.writeTokenTransfers batch.transactions job.address).1
  | .markProcessed batch => (db.markSignaturesProcessed job.address batch.processedSignatures).1
  | .updateReady => (db.updateProcessingStatusByJobId job.jobId .ready now).1
  | .updateError => (db.updateProcessingStatusByJobId job.jobId .error now).1
  | _ => 0

/-- What a call reports on the account, if its statement is executed. -/
def credited (acc : Account) (job : ClaimedJob) (now : Int) (db : Db) (pc : Pc) : Answer → Nat
  | .done _ => if of job pc = some acc then reported job now db pc else 0
  | _ => 0

theorem balance_next {acc : Account} {api : HeliusApi} {job : ClaimedJob} {now : Int} {db' : Db}
    {pc pc' : Pc} {a : Answer} (hn : Next api job now db pc a db' pc') :
    acc.balance db' = acc.balance db + acc.credited job now db pc a := by
  have hsome : ∀ acc', (some acc' = some acc) = (acc = acc') := fun acc' =>
    propext ⟨fun h => (Option.some.inj h).symm, fun h => h ▸ rfl⟩
  cases hn with
  | signaturesWritten =>
    simp only [credited, of, reported, hsome]
    exact balance_writeSignatures acc _ _
  | nothingClaimed hc => exact balance_getUnprocessedSignatures acc _ _ _
  | batchClaimed hc hne => exact balance_getUnprocessedSignatures acc _ _ _
  | infoWritten =>
    simp only [credited, of, reported, hsome]
    exact balance_writeTransactionInfo acc _ _
  | transfersWritten =>
    simp only [credited, of, reported, hsome]
    exact balance_writeTokenTransfers acc _ _
  | batchMarked =>
    simp only [credited, of, reported, hsome]
    exact balance_markSignaturesProcessed acc _ _
  | readyUpdated hone =>
    simp only [credited, of, reported, hsome]
    exact balance_updateStatus acc _ (Or.inl rfl) _
  | readyBlocked hzero =>
    simp only [credited, of, reported, hsome]
    exact balance_updateStatus acc _ (Or.inl rfl) _
  | errorUpdated =>
    simp only [credited, of, reported, hsome]
    exact balance_updateStatus acc _ (Or.inr rfl) _
  | _ => rfl

end Account

namespace Sys

section Balance

variable [External] {api : HeliusApi} {s s' : Sys} {a : Act}

/-- What a step reports on the account. -/
def credit (acc : Account) (x : Sys × Act) : Nat :=
  match x.2 with
  | .claim w =>
    match x.1.db.claimPendingJob w x.1.now with
    | .ok (some job, _) => if acc = .claimed job.jobId then 1 else 0
    | _ => 0
  | .claimRaced _ jobId => if acc = .claimed jobId then 1 else 0
  | .call w a =>
    match x.1.workers w with
    | .running job pc => acc.credited job x.1.now x.1.db pc a
    | _ => 0
  | _ => 0

/-- What a step has done to the account without reporting it. -/
def unreported (acc : Account) (x : Sys × Act) : Nat :=
  match x.2 with
  | .claimLost _ jobId => if acc = .claimed jobId then 1 else 0
  | .callLost w chosen =>
    match x.1.workers w with
    | .running job pc => acc.credited job x.1.now x.1.db pc (.done chosen)
    | _ => 0
  | _ => 0

theorem unreported_of_not_lost (acc : Account) {x : Sys × Act} (h : x.2.isLost = false) :
    unreported acc x = 0 := by
  obtain ⟨s, a⟩ := x
  cases a with
  | claimLost w jobId => exact absurd h (by simp [Act.isLost])
  | callLost w chosen => exact absurd h (by simp [Act.isLost])
  | _ => rfl

theorem balance_claim (acc : Account) {w : Nat} (h : Step api s (.claim w) s') :
    acc.balance s'.db = acc.balance s.db + credit acc (s, .claim w) := by
  unfold Step at h
  simp only [step] at h
  unfold credit
  simp only
  split at h
  · cases hc : s.db.claimPendingJob w s.now with
    | error e =>
      rw [hc] at h
      rw [← Option.some.inj h]
      rfl
    | ok p =>
      obtain ⟨job, db⟩ := p
      rw [hc] at h
      rcases Db.claimPendingJob_cases hc with ⟨rfl, -, -⟩ | ⟨j, j', hnext, hset, rfl, rfl⟩
      · rw [← Option.some.inj h]
        rfl
      · obtain ⟨hj, hcl⟩ := Db.nextJob_eq_some hnext
        rw [← Option.some.inj h]
        have hid : j'.claimed.jobId = j.id := (Db.claimSet_sameJob hset).1
        simp only [hid]
        exact acc.balance_setJob hj (Db.claimable_eq_true.mp hcl).1 hset
  · exact absurd h (by simp)

/-- **The step lemma.** -/
theorem balance_step (acc : Account) (h : Step api s a s') :
    acc.balance s'.db = acc.balance s.db + (credit acc (s, a) + unreported acc (s, a)) := by
  have hn := step_next h
  cases hn with
  | ticked => rfl
  | created ha =>
    rcases ha with rfl | rfl <;> exact acc.balance_createProcessingJob _ _ _ _
  | foundNothing hw => exact balance_claim acc h
  | @claimed w a j j' ha hw hj hp hset =>
    rcases ha with ⟨rfl, -⟩ | rfl
    · exact balance_claim acc h
    · exact acc.balance_setJob hj hp hset
  | lostClaim hw hj hp hset =>
    rw [show credit acc (s, _) = 0 from rfl, Nat.zero_add]
    exact acc.balance_setJob hj hp hset
  | @called w answer job pc db' pc' hw hn =>
    simp only [credit, unreported, hw]
    exact Account.balance_next hn
  | @lostCall w chosen job pc db' pc' hw hi hn =>
    simp only [credit, unreported, hw]
    rw [Nat.zero_add]
    exact Account.balance_next hn
  | crashed hw => rfl
  | restarted hw => rfl

/-- **The reports add up**: in every state of every run, what the calls have reported, and what they
have done while their answers were lost, is what the tables hold; where no answer was lost, the
reports alone are. No job is claimed twice, nor finished twice or without a claim. -/
theorem accounts_balance {now : Int} {tr : List (Sys × Act)}
    (h : Run (Step api) (Sys.init now) tr s) :
    (∀ acc : Account,
      (tr.map (credit acc)).sum + (tr.map (unreported acc)).sum = acc.balance s.db) ∧
    ((∀ x ∈ tr, x.2.isLost = false) → ∀ acc : Account,
      (tr.map (credit acc)).sum = acc.balance s.db) ∧
    ∀ jobId,
      (tr.map (credit (.claimed jobId))).sum + (tr.map (unreported (.claimed jobId))).sum ≤ 1 ∧
      (tr.map (credit (.finished jobId))).sum + (tr.map (unreported (.finished jobId))).sum ≤
        (tr.map (credit (.claimed jobId))).sum + (tr.map (unreported (.claimed jobId))).sum := by
  have hbalance : ∀ acc : Account,
      (tr.map (credit acc)).sum + (tr.map (unreported acc)).sum = acc.balance s.db := by
    intro acc
    have hsum := h.balance (q := fun s => acc.balance s.db)
      (f := fun x => credit acc x + unreported acc x) fun _ _ _ hs => balance_step acc hs
    have hzero : acc.balance (Sys.init now).db = 0 := by cases acc <;> rfl
    rw [hsum, hzero, Nat.zero_add, List.sum_map_add]
  refine ⟨hbalance, fun hnone acc => ?_, fun jobId => ?_⟩
  · have hzero : (tr.map (unreported acc)).sum = 0 := by
      rw [List.map_congr_left fun x hx => unreported_of_not_lost acc (hnone x hx)]
      simp
    rw [← hbalance acc, hzero, Nat.add_zero]
  · rw [hbalance, hbalance]
    constructor
    · refine Table.affected_le_one (t := s.db.processingData) (k := jobId) fun j hj => ?_
      rw [Bool.and_eq_true, decide_eq_true_eq] at hj
      exact hj.1
    · refine List.countP_mono_left fun j _ hj => ?_
      simp only [Bool.and_eq_true, Bool.or_eq_true, decide_eq_true_eq] at hj ⊢
      obtain ⟨hid, hs | hs⟩ := hj <;> simp [hid, hs]

end Balance

/-- Worker 1 inserts the transaction of `"s1"` and does not learn of it, so it marks its job as an
error; five minutes later worker 2 claims the signature again, and its own insert adds no row. -/
def unanswered : List Act :=
  let page := Answer.signatures (servePage [⟨some 9000, "s1"⟩]) 10100
  let fetched := Answer.transactions fun _ => serveTransaction "s1"
  [.create "A" 10 1, .create "A" 10 1, .claim 1, .claimRaced 2 2,
    .call 1 page, .call 1 (.done []), .call 1 (.done ["s1"]), .call 1 fetched, .callLost 1 [],
    .call 1 (.done []), .tick 300000001,
    .call 2 page, .call 2 (.done []), .call 2 (.done ["s1"]), .call 2 fetched, .call 2 (.done []),
    .call 2 (.done []), .call 2 (.done [])]

/-- Two workers save the transaction of `"s1"`. It is counted once, unless the answer that counts it
is lost. -/
theorem accounts_balance_reclaimed :
    letI : External := smallNetwork [[⟨some 9000, "s1"⟩]] ["s1"]
    (∃ tr t, Run (Step sampleApi) (Sys.init 10100000000) tr t ∧ tr.map Prod.snd = reclaimed ∧
      (tr.map (credit (.transactions "A"))).sum = 1 ∧
      ∀ acc : Account, (tr.map (credit acc)).sum = acc.balance t.db) ∧
    ∃ tr t, Run (Step sampleApi) (Sys.init 10100000000) tr t ∧ tr.map Prod.snd = unanswered ∧
      (tr.map (credit (.transactions "A"))).sum = 0 ∧
      (tr.map (unreported (.transactions "A"))).sum = 1 ∧
      (tr.map (credit (.processed "A"))).sum = 1 ∧
      (∀ acc : Account,
        (tr.map (credit acc)).sum + (tr.map (unreported acc)).sum = acc.balance t.db) ∧
      ∀ jobId,
        (tr.map (credit (.claimed jobId))).sum + (tr.map (unreported (.claimed jobId))).sum ≤ 1 := by
  let : External := smallNetwork [[⟨some 9000, "s1"⟩]] ["s1"]
  constructor
  · obtain ⟨tr, t, hrun, hlab, htest⟩ := exists_run_of_exec (step sampleApi) (Sys.init 10100000000)
      reclaimed (fun tr _ => tr.all (fun x => !x.2.isLost) &&
        decide ((tr.map (credit (.transactions "A"))).sum = 1)) (by decide +kernel)
    simp only [Bool.and_eq_true, decide_eq_true_eq, List.all_eq_true, Bool.not_eq_true'] at htest
    exact ⟨tr, t, hrun, hlab, htest.2, (accounts_balance hrun).2.1 htest.1⟩
  · obtain ⟨tr, t, hrun, hlab, htest⟩ := exists_run_of_exec (step sampleApi) (Sys.init 10100000000)
      unanswered (fun tr _ => (tr.map (credit (.transactions "A"))).sum = 0 &&
        (tr.map (unreported (.transactions "A"))).sum = 1 &&
        (tr.map (credit (.processed "A"))).sum = 1) (by decide +kernel)
    simp only [Bool.and_eq_true, decide_eq_true_eq] at htest
    have hbalance := accounts_balance hrun
    exact ⟨tr, t, hrun, hlab, htest.1.1, htest.1.2, htest.2, hbalance.1,
      fun jobId => (hbalance.2.2 jobId).1⟩

end Sys

end OnChainEventIndexer
