import OnChainEventIndexer.Db.Jobs
import OnChainEventIndexer.Db.Signatures
import OnChainEventIndexer.Db.Transactions

/-!
# The run of one claimed job

Model of `indexer.rs`: `process_claimed_job` with `fetch_signatures`,
`process_unprocessed_signatures` and `mark_job_error`, as a machine that stops at every call it
makes of the database or the RPC. `Pc` is the call the run is about to make, with the local
variables still needed; `Answer` is what comes back; `step` goes on to the next call. Between two
steps other workers may change the database.

* A database call succeeds (`done`) at the time `now`, or returns an error and changes nothing
  (`dbError`). A call that issues no statement (`Pc.issuesStatement`: the early returns for empty
  input) cannot fail.
* The panics are those of `mask_addr`: unconditionally at the start of `fetch_signatures`, and in
  the warnings of `get_transaction`. The spans of the instrumented functions mask the same
  address as `fetch_signatures` does before them.

`Next` lists everything a step can do; each later argument about a run is a case split on it.
-/

namespace OnChainEventIndexer

open Keyed

/-- The call a run is about to make. -/
inductive Pc
  /-- `get_signatures(address, cur_last_signature, requested_hours)`, `sum` collected so far -/
  | fetchPage (curLastSignature : Option String) (sum : Nat)
  /-- `write_signatures`, this page already counted in `sum` -/
  | writeSignatures (page : SignaturesPage) (sum : Nat)
  /-- `get_unprocessed_signatures(address, 100)` -/
  | claimBatch
  | getTransaction (signatures : List String)
  /-- the two statements of `save_transaction_data` -/
  | writeTransactionInfo (batch : TransactionBatch)
  | writeTokenTransfers (batch : TransactionBatch)
  | markProcessed (batch : TransactionBatch)
  /-- `update_processing_status_by_job_id(job_id, "ready")` -/
  | updateReady
  /-- `update_processing_status_by_job_id(job_id, "error")` in `mark_job_error` -/
  | updateError
  | returned
  | panicked

/-- What a call comes back with. -/
inductive Answer
  | signatures (reply : Replies) (nowTs : Int)
  | transactions (reply : Nat → Replies)
  /-- The statement is executed; `chosen` are the rows the claim's select picks. -/
  | done (chosen : List String)
  | dbError

/-- `tx_limit.to_usize().unwrap_or(1000)` -/
def effectiveTxLimit (txLimit : Int16) : Nat :=
  if 0 ≤ txLimit.toInt then txLimit.toInt.toNat else 1000

/-- `process_claimed_job` up to its first call. -/
def Pc.start (job : ClaimedJob) : Pc :=
  match maskAddr job.address with
  | none => .panicked
  | some _ => .fetchPage none 0

/-- The run is over. -/
def Pc.final : Pc → Bool
  | .returned => true
  | .panicked => true
  | _ => false

/-- The run has returned. -/
def Pc.isReturned : Pc → Bool
  | .returned => true
  | _ => false

theorem Pc.eq_returned {pc : Pc} (h : pc.isReturned = true) : pc = .returned := by
  cases pc <;> first | rfl | exact absurd h (by simp [Pc.isReturned])

/-- The call sends a statement to the database. -/
def Pc.issuesStatement : Pc → Bool
  | .writeSignatures page _ => !page.response.result.isEmpty
  | .claimBatch => true
  | .writeTransactionInfo batch => !batch.transactions.isEmpty
  | .writeTokenTransfers batch => batch.transactions.any fun tx => !tx.tokenTransferChanges.isEmpty
  | .markProcessed batch => !batch.processedSignatures.isEmpty
  | .updateReady => true
  | .updateError => true
  | _ => false

/-- Where an error of the database leads: `?` ends the processing and the job is marked as an
error; an error of a status update is only logged. -/
def Pc.afterDbError : Pc → Pc
  | .updateReady => .returned
  | .updateError => .returned
  | _ => .updateError

/-- The paging loop breaks. -/
def stopsPaging (job : ClaimedJob) (page : SignaturesPage) (sum : Nat) : Bool :=
  page.reachedCutoff || page.lastSignature.isNone || decide (page.rawCount < 1000) ||
    decide (effectiveTxLimit job.txLimit ≤ sum)

/-- The end of the paging loop's body. -/
def Pc.afterPage (job : ClaimedJob) (page : SignaturesPage) (sum : Nat) : Pc :=
  if stopsPaging job page sum then .claimBatch else .fetchPage page.lastSignature sum

/-- The end of the batch loop's body: errors of the batch are reported after what succeeded has
been saved and marked. -/
def Pc.afterBatch (batch : TransactionBatch) : Pc :=
  if batch.errors.isEmpty then .claimBatch else .updateError

variable [External]

/-- **One call and what follows it.** -/
def step (api : HeliusApi) (job : ClaimedJob) (now : Int) (db : Db) : Pc → Answer → Option (Db × Pc)
  | .fetchPage _ sum, .signatures reply nowTs =>
    match getSignatures api reply job.requestedHours nowTs with
    | .ok page => some (db, .writeSignatures page (sum + page.response.result.length))
    | .error _ => some (db, .updateError)
  | .writeSignatures page sum, .done _ =>
    some ((db.writeSignatures page.response job.address).2, .afterPage job page sum)
  | .claimBatch, .done chosen =>
    if db.IsClaim job.address 100 now chosen then
      let (signatures, db) := db.getUnprocessedSignatures job.address now chosen
      some (db, if signatures.isEmpty then .updateReady else .getTransaction signatures)
    else none
  | .getTransaction signatures, .transactions reply =>
    match getTransaction api reply signatures with
    | some batch => some (db, .writeTransactionInfo batch)
    | none => some (db, .panicked)
  | .writeTransactionInfo batch, .done _ =>
    some ((db.writeTransactionInfo batch.transactions job.address).2, .writeTokenTransfers batch)
  | .writeTokenTransfers batch, .done _ =>
    some ((db.writeTokenTransfers batch.transactions job.address).2, .markProcessed batch)
  | .markProcessed batch, .done _ =>
    some ((db.markSignaturesProcessed job.address batch.processedSignatures).2, .afterBatch batch)
  | .updateReady, .done _ =>
    let (updated, db) := db.updateProcessingStatusByJobId job.jobId .ready now
    some (db, if updated = 0 then .updateError else .returned)
  | .updateError, .done _ =>
    some ((db.updateProcessingStatusByJobId job.jobId .error now).2, .returned)
  | pc, .dbError => if pc.issuesStatement then some (db, pc.afterDbError) else none
  | _, _ => none

/-- The call is one of the two status updates. -/
def Pc.IsStatusUpdate (pc : Pc) : Prop := pc = .updateReady ∨ pc = .updateError

/-- Everything a step can do. -/
inductive Next (api : HeliusApi) (job : ClaimedJob) (now : Int) (db : Db) :
    Pc → Answer → Db → Pc → Prop
  | pageFetched {cur sum reply nowTs page}
      (h : getSignatures api reply job.requestedHours nowTs = .ok page) :
      Next api job now db (.fetchPage cur sum) (.signatures reply nowTs) db
        (.writeSignatures page (sum + page.response.result.length))
  | pageFailed {cur sum reply nowTs error}
      (h : getSignatures api reply job.requestedHours nowTs = .error error) :
      Next api job now db (.fetchPage cur sum) (.signatures reply nowTs) db .updateError
  | signaturesWritten {page sum chosen} :
      Next api job now db (.writeSignatures page sum) (.done chosen)
        (db.writeSignatures page.response job.address).2 (.afterPage job page sum)
  | nothingClaimed (h : db.IsClaim job.address 100 now []) :
      Next api job now db .claimBatch (.done []) (db.getUnprocessedSignatures job.address now []).2
        .updateReady
  | batchClaimed {chosen} (h : db.IsClaim job.address 100 now chosen) (hne : chosen ≠ []) :
      Next api job now db .claimBatch (.done chosen)
        (db.getUnprocessedSignatures job.address now chosen).2 (.getTransaction chosen)
  | batchFetched {signatures reply batch} (h : getTransaction api reply signatures = some batch) :
      Next api job now db (.getTransaction signatures) (.transactions reply) db
        (.writeTransactionInfo batch)
  | batchPanicked {signatures reply} (h : getTransaction api reply signatures = none) :
      Next api job now db (.getTransaction signatures) (.transactions reply) db .panicked
  | infoWritten {batch chosen} :
      Next api job now db (.writeTransactionInfo batch) (.done chosen)
        (db.writeTransactionInfo batch.transactions job.address).2 (.writeTokenTransfers batch)
  | transfersWritten {batch chosen} :
      Next api job now db (.writeTokenTransfers batch) (.done chosen)
        (db.writeTokenTransfers batch.transactions job.address).2 (.markProcessed batch)
  | batchMarked {batch chosen} :
      Next api job now db (.markProcessed batch) (.done chosen)
        (db.markSignaturesProcessed job.address batch.processedSignatures).2 (.afterBatch batch)
  | readyUpdated {chosen} (h : (db.updateProcessingStatusByJobId job.jobId .ready now).1 = 1) :
      Next api job now db .updateReady (.done chosen)
        (db.updateProcessingStatusByJobId job.jobId .ready now).2 .returned
  | readyBlocked {chosen} (h : (db.updateProcessingStatusByJobId job.jobId .ready now).1 = 0) :
      Next api job now db .updateReady (.done chosen)
        (db.updateProcessingStatusByJobId job.jobId .ready now).2 .updateError
  | errorUpdated {chosen} :
      Next api job now db .updateError (.done chosen)
        (db.updateProcessingStatusByJobId job.jobId .error now).2 .returned
  | dbFailed {pc} (h : pc.issuesStatement = true) : Next api job now db pc .dbError db pc.afterDbError

variable {api : HeliusApi} {job : ClaimedJob} {now : Int} {db db' : Db} {pc pc' : Pc} {a : Answer}

/-- **The inversion of `step`.** -/
theorem step_next (h : step api job now db pc a = some (db', pc')) :
    Next api job now db pc a db' pc' := by
  cases a with
  | signatures reply nowTs =>
    cases pc with
    | fetchPage cur sum =>
      simp only [step] at h
      split at h
      · rename_i page hpage
        obtain ⟨rfl, rfl⟩ := Prod.mk.inj (Option.some.inj h)
        exact .pageFetched hpage
      · rename_i e he
        obtain ⟨rfl, rfl⟩ := Prod.mk.inj (Option.some.inj h)
        exact .pageFailed he
    | _ => exact absurd h (by simp [step])
  | transactions reply =>
    cases pc with
    | getTransaction signatures =>
      simp only [step] at h
      split at h
      · rename_i batch hb
        obtain ⟨rfl, rfl⟩ := Prod.mk.inj (Option.some.inj h)
        exact .batchFetched hb
      · rename_i hb
        obtain ⟨rfl, rfl⟩ := Prod.mk.inj (Option.some.inj h)
        exact .batchPanicked hb
    | _ => exact absurd h (by simp [step])
  | done chosen =>
    cases pc with
    | writeSignatures page sum =>
      obtain ⟨rfl, rfl⟩ := Prod.mk.inj (Option.some.inj h)
      exact .signaturesWritten
    | claimBatch =>
      simp only [step] at h
      split at h
      · rename_i hc
        obtain ⟨rfl, rfl⟩ := Prod.mk.inj (Option.some.inj h)
        cases chosen with
        | nil => exact .nothingClaimed hc
        | cons s rest => exact .batchClaimed hc (by simp)
      · exact absurd h (by simp)
    | writeTransactionInfo batch =>
      obtain ⟨rfl, rfl⟩ := Prod.mk.inj (Option.some.inj h)
      exact .infoWritten
    | writeTokenTransfers batch =>
      obtain ⟨rfl, rfl⟩ := Prod.mk.inj (Option.some.inj h)
      exact .transfersWritten
    | markProcessed batch =>
      obtain ⟨rfl, rfl⟩ := Prod.mk.inj (Option.some.inj h)
      exact .batchMarked
    | updateReady =>
      have hle := Db.updateStatus_affected_le db job.jobId .ready now
      obtain ⟨rfl, rfl⟩ := Prod.mk.inj (Option.some.inj h)
      split
      · rename_i h0
        exact .readyBlocked h0
      · rename_i h0
        exact .readyUpdated (Nat.le_antisymm hle (Nat.one_le_iff_ne_zero.mpr h0))
    | updateError =>
      obtain ⟨rfl, rfl⟩ := Prod.mk.inj (Option.some.inj h)
      exact .errorUpdated
    | _ => exact absurd h (by simp [step])
  | dbError =>
    have hstep : step api job now db pc .dbError =
        if pc.issuesStatement then some (db, pc.afterDbError) else none := by
      cases pc <;> rfl
    rw [hstep] at h
    split at h
    · rename_i hi
      obtain ⟨rfl, rfl⟩ := Prod.mk.inj (Option.some.inj h)
      exact .dbFailed hi
    · exact absurd h (by simp)

/-- **Rows stay.** -/
theorem Next.le (h : Next api job now db pc a db' pc') : db.Le db' := by
  cases h with
  | pageFetched h => exact .refl db
  | pageFailed h => exact .refl db
  | signaturesWritten => exact Db.le_writeSignatures db _ _
  | nothingClaimed h => exact Db.le_getUnprocessedSignatures db _ _ _
  | batchClaimed h hne => exact Db.le_getUnprocessedSignatures db _ _ _
  | batchFetched h => exact .refl db
  | batchPanicked h => exact .refl db
  | infoWritten => exact Db.le_writeTransactionInfo db _ _
  | transfersWritten => exact Db.le_writeTokenTransfers db _ _
  | batchMarked => exact Db.le_markSignaturesProcessed db _ _
  | readyUpdated h => exact Db.le_updateStatus db _ _ _
  | readyBlocked h => exact Db.le_updateStatus db _ _ _
  | errorUpdated => exact Db.le_updateStatus db _ _ _
  | dbFailed h => exact .refl db

/-- A run that is over makes no step. -/
theorem Next.not_final (h : Next api job now db pc a db' pc') : pc.final = false := by
  cases h with
  | @dbFailed pc h => cases pc <;> first | rfl | exact absurd h (by simp [Pc.issuesStatement])
  | _ => rfl

/-- A run touches no other job. -/
theorem Next.otherJobs (h : Next api job now db pc a db' pc') {j : ProcessingData}
    (hj : j.id ≠ job.jobId) : j ∈ db.processingData ↔ j ∈ db'.processingData := by
  cases h with
  | signaturesWritten => rw [Db.writeSignatures_processingData]
  | infoWritten => rw [Db.writeTransactionInfo_processingData]
  | transfersWritten => rw [Db.writeTokenTransfers_processingData]
  | batchMarked => rw [Db.markSignaturesProcessed_processingData]
  | readyUpdated h => exact (Db.mem_updateStatus_other hj).symm
  | readyBlocked h => exact (Db.mem_updateStatus_other hj).symm
  | errorUpdated => exact (Db.mem_updateStatus_other hj).symm
  | _ => exact Iff.rfl

/-- **What a run does to its job's row**: it leaves it alone, until it returns with a terminal
status. Where it ends without, it panicked or a status update failed. -/
theorem Next.ownRow (h : Next api job now db pc a db' pc') {j : ProcessingData}
    (hj : j ∈ db.processingData) (hcl : j.claimed = job) (hs : j.status = .indexing) :
    (j ∈ db'.processingData ∧
      (pc'.final = true → pc' = .panicked ∨ (a = .dbError ∧ pc.IsStatusUpdate))) ∨
    (pc' = .returned ∧ ∃ j' ∈ db'.processingData, j'.claimed = job ∧
      (j'.status = .ready ∨ j'.status = .error)) := by
  have hid : job.jobId = j.id := hcl ▸ rfl
  cases h with
  | pageFetched h => exact Or.inl ⟨hj, fun hf => absurd hf (by simp [Pc.final])⟩
  | pageFailed h => exact Or.inl ⟨hj, fun hf => absurd hf (by simp [Pc.final])⟩
  | signaturesWritten =>
    refine Or.inl ⟨by simpa using hj, ?_⟩
    unfold Pc.afterPage
    split <;> exact fun hf => absurd hf (by simp [Pc.final])
  | nothingClaimed h => exact Or.inl ⟨hj, fun hf => absurd hf (by simp [Pc.final])⟩
  | batchClaimed h hne => exact Or.inl ⟨hj, fun hf => absurd hf (by simp [Pc.final])⟩
  | batchFetched h => exact Or.inl ⟨hj, fun hf => absurd hf (by simp [Pc.final])⟩
  | batchPanicked h => exact Or.inl ⟨hj, fun _ => Or.inl rfl⟩
  | infoWritten => exact Or.inl ⟨by simpa using hj, fun hf => absurd hf (by simp [Pc.final])⟩
  | transfersWritten => exact Or.inl ⟨by simpa using hj, fun hf => absurd hf (by simp [Pc.final])⟩
  | batchMarked =>
    refine Or.inl ⟨by simpa using hj, ?_⟩
    unfold Pc.afterBatch
    split <;> exact fun hf => absurd hf (by simp [Pc.final])
  | readyUpdated hone =>
    rw [hid] at hone ⊢
    have hmay := (Db.updateStatus_eq_one hj).mp hone
    exact Or.inr ⟨rfl, _, Db.mem_updateStatus_of_may hj hmay, hcl, Or.inl rfl⟩
  | readyBlocked hzero =>
    rw [hid] at hzero ⊢
    have hmay := (Db.updateStatus_eq_zero hj).mp hzero
    exact Or.inl ⟨Db.mem_updateStatus_of_not hj hmay, fun hf => absurd hf (by simp [Pc.final])⟩
  | errorUpdated =>
    rw [hid]
    have hmay := Db.mayUpdateStatus_error db hs
    exact Or.inr ⟨rfl, _, Db.mem_updateStatus_of_may hj hmay, hcl, Or.inr rfl⟩
  | @dbFailed pc hi =>
    refine Or.inl ⟨hj, fun hf => Or.inr ⟨rfl, ?_⟩⟩
    cases pc with
    | updateReady => exact Or.inl rfl
    | updateError => exact Or.inr rfl
    | _ => exact absurd hf (by simp [Pc.afterDbError, Pc.final])

end OnChainEventIndexer
