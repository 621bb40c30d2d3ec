import OnChainEventIndexer.Db.Schema

/-!
# Jobs

Model of `db/jobs.rs`, each statement executed alone (`Concurrency/JobClaims.lean` runs the claims
and the status updates concurrently). `now` is the statement's `NOW()`.

`claim_pending_job` takes the oldest claimable job; between jobs created at the same microsecond
SQL leaves the choice open, the model takes the one inserted first.
-/

namespace OnChainEventIndexer

open Keyed

/-- What `claim_pending_job` returns of a job. -/
structure ClaimedJob where
  jobId : Nat
  address : String
  requestedHours : Int16
  txLimit : Int16
deriving DecidableEq, Repr

/-- What `get_job_info` returns of a job. -/
structure JobInfo where
  status : Status
  updatedAt : Int
  totalTransactions : Nat
  processedTransactions : Nat
  remainingTransactions : Nat
deriving DecidableEq, Repr

/-! ## `claim_pending_job` -/

/-- The value bound to `$1`: `i32::try_from(worker_id).unwrap_or(i32::MAX)`. -/
def workerIdParam (workerId : Nat) : Int := if workerId ≤ 2147483647 then workerId else 2147483647

/-- The assignment `worker_id = $1` to a `smallint` column; `none`: `smallint out of range`. -/
def smallint (n : Int) : Option Int := if -32768 ≤ n ∧ n ≤ 32767 then some n else none

/-- The `SET` clause of `claim_pending_job`. -/
def claimSet (workerId : Nat) (now : Int) (j : ProcessingData) : Option ProcessingData :=
  (smallint (workerIdParam workerId)).map fun w =>
    { j with status := .indexing, workerId := some w, updatedAt := now }

/-- The `RETURNING` clause. -/
def ProcessingData.claimed (j : ProcessingData) : ClaimedJob :=
  ⟨j.id, j.address, j.requestedHours, j.txLimit⟩

namespace Db

/-- The sub-select of `NOT EXISTS`: some job of the address is being indexed. -/
def activeAddress (db : Db) (address : String) : Bool :=
  db.processingData.rows.any fun active => active.address = address && active.status = .indexing

/-- The `WHERE` clause of the locking select. -/
def claimable (db : Db) (j : ProcessingData) : Bool :=
  j.status = .pending && !db.activeAddress j.address

/-- `ORDER BY created_at ASC LIMIT 1` -/
def oldest : List ProcessingData → Option ProcessingData
  | [] => none
  | j :: rest =>
    match oldest rest with
    | none => some j
    | some k => if k.createdAt < j.createdAt then some k else some j

/-- The row the locking select finds. -/
def nextJob (db : Db) : Option ProcessingData := oldest (db.processingData.rows.filter db.claimable)

/-- Replace the row with the key of `j'`. -/
def setJob (db : Db) (j' : ProcessingData) : Db :=
  { db with
    processingData := db.processingData.update (fun j => j.id = j'.id)
      (fun j => { j' with id := j.id })
      fun _ => rfl
    seq := by rw [Table.keys_update]; exact db.seq }

/-- `claim_pending_job`: the returned job and the new state, or the error. -/
def claimPendingJob (db : Db) (workerId : Nat) (now : Int) :
    Except String (Option ClaimedJob × Db) :=
  match db.nextJob with
  | none => .ok (none, db)
  | some j =>
    match claimSet workerId now j with
    | some j' => .ok (some j'.claimed, db.setJob j')
    | none => .error "smallint out of range"

/-! ## `update_processing_status_by_job_id` -/

/-- The sub-select of the ready guard: an unprocessed signature in the job's window. -/
def unprocessedInWindow (db : Db) (j : ProcessingData) : Bool :=
  db.signatures.rows.any fun s =>
    s.ownerAddress = j.address && decide (j.InWindow s.blockTime) && !s.isProcessed

/-- The `WHERE` clause of the status update. -/
def mayUpdateStatus (db : Db) (jobId : Nat) (status : Status) (j : ProcessingData) : Bool :=
  j.id = jobId && j.status = .indexing && (status ≠ .ready || !db.unprocessedInWindow j)

/-- The `SET` clause of the status update. -/
def statusSet (status : Status) (now : Int) (j : ProcessingData) : ProcessingData :=
  { j with status, updatedAt := now }

theorem statusSet_id (status : Status) (now : Int) (j : ProcessingData) :
    (statusSet status now j).id = j.id := rfl

/-- `update_processing_status_by_job_id`: the rows affected and the new state. -/
def updateProcessingStatusByJobId (db : Db) (jobId : Nat) (status : Status) (now : Int) :
    Nat × Db :=
  let where_ := db.mayUpdateStatus jobId status
  (db.processingData.affected where_,
    { db with
      processingData := db.processingData.update where_ (statusSet status now)
        (statusSet_id status now)
      seq := by rw [Table.keys_update]; exact db.seq })

/-! ## `get_job_info` and `create_processing_job` -/

/-- The rows the job is joined with. -/
def joined (db : Db) (j : ProcessingData) : List SignatureRow :=
  db.signatures.rows.filter fun s => s.ownerAddress = j.address && decide (j.InWindow s.blockTime)

/-- `get_job_info` -/
def getJobInfo (db : Db) (jobId : Nat) : Option JobInfo :=
  (db.processingData.find? jobId).map fun pd =>
    let rows := db.joined pd
    { status := pd.status
      updatedAt := pd.updatedAt
      totalTransactions := rows.length
      processedTransactions := rows.countP (·.isProcessed)
      remainingTransactions := rows.length - rows.countP (·.isProcessed) }

/-- `create_processing_job`: the new id and the new state. -/
def createProcessingJob (db : Db) (address : String) (txLimit requestedHours : Int16)
    (now : Int) : Nat × Db :=
  (db.nextId,
    { db with
      processingData := db.processingData.insertIgnore
        { id := db.nextId
          address
          status := .pending
          createdAt := now
          updatedAt := now
          workerId := none
          txLimit
          requestedHours }
      nextId := db.nextId + 1
      seq := fun k hk => by
        rcases Table.mem_keys_insertIgnore.mp hk with h | rfl
        · exact Nat.lt_succ_of_lt (db.seq k h)
        · exact Nat.lt_succ_self _ })

/-! ## What the statements do to the rows -/

variable {db : Db}

theorem activeAddress_eq_true {address : String} :
    db.activeAddress address = true ↔
      ∃ j ∈ db.processingData, j.address = address ∧ j.status = .indexing := by
  unfold activeAddress
  rw [List.any_eq_true]
  simp [Table.mem_rows]

theorem claimable_eq_true {j : ProcessingData} :
    db.claimable j = true ↔ j.status = .pending ∧
      ∀ j' ∈ db.processingData, j'.address = j.address → j'.status ≠ .indexing := by
  unfold claimable
  rw [Bool.and_eq_true, decide_eq_true_eq, Bool.not_eq_true', ← Bool.not_eq_true,
    activeAddress_eq_true]
  constructor
  · rintro ⟨hp, h⟩
    exact ⟨hp, fun j' hj' ha hs => h ⟨j', hj', ha, hs⟩⟩
  · rintro ⟨hp, h⟩
    exact ⟨hp, fun ⟨j', hj', ha, hs⟩ => h j' hj' ha hs⟩

theorem oldest_mem {l : List ProcessingData} {j : ProcessingData} (h : oldest l = some j) :
    j ∈ l := by
  induction l generalizing j with
  | nil => exact absurd h (by simp [oldest])
  | cons x xs ih =>
    simp only [oldest] at h
    split at h
    · exact Option.some.inj h ▸ List.mem_cons_self
    · rename_i k hk
      split at h
      · exact Option.some.inj h ▸ List.mem_cons_of_mem _ (ih hk)
      · exact Option.some.inj h ▸ List.mem_cons_self

theorem oldest_eq_none {l : List ProcessingData} : oldest l = none ↔ l = [] := by
  cases l with
  | nil => simp [oldest]
  | cons x xs =>
    simp only [oldest]
    split
    · simp
    · split <;> simp

theorem nextJob_eq_some {j : ProcessingData} (h : db.nextJob = some j) :
    j ∈ db.processingData ∧ db.claimable j = true := by
  have := List.mem_filter.mp (oldest_mem h)
  exact ⟨this.1, this.2⟩

theorem nextJob_eq_none : db.nextJob = none ↔ ∀ j ∈ db.processingData, db.claimable j = false := by
  unfold nextJob
  rw [oldest_eq_none, List.filter_eq_nil_iff]
  simp only [Bool.not_eq_true]
  rfl

theorem mem_setJob {j' x : ProcessingData} :
    x ∈ (db.setJob j').processingData ↔
      (x ∈ db.processingData ∧ x.id ≠ j'.id) ∨ (x = j' ∧ j'.id ∈ db.processingData.keys) := by
  unfold setJob
  rw [Table.mem_update]
  constructor
  · rintro ⟨r, hr, rfl⟩
    by_cases h : r.id = j'.id
    · right
      simp only [h, decide_true, if_true]
      exact ⟨trivial, h ▸ Table.key_mem_keys hr⟩
    · left
      simp only [h, decide_false, Bool.false_eq_true, if_false]
      exact ⟨hr, h⟩
  · rintro (⟨hx, h⟩ | ⟨rfl, h⟩)
    · exact ⟨x, hx, by simp [h]⟩
    · obtain ⟨r, hr, hk⟩ := Table.mem_keys.mp h
      exact ⟨r, hr, by simp [hk]⟩

/-- **`claim_pending_job`** returns nothing and changes nothing, or returns a claimable job and
sets its status, worker and time. -/
theorem claimPendingJob_cases {workerId : Nat} {now : Int} {c : Option ClaimedJob} {db' : Db}
    (h : db.claimPendingJob workerId now = .ok (c, db')) :
    (c = none ∧ db' = db ∧ ∀ j ∈ db.processingData, db.claimable j = false) ∨
    ∃ j j', db.nextJob = some j ∧ claimSet workerId now j = some j' ∧ c = some j'.claimed ∧
      db' = db.setJob j' := by
  unfold claimPendingJob at h
  split at h
  · rename_i hn
    obtain ⟨rfl, rfl⟩ := Prod.mk.inj (Except.ok.inj h)
    exact Or.inl ⟨rfl, rfl, nextJob_eq_none.mp hn⟩
  · rename_i j hj
    split at h
    · rename_i j' hj'
      obtain ⟨rfl, rfl⟩ := Prod.mk.inj (Except.ok.inj h)
      exact Or.inr ⟨j, j', hj, hj', rfl, rfl⟩
    · exact absurd h (by simp)

theorem claimSet_eq_some {workerId : Nat} {now : Int} {j j' : ProcessingData}
    (h : claimSet workerId now j = some j') :
    ∃ w, smallint (workerIdParam workerId) = some w ∧
      j' = { j with status := .indexing, workerId := some w, updatedAt := now } := by
  obtain ⟨w, hw, rfl⟩ := Option.map_eq_some_iff.mp h
  exact ⟨w, hw, rfl⟩

/-- A worker id that fits the column is stored as it is. -/
theorem claimSet_of_le {workerId : Nat} (h : workerId ≤ 32767) (now : Int)
    (j : ProcessingData) : claimSet workerId now j =
      some { j with status := .indexing, workerId := some workerId, updatedAt := now } := by
  have hp : smallint (workerIdParam workerId) = some (workerId : Int) := by
    unfold workerIdParam smallint
    rw [if_pos (by omega), if_pos (by omega)]
  rw [claimSet, hp, Option.map_some]

theorem unprocessedInWindow_eq_false {j : ProcessingData} :
    db.unprocessedInWindow j = false ↔ ∀ s ∈ db.signatures, s.ownerAddress = j.address →
      j.InWindow s.blockTime → s.isProcessed = true := by
  unfold unprocessedInWindow
  rw [List.any_eq_false]
  constructor
  · intro h s hs ha hw
    simpa [ha, hw] using h s hs
  · intro h s hs
    by_cases ha : s.ownerAddress = j.address
    · by_cases hw : j.InWindow s.blockTime
      · simp [h s hs ha hw]
      · simp [hw]
    · simp [ha]

theorem mem_joined {j : ProcessingData} {r : SignatureRow} :
    r ∈ db.joined j ↔ r ∈ db.signatures ∧ r.ownerAddress = j.address ∧ j.InWindow r.blockTime := by
  unfold joined
  rw [List.mem_filter, Bool.and_eq_true, decide_eq_true_eq, decide_eq_true_eq, Table.mem_rows]

/-- The job's row is there, so there is a report on it. -/
theorem getJobInfo_of_mem {j : ProcessingData} (hj : j ∈ db.processingData) :
    db.getJobInfo j.id = some
      { status := j.status
        updatedAt := j.updatedAt
        totalTransactions := (db.joined j).length
        processedTransactions := (db.joined j).countP (·.isProcessed)
        remainingTransactions := (db.joined j).countP (!·.isProcessed) } := by
  have hcount : (db.joined j).length - (db.joined j).countP (·.isProcessed) =
      (db.joined j).countP (!·.isProcessed) := by
    have := List.length_eq_countP_add_countP (fun r : SignatureRow => r.isProcessed)
      (l := db.joined j)
    simp only [Bool.not_eq_true, Bool.decide_eq_false] at this
    omega
  unfold getJobInfo
  rw [Table.find?_of_mem hj]
  simp only [Option.map_some, hcount]

theorem mayUpdateStatus_eq_true {jobId : Nat} {status : Status} {j : ProcessingData} :
    db.mayUpdateStatus jobId status j = true ↔ j.id = jobId ∧ j.status = .indexing ∧
      (status = .ready → db.unprocessedInWindow j = false) := by
  unfold mayUpdateStatus
  simp only [Bool.and_eq_true, decide_eq_true_eq, Bool.or_eq_true, Bool.not_eq_true']
  constructor
  · rintro ⟨⟨h1, h2⟩, h3⟩
    exact ⟨h1, h2, fun hr => h3.resolve_left fun hn => hn hr⟩
  · rintro ⟨h1, h2, h3⟩
    refine ⟨⟨h1, h2⟩, ?_⟩
    by_cases hr : status = .ready
    · exact Or.inr (h3 hr)
    · exact Or.inl hr

theorem mem_updateStatus {jobId : Nat} {status : Status} {now : Int} {x : ProcessingData} :
    x ∈ (db.updateProcessingStatusByJobId jobId status now).2.processingData ↔
      ∃ j ∈ db.processingData, x = if db.mayUpdateStatus jobId status j then
        statusSet status now j else j :=
  Table.mem_update (statusSet_id status now)

/-- **The count the status update reports**: 1 when the job is indexing and not blocked, 0
otherwise. -/
theorem updateStatus_affected {j : ProcessingData} (hj : j ∈ db.processingData) (status : Status)
    (now : Int) : (db.updateProcessingStatusByJobId j.id status now).1 =
      if db.mayUpdateStatus j.id status j then 1 else 0 := by
  have hkey : ∀ r, db.mayUpdateStatus j.id status r = true → r.id = j.id := fun r hr =>
    (mayUpdateStatus_eq_true.mp hr).1
  unfold updateProcessingStatusByJobId
  simp only
  rw [Table.affected_of_key hkey, Table.find?_of_mem hj, Option.elim_some]

theorem updateStatus_eq_one {j : ProcessingData} (hj : j ∈ db.processingData) {status : Status}
    {now : Int} : (db.updateProcessingStatusByJobId j.id status now).1 = 1 ↔
      db.mayUpdateStatus j.id status j = true := by
  rw [updateStatus_affected hj]
  split <;> simp [*]

theorem updateStatus_eq_zero {j : ProcessingData} (hj : j ∈ db.processingData) {status : Status}
    {now : Int} : (db.updateProcessingStatusByJobId j.id status now).1 = 0 ↔
      db.mayUpdateStatus j.id status j = false := by
  rw [updateStatus_affected hj]
  split <;> simp_all

/-- The job's row after a status update that goes through. -/
theorem mem_updateStatus_of_may {j : ProcessingData} (hj : j ∈ db.processingData) {status : Status}
    {now : Int} (h : db.mayUpdateStatus j.id status j = true) :
    statusSet status now j ∈ (db.updateProcessingStatusByJobId j.id status now).2.processingData :=
  mem_updateStatus.mpr ⟨j, hj, by rw [if_pos h]⟩

/-- The job's row after one that does not. -/
theorem mem_updateStatus_of_not {j : ProcessingData} (hj : j ∈ db.processingData) {status : Status}
    {now : Int} (h : db.mayUpdateStatus j.id status j = false) :
    j ∈ (db.updateProcessingStatusByJobId j.id status now).2.processingData :=
  mem_updateStatus.mpr ⟨j, hj, by rw [if_neg (by simp [h])]⟩

/-- The other jobs' rows stay as they are. -/
theorem mem_updateStatus_other {jobId : Nat} {status : Status} {now : Int} {x : ProcessingData}
    (h : x.id ≠ jobId) :
    x ∈ (db.updateProcessingStatusByJobId jobId status now).2.processingData ↔
      x ∈ db.processingData := by
  have hnot : ∀ j : ProcessingData, j.id ≠ jobId → db.mayUpdateStatus jobId status j = false := by
    intro j hj
    by_contra hm
    exact hj (mayUpdateStatus_eq_true.mp (by simpa using hm)).1
  rw [mem_updateStatus]
  constructor
  · rintro ⟨j, hj, rfl⟩
    by_cases hm : db.mayUpdateStatus jobId status j = true
    · rw [if_pos hm] at h
      exact absurd (mayUpdateStatus_eq_true.mp hm).1 h
    · rw [if_neg hm]
      exact hj
  · exact fun hx => ⟨x, hx, by rw [hnot x h]; rfl⟩

/-- `'ready'` waits for the signatures of the window. -/
theorem mayUpdateStatus_ready (db : Db) {j : ProcessingData} (hs : j.status = .indexing) :
    db.mayUpdateStatus j.id .ready j = !db.unprocessedInWindow j := by
  rw [Bool.eq_iff_iff, mayUpdateStatus_eq_true, Bool.not_eq_true']
  exact ⟨fun h => h.2.2 rfl, fun h => ⟨rfl, hs, fun _ => h⟩⟩

/-- `'error'` is not guarded. -/
theorem mayUpdateStatus_error (db : Db) {j : ProcessingData} (hs : j.status = .indexing) :
    db.mayUpdateStatus j.id .error j = true :=
  mayUpdateStatus_eq_true.mpr ⟨rfl, hs, fun h => absurd h (by simp)⟩

theorem updateStatus_affected_le (db : Db) (jobId : Nat) (status : Status) (now : Int) :
    (db.updateProcessingStatusByJobId jobId status now).1 ≤ 1 :=
  Table.affected_le_one fun _ hr => (mayUpdateStatus_eq_true.mp hr).1

theorem mem_createProcessingJob {address : String} {txLimit requestedHours : Int16}
    {now : Int} {x : ProcessingData} :
    x ∈ (db.createProcessingJob address txLimit requestedHours now).2.processingData ↔
      x ∈ db.processingData ∨
        x = ⟨db.nextId, address, .pending, now, now, none, txLimit, requestedHours⟩ := by
  unfold createProcessingJob
  rw [Table.mem_insertIgnore]
  constructor
  · rintro (h | ⟨rfl, -⟩)
    · exact Or.inl h
    · exact Or.inr rfl
  · rintro (h | rfl)
    · exact Or.inl h
    · exact Or.inr ⟨rfl, fun h => Nat.lt_irrefl _ (db.seq _ h)⟩

/-! ## Rows stay -/

theorem le_setJob {j j' : ProcessingData} (hj : j ∈ db.processingData) (hs : j.SameJob j') :
    db.Le (db.setJob j') := by
  refine ⟨fun x hx => ?_, fun r h => ⟨r, h, .refl r⟩, fun _ h => h, fun _ h => h⟩
  by_cases hk : x.id = j'.id
  · obtain rfl := Table.eq_of_key hx hj (hk.trans hs.1)
    exact ⟨j', mem_setJob.mpr (Or.inr ⟨rfl, hs.1 ▸ Table.key_mem_keys hj⟩), hs⟩
  · exact ⟨x, mem_setJob.mpr (Or.inl ⟨hx, hk⟩), .refl x⟩

theorem claimSet_sameJob {workerId : Nat} {now : Int} {j j' : ProcessingData}
    (h : claimSet workerId now j = some j') : j.SameJob j' := by
  obtain ⟨w, -, rfl⟩ := claimSet_eq_some h
  exact ⟨rfl, rfl, rfl, rfl, rfl⟩

theorem statusSet_sameJob (status : Status) (now : Int) (j : ProcessingData) :
    j.SameJob (statusSet status now j) := ⟨rfl, rfl, rfl, rfl, rfl⟩

/-- A status update changes no window. -/
theorem unprocessedInWindow_statusSet (db : Db) (jobId : Nat) (status : Status) (now : Int)
    (j : ProcessingData) :
    (db.updateProcessingStatusByJobId jobId status now).2.unprocessedInWindow
      (statusSet status now j) = db.unprocessedInWindow j := rfl

theorem le_updateStatus (db : Db) (jobId : Nat) (status : Status) (now : Int) :
    db.Le (db.updateProcessingStatusByJobId jobId status now).2 := by
  refine ⟨fun j hj => ⟨_, mem_updateStatus.mpr ⟨j, hj, rfl⟩, ?_⟩, fun r h => ⟨r, h, .refl r⟩,
    fun _ h => h, fun _ h => h⟩
  split
  · exact statusSet_sameJob status now j
  · exact .refl j

theorem le_createProcessingJob (db : Db) (address : String) (txLimit requestedHours : Int16)
    (now : Int) : db.Le (db.createProcessingJob address txLimit requestedHours now).2 :=
  ⟨fun j hj => ⟨j, mem_createProcessingJob.mpr (Or.inl hj), .refl j⟩, fun r h => ⟨r, h, .refl r⟩,
    fun _ h => h, fun _ h => h⟩

end Db

end OnChainEventIndexer
