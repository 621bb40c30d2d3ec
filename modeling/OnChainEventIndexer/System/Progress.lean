import OnChainEventIndexer.Server
import OnChainEventIndexer.System.Ready

/-!
# What a client sees of its job

A client creates a job and asks `GET /jobs/{id}` for it again and again, while the workers do what
they do.

* `onward_step`: a job's row goes through its statuses, with later and later times, and a settled
  one stays as it is.
* **`answers_progress`**: where the read succeeds, the answer is a report exactly for the ids of the
  jobs that were created, and from one report to a later one nothing goes back.
-/

namespace OnChainEventIndexer

open Keyed Lts

/-- How far a job has come. -/
def Status.rank : Status → Nat
  | .pending => 0
  | .indexing => 1
  | .ready => 2
  | .error => 2

theorem Status.rank_le (s : Status) : s.rank ≤ 2 := by cases s <;> simp [Status.rank]

theorem Status.rank_settled {s : Status} (h : s = .ready ∨ s = .error) : s.rank = 2 := by
  rcases h with rfl | rfl <;> rfl

/-- From one report on a job to a later one. -/
structure JobInfo.Progress (info info' : JobInfo) : Prop where
  status : info'.status = info.status ∨ info.status.rank < info'.status.rank
  updatedAt : info.updatedAt ≤ info'.updatedAt
  settled : info.status = .ready ∨ info.status = .error →
    info'.status = info.status ∧ info'.updatedAt = info.updatedAt
  total : info.totalTransactions ≤ info'.totalTransactions
  processed : info.processedTransactions ≤ info'.processedTransactions

/-- From one version of a job's row to a later one. -/
structure ProcessingData.Onward (j j' : ProcessingData) : Prop where
  same : j.SameJob j'
  status : j' = j ∨ j.status.rank < j'.status.rank
  updatedAt : j.updatedAt ≤ j'.updatedAt

theorem ProcessingData.Onward.refl (j : ProcessingData) : j.Onward j :=
  ⟨.refl j, Or.inl rfl, Int.le_refl _⟩

theorem ProcessingData.Onward.trans {j j' j'' : ProcessingData} (h : j.Onward j')
    (h' : j'.Onward j'') : j.Onward j'' := by
  refine ⟨h.same.trans h'.same, ?_, Int.le_trans h.updatedAt h'.updatedAt⟩
  rcases h'.status with rfl | hlt'
  · exact h.status
  · rcases h.status with rfl | hlt
    · exact Or.inr hlt'
    · exact Or.inr (hlt.trans hlt')

/-! ## The rows of the jobs -/

namespace Db

/-- No row is from the future. -/
def UpdatedBy (db : Db) (now : Int) : Prop := ∀ j ∈ db.processingData, j.updatedAt ≤ now

/-- The jobs of `db` are there, as far as they were or farther. -/
def Onward (db db' : Db) : Prop := ∀ j ∈ db.processingData, ∃ j' ∈ db'.processingData, j.Onward j'

theorem Onward.of_same {db db' : Db} (h : db'.processingData = db.processingData) : db.Onward db' :=
  fun j hj => ⟨j, h ▸ hj, .refl j⟩

theorem onward_updateStatus {db : Db} {now : Int} (hdb : db.UpdatedBy now) (jobId : Nat)
    {status : Status} (hs : status.rank = 2) :
    db.Onward (db.updateProcessingStatusByJobId jobId status now).2 := by
  intro j hj
  refine ⟨_, mem_updateStatus.mpr ⟨j, hj, rfl⟩, ?_⟩
  split
  · rename_i hm
    obtain ⟨-, hindexing, -⟩ := mayUpdateStatus_eq_true.mp hm
    refine ⟨statusSet_sameJob status now j, Or.inr ?_, hdb j hj⟩
    show j.status.rank < status.rank
    rw [hindexing, hs]
    exact Nat.lt_succ_self 1
  · exact .refl j

theorem updatedBy_updateStatus {db : Db} {now : Int} (hdb : db.UpdatedBy now) (jobId : Nat)
    (status : Status) : (db.updateProcessingStatusByJobId jobId status now).2.UpdatedBy now := by
  intro x hx
  obtain ⟨j, hj, rfl⟩ := mem_updateStatus.mp hx
  split
  · exact Int.le_refl _
  · exact hdb j hj

theorem onward_setJob {db : Db} {j j' : ProcessingData} (hj : j ∈ db.processingData)
    (h : j.Onward j') : db.Onward (db.setJob j') := by
  intro x hx
  by_cases hid : x.id = j'.id
  · obtain rfl := Table.eq_of_key hx hj (hid.trans h.same.1)
    exact ⟨j', mem_setJob.mpr (Or.inr ⟨rfl, hid ▸ Table.key_mem_keys hx⟩), h⟩
  · exact ⟨x, mem_setJob.mpr (Or.inl ⟨hx, hid⟩), .refl x⟩

theorem keys_updateStatus (db : Db) (jobId : Nat) (status : Status) (now : Int) :
    (db.updateProcessingStatusByJobId jobId status now).2.processingData.keys =
      db.processingData.keys := by
  unfold updateProcessingStatusByJobId
  rw [Table.keys_update]

theorem keys_setJob (db : Db) (j' : ProcessingData) :
    (db.setJob j').processingData.keys = db.processingData.keys := by
  unfold setJob
  rw [Table.keys_update]

/-! ## The reports -/

variable {db db' : Db} {j j' : ProcessingData}

theorem joined_key (hle : db.Le db') (hs : j.SameJob j') {r : SignatureRow} (hr : r ∈ db.joined j) :
    ∃ r' ∈ db'.joined j', r'.key = r.key ∧ (r.isProcessed = true → r'.isProcessed = true) := by
  obtain ⟨hr, ha, hw⟩ := mem_joined.mp hr
  obtain ⟨r', hr', hk, hb, hp⟩ := hle.sigs r hr
  refine ⟨r', mem_joined.mpr ⟨hr', ?_, ?_⟩, hk, hp⟩
  · exact (Prod.mk.inj hk).1.trans (ha.trans hs.2.1.symm)
  · rw [hb]
    exact (hs.inWindow _).mpr hw

/-- **The counts of a report do not go down.** -/
theorem joined_counts (hle : db.Le db') (hs : j.SameJob j') :
    (db.joined j).length ≤ (db'.joined j').length ∧
      (db.joined j).countP (·.isProcessed) ≤ (db'.joined j').countP (·.isProcessed) := by
  have hcount : ∀ p : SignatureRow → Bool,
      (∀ r r' : SignatureRow, (r.isProcessed = true → r'.isProcessed = true) → p r = true →
        p r' = true) → (db.joined j).countP p ≤ (db'.joined j').countP p := by
    intro p hp
    unfold joined
    rw [List.countP_filter, List.countP_filter]
    refine Table.countP_le_of_keys fun r hr hpr => ?_
    rw [Bool.and_eq_true] at hpr
    obtain ⟨r', hr', hk, hproc⟩ := joined_key hle hs (List.mem_filter.mpr ⟨hr, hpr.2⟩)
    obtain ⟨hr', hq⟩ := List.mem_filter.mp hr'
    exact ⟨r', hr', hk, by rw [Bool.and_eq_true]; exact ⟨hp r r' hproc hpr.1, hq⟩⟩
  constructor
  · have := hcount (fun _ => true) fun _ _ _ _ => rfl
    simpa using this
  · exact hcount _ fun _ _ h hp => h hp

theorem getJobInfo_progress (hle : db.Le db') (hj : j ∈ db.processingData)
    (hj' : j' ∈ db'.processingData) (h : j.Onward j') :
    ∃ info info', db.getJobInfo j.id = some info ∧ db'.getJobInfo j.id = some info' ∧
      info.processedTransactions + info.remainingTransactions = info.totalTransactions ∧
      info.Progress info' := by
  have hreport' := getJobInfo_of_mem hj'
  rw [h.same.1] at hreport'
  obtain ⟨htotal, hprocessed⟩ := joined_counts hle h.same
  refine ⟨_, _, getJobInfo_of_mem hj, hreport', ?_, ?_, h.updatedAt, ?_, htotal, hprocessed⟩
  · simp only
    have := List.length_eq_countP_add_countP (fun r : SignatureRow => r.isProcessed)
      (l := db.joined j)
    simp only [Bool.not_eq_true, Bool.decide_eq_false] at this
    omega
  · rcases h.status with rfl | hlt
    · exact Or.inl rfl
    · exact Or.inr hlt
  · intro hsettled
    rcases h.status with rfl | hlt
    · exact ⟨rfl, rfl⟩
    · have hlast : j.status.rank = 2 := Status.rank_settled hsettled
      have hle2 := Status.rank_le j'.status
      omega

end Db

/-! ## The ids -/

namespace Sys

/-- The ids of the jobs that `create_processing_job` creates, in this order. -/
def createdIds (tr : List (Sys × Act)) : List Nat :=
  tr.filterMap fun x =>
    match x.2 with
    | .create address txLimit requestedHours =>
      some (x.1.db.createProcessingJob address txLimit requestedHours x.1.now).1
    | .createLost address txLimit requestedHours =>
      some (x.1.db.createProcessingJob address txLimit requestedHours x.1.now).1
    | _ => none

/-- The ids that it returns. -/
def givenOut (tr : List (Sys × Act)) : List Nat := createdIds (tr.filter fun x => !x.2.isLost)

/-- An id that was given out is that of a job that was created. -/
theorem createdIds_of_givenOut {tr : List (Sys × Act)} {id : Nat} (h : id ∈ givenOut tr) :
    id ∈ createdIds tr :=
  (List.filter_sublist.filterMap _).subset h

end Sys

/-! ## Steps -/

section Network

variable [External] {api : HeliusApi}

theorem Next.onward {job : ClaimedJob} {now : Int} {db db' : Db} {pc pc' : Pc} {a : Answer}
    (h : Next api job now db pc a db' pc') (hdb : db.UpdatedBy now) : db.Onward db' := by
  cases h with
  | signaturesWritten => exact .of_same (Db.writeSignatures_processingData _ _ _)
  | infoWritten => exact .of_same (Db.writeTransactionInfo_processingData _ _ _)
  | transfersWritten => exact .of_same (Db.writeTokenTransfers_processingData _ _ _)
  | batchMarked => exact .of_same (Db.markSignaturesProcessed_processingData _ _ _)
  | readyUpdated h => exact Db.onward_updateStatus hdb _ rfl
  | readyBlocked h => exact Db.onward_updateStatus hdb _ rfl
  | errorUpdated => exact Db.onward_updateStatus hdb _ rfl
  | _ => exact .of_same rfl

theorem Next.updatedBy {job : ClaimedJob} {now : Int} {db db' : Db} {pc pc' : Pc} {a : Answer}
    (h : Next api job now db pc a db' pc') (hdb : db.UpdatedBy now) : db'.UpdatedBy now := by
  have hsame : ∀ db' : Db, db'.processingData = db.processingData → db'.UpdatedBy now :=
    fun db' he j hj => hdb j (he ▸ hj)
  cases h with
  | signaturesWritten => exact hsame _ (Db.writeSignatures_processingData _ _ _)
  | infoWritten => exact hsame _ (Db.writeTransactionInfo_processingData _ _ _)
  | transfersWritten => exact hsame _ (Db.writeTokenTransfers_processingData _ _ _)
  | batchMarked => exact hsame _ (Db.markSignaturesProcessed_processingData _ _ _)
  | readyUpdated h => exact Db.updatedBy_updateStatus hdb _ _
  | readyBlocked h => exact Db.updatedBy_updateStatus hdb _ _
  | errorUpdated => exact Db.updatedBy_updateStatus hdb _ _
  | _ => exact hdb

theorem Next.jobKeys {job : ClaimedJob} {now : Int} {db db' : Db} {pc pc' : Pc} {a : Answer}
    (h : Next api job now db pc a db' pc') : db'.processingData.keys = db.processingData.keys := by
  cases h with
  | signaturesWritten => rw [Db.writeSignatures_processingData]
  | infoWritten => rw [Db.writeTransactionInfo_processingData]
  | transfersWritten => rw [Db.writeTokenTransfers_processingData]
  | batchMarked => rw [Db.markSignaturesProcessed_processingData]
  | readyUpdated h => exact Db.keys_updateStatus _ _ _ _
  | readyBlocked h => exact Db.keys_updateStatus _ _ _ _
  | errorUpdated => exact Db.keys_updateStatus _ _ _ _
  | _ => rfl

namespace Sys

/-- `GET /jobs/{id}` in this state, where the read may fail. -/
def poll (failure : Option String) (s : Sys) (id : Nat) : Response :=
  Server.getJobInfo
    (match failure with
    | some e => .error e
    | none => .ok (s.db.getJobInfo id))

variable {s s' : Sys} {a : Act}

/-- **The step lemma** for the rows of the jobs. -/
theorem onward_step (hdb : s.db.UpdatedBy s.now) (hn : Next api s a s') :
    s.db.Onward s'.db ∧ s'.db.UpdatedBy s'.now := by
  cases hn with
  | @ticked d =>
    refine ⟨.of_same rfl, fun j hj => ?_⟩
    have := hdb j hj
    show j.updatedAt ≤ s.now + d
    omega
  | created ha =>
    refine ⟨fun j hj => ⟨j, Db.mem_createProcessingJob.mpr (Or.inl hj), .refl j⟩, fun x hx => ?_⟩
    rcases Db.mem_createProcessingJob.mp hx with hx | rfl
    · exact hdb x hx
    · exact Int.le_refl _
  | foundNothing hw => exact ⟨.of_same rfl, hdb⟩
  | @claimed w a j j' ha hw hj hp hset =>
    obtain ⟨n, -, rfl⟩ := Db.claimSet_eq_some hset
    refine ⟨Db.onward_setJob hj ⟨Db.claimSet_sameJob hset, Or.inr ?_, hdb j hj⟩, fun x hx => ?_⟩
    · rw [hp]
      exact Nat.lt_succ_self 0
    · rcases Db.mem_setJob.mp hx with ⟨hx, -⟩ | ⟨rfl, -⟩
      · exact hdb x hx
      · exact Int.le_refl _
  | @lostClaim w j j' hw hj hp hset =>
    obtain ⟨n, -, rfl⟩ := Db.claimSet_eq_some hset
    refine ⟨Db.onward_setJob hj ⟨Db.claimSet_sameJob hset, Or.inr ?_, hdb j hj⟩, fun x hx => ?_⟩
    · rw [hp]
      exact Nat.lt_succ_self 0
    · rcases Db.mem_setJob.mp hx with ⟨hx, -⟩ | ⟨rfl, -⟩
      · exact hdb x hx
      · exact Int.le_refl _
  | called hw hn => exact ⟨hn.onward hdb, hn.updatedBy hdb⟩
  | lostCall hw hi hn => exact ⟨hn.onward hdb, hn.updatedBy hdb⟩
  | crashed hw => exact ⟨.of_same rfl, hdb⟩
  | restarted hw => exact ⟨.of_same rfl, hdb⟩

/-- A step adds the rows of the jobs it creates, and no others. -/
theorem keys_step (hn : Next api s a s') (k : Nat) : k ∈ s'.db.processingData.keys ↔
    k ∈ s.db.processingData.keys ∨ k ∈ createdIds [(s, a)] := by
  have hsame : ∀ keys : List Nat, keys = s.db.processingData.keys → createdIds [(s, a)] = [] →
      (k ∈ keys ↔ k ∈ s.db.processingData.keys ∨ k ∈ createdIds [(s, a)]) := by
    rintro _ rfl hnone
    rw [hnone]
    simp
  cases hn with
  | created ha =>
    rcases ha with rfl | rfl <;>
      exact Table.mem_keys_insertIgnore.trans (or_congr_right List.mem_singleton.symm)
  | claimed ha hw hj hp hset =>
    refine hsame _ (Db.keys_setJob _ _) ?_
    rcases ha with ⟨rfl, -⟩ | rfl <;> rfl
  | lostClaim hw hj hp hset => exact hsame _ (Db.keys_setJob _ _) rfl
  | called hw hn => exact hsame _ hn.jobKeys rfl
  | lostCall hw hi hn => exact hsame _ hn.jobKeys rfl
  | _ => exact hsame _ rfl rfl

/-! ## Runs -/

variable {now : Int} {tr : List (Sys × Act)}

theorem keys_run (h : Run (Step api) (Sys.init now) tr s) (k : Nat) :
    k ∈ s.db.processingData.keys ↔ k ∈ createdIds tr := by
  induction h with
  | refl => exact Iff.rfl
  | @tail tr t s a hr hs ih =>
    have happend : createdIds (tr ++ [(t, a)]) = createdIds tr ++ createdIds [(t, a)] :=
      List.filterMap_append
    rw [keys_step (step_next hs), ih, happend, List.mem_append]

theorem updatedBy_run (h : Run (Step api) (Sys.init now) tr s) : s.db.UpdatedBy s.now :=
  h.invariant (I := fun s => s.db.UpdatedBy s.now)
    (fun _ _ _ hi hs => (onward_step hi (step_next hs)).2) fun j hj =>
    absurd hj (Table.not_mem_empty j)

theorem onward_run {part : List (Sys × Act)} {u : Sys} (hdb : u.db.UpdatedBy u.now)
    (h : Run (Step api) u part s) : u.db.Onward s.db := by
  have hboth := h.invariant (I := fun s => u.db.Onward s.db ∧ s.db.UpdatedBy s.now)
    (fun t b v hi hs => by
      obtain ⟨hon, hup⟩ := onward_step hi.2 (step_next hs)
      refine ⟨fun j hj => ?_, hup⟩
      obtain ⟨j', hj', hjj'⟩ := hi.1 j hj
      obtain ⟨j'', hj'', hjj''⟩ := hon j' hj'
      exact ⟨j'', hj'', hjj'.trans hjj''⟩) ⟨.of_same rfl, hdb⟩
  exact hboth.1

/-- **What a client sees**: `500` where the read fails. Where it succeeds, `404` for the id of no
job; and for the id of a job, be it given out or its answer lost, a report, whose numbers add up;
and compared with it every later report is as far or farther. -/
theorem answers_progress {u : Sys} {part : List (Sys × Act)}
    (hu : Run (Step api) (Sys.init now) tr u) (h : Run (Step api) u part s) (id : Nat) :
    (∀ e, poll (some e) u id = ⟨500, .error e⟩) ∧
    (id ∉ createdIds tr → poll none u id = ⟨404, .error "Job not found"⟩) ∧
    (id ∈ givenOut tr → id ∈ createdIds tr) ∧
    (id ∈ createdIds tr → ∃ info info', poll none u id = ⟨200, .jobInfo info⟩ ∧
      poll none s id = ⟨200, .jobInfo info'⟩ ∧
      info.processedTransactions + info.remainingTransactions = info.totalTransactions ∧
      info.Progress info') := by
  refine ⟨fun e => rfl, ?_, createdIds_of_givenOut, ?_⟩
  · intro hid
    have hnone : u.db.getJobInfo id = none := by
      unfold Db.getJobInfo
      rw [Option.map_eq_none_iff, Table.find?_eq_none]
      exact fun j hj hk => hid ((keys_run hu id).mp (hk ▸ Table.key_mem_keys hj))
    unfold poll
    rw [hnone]
    rfl
  · intro hid
    obtain ⟨j, hj, rfl⟩ := Table.mem_keys.mp ((keys_run hu id).mpr hid)
    obtain ⟨j', hj', hon⟩ := onward_run (updatedBy_run hu) h j hj
    obtain ⟨info, info', hinfo, hinfo', hsum, hprogress⟩ :=
      Db.getJobInfo_progress (le_run h) hj hj' hon
    refine ⟨info, info', ?_, ?_, hsum, hprogress⟩
    · unfold poll
      rw [hinfo]
      rfl
    · unfold poll
      rw [hinfo']
      rfl

end Sys

end Network

namespace Sys

/-- Two jobs are created, and the answer for the second is lost. The first one fails while its
client polls. -/
theorem answers_progress_failed :
    letI : External := smallNetwork [] []
    ∃ tr u part s, Run (Step sampleApi) (Sys.init 0) tr u ∧ Run (Step sampleApi) u part s ∧
      givenOut tr = [1] ∧ createdIds tr = [1, 2] ∧
      (s.db.getJobInfo 1).any (fun info => info.status = .error) = true ∧
      poll none u 3 = ⟨404, .error "Job not found"⟩ ∧
      ∀ id ∈ [1, 2], ∃ info info', poll none u id = ⟨200, .jobInfo info⟩ ∧
        poll none s id = ⟨200, .jobInfo info'⟩ ∧
        info.processedTransactions + info.remainingTransactions = info.totalTransactions ∧
        info.Progress info' := by
  let : External := smallNetwork [] []
  let s1 : Sys := ⟨(Db.empty.createProcessingJob "A" 10 1 0).2, 0, fun _ => .idle⟩
  let u : Sys := { s1 with db := (s1.db.createProcessingJob "B" 10 1 0).2 }
  have h1 : Step sampleApi (Sys.init 0) (.create "A" 10 1) s1 := rfl
  have h2 : Step sampleApi s1 (.createLost "B" 10 1) u := rfl
  have hu := (Run.single h1).tail h2
  obtain ⟨part, s, hrun, -, htest⟩ := exists_run_of_exec (step sampleApi) u
    [.tick 7, .claim 1, .call 1 (.signatures serveNothing 100), .call 1 (.done [])]
    (fun _ s => (s.db.getJobInfo 1).any fun info => info.status = .error) (by decide +kernel)
  have hnot : (3 : Nat) ∉ [1, 2] := by decide
  exact ⟨_, u, part, s, hu, hrun, rfl, rfl, htest, (answers_progress hu hrun 3).2.1 hnot,
    fun id hid => (answers_progress hu hrun id).2.2.2 hid⟩

end Sys

end OnChainEventIndexer
