import OnChainEventIndexer.Db.Jobs
import OnChainEventIndexer.Lib.KeyQueue

/-!
# The jobs as a queue

`processing_data` and its two statements are meant as a queue of jobs of which each address has at
most one in work. Where no two jobs have the same `created_at`, between which `ORDER BY` leaves the
choice open (`Ordered`), each statement is a step of that queue: `queue_createProcessingJob`,
`queue_claim` and `queue_updateStatus`.
-/

namespace OnChainEventIndexer

open Keyed

namespace Db

/-- The pending jobs by address, and the addresses that have one in work. -/
def queue (db : Db) : KeyQueue.Queue Nat String where
  waiting := (db.processingData.rows.filter fun j => j.status = .pending).map fun j =>
    (j.id, j.address)
  busy := db.activeAddress

/-- No job was created before one above it. -/
def Ordered (db : Db) : Prop := (db.processingData.rows.map (·.createdAt)).Pairwise (· < ·)

variable {db : Db} {j j' : ProcessingData}

/-! ## What the statements do to the queue -/

theorem queue_of_processingData {db' : Db} (h : db'.processingData = db.processingData) :
    db'.queue = db.queue := by
  unfold queue activeAddress
  rw [h]

theorem rows_createProcessingJob (db : Db) (address : String) (txLimit requestedHours : Int16)
    (now : Int) : (db.createProcessingJob address txLimit requestedHours now).2.processingData.rows =
      db.processingData.rows ++
        [⟨db.nextId, address, .pending, now, now, none, txLimit, requestedHours⟩] := by
  exact Table.rows_insertIgnore fun h => Nat.lt_irrefl _ (db.seq _ h)

theorem queue_createProcessingJob (db : Db) (address : String) (txLimit requestedHours : Int16)
    (now : Int) : (db.createProcessingJob address txLimit requestedHours now).2.queue =
      ⟨db.queue.waiting ++ [(db.nextId, address)], db.queue.busy⟩ := by
  unfold queue activeAddress
  rw [rows_createProcessingJob]
  congr 1
  · simp
  · funext k
    simp

theorem ordered_createProcessingJob {address : String} {txLimit requestedHours : Int16} {now : Int}
    (h : db.Ordered) (hnow : ∀ j ∈ db.processingData, j.createdAt < now) :
    (db.createProcessingJob address txLimit requestedHours now).2.Ordered := by
  unfold Ordered
  rw [rows_createProcessingJob, List.map_append, List.pairwise_append]
  refine ⟨h, List.pairwise_singleton _ _, fun t ht u hu => ?_⟩
  obtain ⟨j, hj, rfl⟩ := List.mem_map.mp ht
  rw [List.mem_singleton.mp hu]
  exact hnow j hj

theorem ordered_update {p : ProcessingData → Bool} {f : ProcessingData → ProcessingData}
    (hf : ∀ r, (f r).id = r.id) {db' : Db} (h : db.Ordered)
    (hdb : db'.processingData = db.processingData.update p f hf)
    (hcreated : ∀ r ∈ db.processingData, p r = true → (f r).createdAt = r.createdAt) :
    db'.Ordered := by
  have hmap : db'.processingData.rows.map (·.createdAt) =
      db.processingData.rows.map (·.createdAt) := by
    rw [hdb]
    unfold Table.update
    rw [List.map_map]
    refine List.map_congr_left fun r hr => ?_
    simp only [Function.comp]
    split
    · rename_i hp
      exact hcreated r hr hp
    · rfl
  unfold Ordered
  rw [hmap]
  exact h

/-! ### The claim -/

/-- In the order of `created_at` the oldest is the first. -/
theorem oldest_of_ordered {l : List ProcessingData}
    (h : (l.map (·.createdAt)).Pairwise (· < ·)) : oldest l = l.head? := by
  cases l with
  | nil => rfl
  | cons x xs =>
    simp only [oldest, List.head?_cons]
    cases hk : oldest xs with
    | none => rfl
    | some k =>
      have hlt : x.createdAt < k.createdAt :=
        (List.pairwise_cons.mp h).1 _ (List.mem_map_of_mem (oldest_mem hk))
      simp only
      rw [if_neg (by omega)]

theorem nextJob_of_ordered (h : db.Ordered) :
    db.nextJob = db.processingData.rows.find? db.claimable := by
  unfold nextJob
  rw [oldest_of_ordered, List.head?_filter]
  exact h.sublist (List.filter_sublist.map _)

/-- The row replaced, in its place. -/
theorem rows_setJob {before after : List ProcessingData}
    (hrows : db.processingData.rows = before ++ j :: after) (hid : j'.id = j.id) :
    (db.setJob j').processingData.rows = before ++ j' :: after := by
  have hupdate := Table.rows_update_one (p := fun x => x.id = j'.id)
    (f := fun x => { j' with id := x.id }) (fun _ => rfl) hrows fun x _ => by
      rw [decide_eq_true_eq, hid]
  refine hupdate.trans ?_
  rw [← hid]

theorem ordered_setJob (h : db.Ordered) (hj : j ∈ db.processingData) (hid : j'.id = j.id)
    (hcreated : j'.createdAt = j.createdAt) : (db.setJob j').Ordered :=
  ordered_update (f := fun j => { j' with id := j.id }) (fun _ => rfl) h rfl fun r hr he => by
    rw [Table.eq_of_key hr hj ((of_decide_eq_true he).trans hid)]
    exact hcreated

/-- **A claim starts the first entry whose key is free.** -/
theorem queue_claim (h : db.Ordered) (hnext : db.nextJob = some j) {workerId : Nat} {now : Int}
    (hset : claimSet workerId now j = some j') :
    KeyQueue.Step db.queue (.start (j.id, j.address)) (db.setJob j').queue := by
  rw [nextJob_of_ordered h] at hnext
  obtain ⟨hcl, before, after, hrows, hbefore⟩ := List.find?_eq_some_iff_append.mp hnext
  obtain ⟨n, -, rfl⟩ := claimSet_eq_some hset
  obtain ⟨hp, hfree⟩ : j.status = .pending ∧ db.activeAddress j.address = false := by
    simpa [claimable] using hcl
  have hqueue : (db.setJob { j with status := .indexing, workerId := some n, updatedAt := now }).queue =
      ⟨(before.filter fun j => j.status = .pending).map (fun j => (j.id, j.address)) ++
        (after.filter fun j => j.status = .pending).map (fun j => (j.id, j.address)),
        Function.update db.queue.busy j.address true⟩ := by
    unfold queue activeAddress
    rw [rows_setJob hrows]
    · congr 1
      · simp
      · funext k
        rw [Function.update_apply]
        split
        · rename_i hk
          simp [hk]
        · rename_i hk
          simp [hrows, hp, Ne.symm hk]
    · rfl
  rw [hqueue]
  refine KeyQueue.Step.start (by simp [queue, hrows, hp]) hfree fun y hy => ?_
  -- a pending job above is not claimable, so its address is active
  obtain ⟨r, hr, rfl⟩ := List.mem_map.mp hy
  obtain ⟨hr, hs⟩ := List.mem_filter.mp hr
  have hnot := hbefore r hr
  have hs' := of_decide_eq_true hs
  show db.activeAddress r.address = true
  simpa [claimable, hs'] using hnot

/-! ### The status update -/

theorem waiting_updateStatus (db : Db) (jobId : Nat) {status : Status} (now : Int)
    (hp : status ≠ .pending) :
    (db.updateProcessingStatusByJobId jobId status now).2.queue.waiting = db.queue.waiting := by
  unfold queue updateProcessingStatusByJobId Table.update
  simp only
  rw [List.filter_map, List.map_map]
  have hfilter : db.processingData.rows.filter ((fun j => decide (j.status = .pending)) ∘
      fun r => if db.mayUpdateStatus jobId status r then statusSet status now r else r) =
        db.processingData.rows.filter fun j => decide (j.status = .pending) := by
    refine List.filter_congr fun r _ => ?_
    simp only [Function.comp]
    split
    · rename_i hm
      have hs := (mayUpdateStatus_eq_true.mp hm).2.1
      simp [statusSet, hp, hs]
    · rfl
  rw [hfilter]
  refine List.map_congr_left fun r _ => ?_
  simp only [Function.comp]
  split <;> rfl

/-- The addresses of the jobs that stay as they are. -/
theorem activeAddress_updateStatus (db : Db) (jobId : Nat) {status : Status} (now : Int)
    (hi : status ≠ .indexing) {k : String} :
    (db.updateProcessingStatusByJobId jobId status now).2.activeAddress k = true ↔
      ∃ j ∈ db.processingData, db.mayUpdateStatus jobId status j = false ∧ j.address = k ∧
        j.status = .indexing := by
  rw [activeAddress_eq_true]
  constructor
  · rintro ⟨x, hx, ha, hs⟩
    obtain ⟨j, hj, rfl⟩ := mem_updateStatus.mp hx
    cases hm : db.mayUpdateStatus jobId status j with
    | true =>
      rw [if_pos hm] at hs
      exact absurd hs hi
    | false =>
      rw [if_neg (by simp [hm])] at ha hs
      exact ⟨j, hj, hm, ha, hs⟩
  · rintro ⟨j, hj, hm, ha, hs⟩
    exact ⟨j, mem_updateStatus.mpr ⟨j, hj, by simp [hm]⟩, ha, hs⟩

/-- **A status update takes an address out of work**, or changes nothing the queue shows. -/
theorem queue_updateStatus (db : Db) (jobId : Nat) {status : Status} (now : Int)
    (hp : status ≠ .pending) (hi : status ≠ .indexing) :
    let db' := (db.updateProcessingStatusByJobId jobId status now).2
    db'.queue = db.queue ∨ ∃ k, KeyQueue.Step db.queue (.finish k) db'.queue := by
  intro db'
  have hwaiting : db'.queue.waiting = db.queue.waiting := waiting_updateStatus db jobId now hp
  have hless : ∀ k, db'.activeAddress k = true → db.activeAddress k = true := by
    intro k hk
    obtain ⟨j, hj, -, ha, hs⟩ := (activeAddress_updateStatus db jobId now hi).mp hk
    exact activeAddress_eq_true.mpr ⟨j, hj, ha, hs⟩
  by_cases hsame : db'.activeAddress = db.activeAddress
  · left
    show (⟨db'.queue.waiting, db'.activeAddress⟩ : KeyQueue.Queue Nat String) = db.queue
    rw [hwaiting, hsame]
    rfl
  · right
    -- some address is active no more, that of the job which the update finds
    obtain ⟨k, hk⟩ := Function.ne_iff.mp hsame
    have hk' : db.activeAddress k = true ∧ db'.activeAddress k = false := by
      cases h' : db'.activeAddress k with
      | true => exact absurd (h'.trans (hless k h').symm) hk
      | false =>
        rw [h'] at hk
        exact ⟨by simpa using hk.symm, rfl⟩
    obtain ⟨j, hj, ha, hs⟩ := activeAddress_eq_true.mp hk'.1
    have hm : db.mayUpdateStatus jobId status j = true := by
      by_contra hm
      have := (activeAddress_updateStatus db jobId now hi).mpr
        ⟨j, hj, by simpa using hm, ha, hs⟩
      exact absurd (this.symm.trans hk'.2) (by simp)
    have hbusy : db'.activeAddress = Function.update db.activeAddress k false := by
      funext u
      rw [Function.update_apply]
      split
      · rename_i hu
        rw [hu, hk'.2]
      · rename_i hu
        refine Bool.eq_iff_iff.mpr ⟨hless u, fun h => ?_⟩
        obtain ⟨x, hx, hxa, hxs⟩ := activeAddress_eq_true.mp h
        refine (activeAddress_updateStatus db jobId now hi).mpr ⟨x, hx, ?_, hxa, hxs⟩
        by_contra hxm
        have hid : x.id = j.id := (mayUpdateStatus_eq_true.mp (by simpa using hxm)).1.trans
          (mayUpdateStatus_eq_true.mp hm).1.symm
        obtain rfl := Table.eq_of_key hx hj hid
        exact hu (hxa.symm.trans ha)
    refine ⟨k, ?_⟩
    show KeyQueue.Step _ _ ⟨db'.queue.waiting, db'.activeAddress⟩
    rw [hwaiting, hbusy]
    exact KeyQueue.Step.finish hk'.1

end Db

end OnChainEventIndexer
