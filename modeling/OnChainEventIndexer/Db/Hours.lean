import OnChainEventIndexer.Db.Jobs
import OnChainEventIndexer.Db.Signatures
import OnChainEventIndexer.Requests.Client

/-!
# Negative hours

`take_recent_signatures_at` takes a negative `requested_hours` for zero. The two queries that
compute the window of a job do not: with zero hours the window is the second the job was created
in, with a negative number it is empty.

A job and its twin with zero hours are compared over two databases with the same signatures of the
address (`Twins`). `negativeHours_iff`: they behave alike if and only if no signature of the
address has its block time in that second.
-/

namespace OnChainEventIndexer

open Keyed

/-- The same job with zero hours. -/
def ProcessingData.zeroHours (j : ProcessingData) : ProcessingData := { j with requestedHours := 0 }

/-- A job in one database and its twin in the other. -/
structure Twins (db db' : Db) (j : ProcessingData) : Prop where
  job : j ∈ db.processingData
  twin : j.zeroHours ∈ db'.processingData
  sigs : ∀ r, r.ownerAddress = j.address → (r ∈ db.signatures ↔ r ∈ db'.signatures)

/-- The three uses of the hours: the filter, the ready guard and the report. -/
structure BehaveAlike (db db' : Db) (j : ProcessingData) : Prop where
  kept : ∀ page nowTs, takeRecentSignaturesAt page j.requestedHours nowTs =
    takeRecentSignaturesAt page j.zeroHours.requestedHours nowTs
  ready : ∀ now, (db.updateProcessingStatusByJobId j.id .ready now).1 =
    (db'.updateProcessingStatusByJobId j.id .ready now).1
  info : db.getJobInfo j.id = db'.getJobInfo j.id

variable {db db' : Db} {j : ProcessingData}

/-! ## The two windows -/

theorem epochSeconds_lt {t t' : Int} (h : t + 2000000 ≤ t') : epochSeconds t < epochSeconds t' := by
  unfold epochSeconds
  split <;> split <;> omega

/-- With negative hours the window ends before it starts. -/
theorem not_inWindow_of_neg (h : j.requestedHours.toInt < 0) (blockTime : Option Int) :
    ¬j.InWindow blockTime := by
  rintro ⟨t, -, hstart, hend⟩
  have hlt : j.windowEnd < j.windowStart := by
    refine epochSeconds_lt ?_
    unfold hour
    omega
  omega

/-- With zero hours it is one second. -/
theorem inWindow_zeroHours {blockTime : Option Int} :
    j.zeroHours.InWindow blockTime ↔ blockTime = some (epochSeconds j.createdAt) := by
  have hstart : j.zeroHours.windowStart = epochSeconds j.createdAt := by
    have hzero : j.zeroHours.requestedHours.toInt = 0 := rfl
    unfold ProcessingData.windowStart
    rw [hzero, Int.zero_mul, Int.sub_zero]
    rfl
  have hend : j.zeroHours.windowEnd = epochSeconds j.createdAt := rfl
  unfold ProcessingData.InWindow
  rw [hstart, hend]
  constructor
  · rintro ⟨t, ht, h1, h2⟩
    rw [Option.mem_def.mp ht, Int.le_antisymm h2 h1]
  · rintro rfl
    exact ⟨_, rfl, Int.le_refl _, Int.le_refl _⟩

/-- No signature of the address has its block time in the second of the creation. -/
def NoneInSecond (db : Db) (j : ProcessingData) : Prop :=
  ∀ r ∈ db.signatures, r.ownerAddress = j.address → r.blockTime ≠ some (epochSeconds j.createdAt)

theorem joined_of_neg (h : j.requestedHours.toInt < 0) : db.joined j = [] := by
  refine List.eq_nil_iff_forall_not_mem.mpr fun r hr => ?_
  exact not_inWindow_of_neg h _ (Db.mem_joined.mp hr).2.2

theorem joined_zeroHours (h : Twins db db' j) : db'.joined j.zeroHours = [] ↔ NoneInSecond db j := by
  rw [List.eq_nil_iff_forall_not_mem]
  constructor
  · intro hnone r hr ha hb
    exact hnone r (Db.mem_joined.mpr ⟨(h.sigs r ha).mp hr, ha, inWindow_zeroHours.mpr hb⟩)
  · intro hnone r hr
    obtain ⟨hr, ha, hw⟩ := Db.mem_joined.mp hr
    exact hnone r ((h.sigs r ha).mpr hr) ha (inWindow_zeroHours.mp hw)

/-! ## The three uses -/

/-- The filter does not tell them apart. -/
theorem takeRecentSignaturesAt_of_neg (h : j.requestedHours.toInt < 0) (page : List Signature)
    (nowTs : Int) : takeRecentSignaturesAt page j.requestedHours nowTs =
      takeRecentSignaturesAt page j.zeroHours.requestedHours nowTs := by
  have hzero : j.zeroHours.requestedHours.toInt = 0 := rfl
  have hmax : max j.requestedHours.toInt 0 = max 0 0 := by omega
  unfold takeRecentSignaturesAt cutoffTs
  rw [hzero, hmax]

/-- The report on a job whose window has no rows. -/
theorem getJobInfo_of_joined_nil (hj : j ∈ db.processingData) (h : db.joined j = []) :
    db.getJobInfo j.id = some ⟨j.status, j.updatedAt, 0, 0, 0⟩ := by
  rw [Db.getJobInfo_of_mem hj, h]
  rfl

/-- The ready guard with an empty window looks at the status only. -/
theorem updateReady_of_joined_nil (hj : j ∈ db.processingData) (h : db.joined j = []) (now : Int) :
    (db.updateProcessingStatusByJobId j.id .ready now).1 = if j.status = .indexing then 1 else 0 := by
  have hfree : db.unprocessedInWindow j = false := by
    refine Db.unprocessedInWindow_eq_false.mpr fun r hr ha hw => ?_
    have hmem := Db.mem_joined.mpr ⟨hr, ha, hw⟩
    rw [h] at hmem
    exact absurd hmem List.not_mem_nil
  rw [Db.updateStatus_affected hj]
  by_cases hs : j.status = .indexing
  · rw [Db.mayUpdateStatus_ready db hs, hfree, if_pos hs]
    rfl
  · rw [if_neg hs, if_neg fun hm => hs (Db.mayUpdateStatus_eq_true.mp hm).2.1]

/-- **Negative hours mean zero hours** if and only if no signature of the address has its block
time in the second the job was created in. -/
theorem negativeHours_iff (h : Twins db db' j) (hneg : j.requestedHours.toInt < 0) :
    BehaveAlike db db' j ↔ NoneInSecond db j := by
  rw [← joined_zeroHours h]
  have hnil : db.joined j = [] := joined_of_neg hneg
  have hid : j.zeroHours.id = j.id := rfl
  constructor
  · intro halike
    have hinfo := halike.info
    rw [getJobInfo_of_joined_nil h.job hnil, ← hid, Db.getJobInfo_of_mem h.twin] at hinfo
    have htotal := congrArg JobInfo.totalTransactions (Option.some.inj hinfo)
    exact List.length_eq_zero_iff.mp htotal.symm
  · intro htwin
    refine ⟨takeRecentSignaturesAt_of_neg hneg, fun now => ?_, ?_⟩
    · rw [updateReady_of_joined_nil h.job hnil, ← hid, updateReady_of_joined_nil h.twin htwin]
      rfl
    · rw [getJobInfo_of_joined_nil h.job hnil, ← hid, getJobInfo_of_joined_nil h.twin htwin]
      rfl

/-! ## Two jobs created in the same database -/

/-- The job `create_processing_job` creates. -/
def newJob (db : Db) (address : String) (txLimit requestedHours : Int16) (now : Int) :
    ProcessingData :=
  ⟨db.nextId, address, .pending, now, now, none, txLimit, requestedHours⟩

/-- **Jobs created at the same time** with some hours and with none. -/
theorem twins_create (db : Db) (address : String) (txLimit requestedHours : Int16) (now : Int) :
    Twins (db.createProcessingJob address txLimit requestedHours now).2
      (db.createProcessingJob address txLimit 0 now).2
      (newJob db address txLimit requestedHours now) :=
  ⟨Db.mem_createProcessingJob.mpr (Or.inr rfl), Db.mem_createProcessingJob.mpr (Or.inr rfl),
    fun _ _ => Iff.rfl⟩

/-- A job for `"A"` is created in the second 10000 and claimed by worker 1. -/
def createdAndClaimed (db : Db) (requestedHours : Int16) : Db :=
  let db := (db.createProcessingJob "A" 10 requestedHours 10000000000).2
  match db.claimPendingJob 1 10000700000 with
  | .ok (_, db) => db
  | .error _ => db

/-- The signatures of `"A"`: one of the second before, one of the second after, and one without a
block time. -/
def otherSeconds : Db :=
  (Db.empty.writeSignatures ⟨[⟨some 9999, "s1"⟩, ⟨some 10001, "s2"⟩, ⟨none, "s3"⟩]⟩ "A").2

/-- The claimed jobs behave alike: both become ready, and the reports count nothing. -/
theorem negativeHours_iff_otherSeconds :
    (∀ s ∈ ["s1", "s2", "s3"], ("A", s) ∈ otherSeconds.signatures.keys) ∧
      BehaveAlike (createdAndClaimed otherSeconds (-1)) (createdAndClaimed otherSeconds 0)
        ⟨1, "A", .indexing, 10000000000, 10000700000, some 1, 10, -1⟩ ∧
      ((createdAndClaimed otherSeconds (-1)).updateProcessingStatusByJobId 1 .ready 0).1 = 1 := by
  have htwins : Twins (createdAndClaimed otherSeconds (-1)) (createdAndClaimed otherSeconds 0)
      ⟨1, "A", .indexing, 10000000000, 10000700000, some 1, 10, -1⟩ :=
    ⟨by decide +kernel, by decide +kernel, fun _ _ => Iff.rfl⟩
  refine ⟨by decide, (negativeHours_iff htwins (by decide)).mpr ?_, by decide +kernel⟩
  intro r hr _
  revert r
  decide +kernel

/-- A signature of the second 10000. -/
def createdSecond : Db := (Db.empty.writeSignatures ⟨[⟨some 10000, "s1"⟩]⟩ "A").2

/-- **Two jobs that do not behave alike**, created in that second with -1 and with 0 hours: only the
second one counts the signature. -/
theorem not_behaveAlike_second :
    ¬BehaveAlike (createdSecond.createProcessingJob "A" 10 (-1) 10000000000).2
      (createdSecond.createProcessingJob "A" 10 0 10000000000).2
      (newJob createdSecond "A" 10 (-1) 10000000000) := by
  intro h
  exact absurd h.info (by decide +kernel)

end OnChainEventIndexer
