import OnChainEventIndexer.Db.Statements
import OnChainEventIndexer.Lib.Part
import OnChainEventIndexer.Lib.Unwinding

/-!
# Addresses do not interfere

The calls of `db/signatures.rs` and `db/transactions.rs` for any addresses, and the ready update and
`get_job_info` of any jobs, in any order. A call that is refused because of its arguments fails; any
other one may fail as well, before its statement is executed or after it.

* `Db.view`: the rows of an address, and a job of it.
* **`no_interference`**: the calls for other addresses leave the view as it is; what the calls for
  the address may return and do is determined by the view.
-/

namespace OnChainEventIndexer

open Keyed Lts Unwinding

/-- A call for the address, or for the job. -/
def DbCall.concerns (address : String) (jobId : Nat) (call : DbCall) : Bool :=
  call.address = some address || call.jobId = some jobId

namespace Db

/-- What belongs to an address: its rows in the three tables, and a job. -/
structure View where
  signatures : Set SignatureRow
  transactions : Set TransactionRow
  tokenTransfers : Set TokenTransferRow
  job : Option ProcessingData

/-- The view of a database. -/
def view (address : String) (jobId : Nat) (db : Db) : View :=
  { signatures := db.signatures.part fun r => r.ownerAddress = address
    transactions := db.transactions.part fun r => r.ownerAddress = address
    tokenTransfers := db.tokenTransfers.part fun r => r.trackedOwner = address
    job := db.processingData.find? jobId }

/-- The job is one of the address. -/
def JobOf (address : String) (jobId : Nat) (db : Db) : Prop :=
  ∀ j ∈ db.processingData.find? jobId, j.address = address

/-- **One call.** -/
inductive CallStep [External] (spanEnabled : Bool) (db : Db) : DbCall × DbAnswer → Db → Prop
  | answered {call answer db' chosen} (h : db.exec spanEnabled chosen call = some (answer, db')) :
      CallStep spanEnabled db (call, answer) db'
  /-- The statement is executed, the connection fails before the answer is read. -/
  | lost {call answer db' chosen} (h : db.exec spanEnabled chosen call = some (answer, db')) :
      CallStep spanEnabled db (call, .failed) db'
  | failed {call} : CallStep spanEnabled db (call, .failed) db

variable {owner address : String} {jobId : Nat} {db db' : Db}

theorem view_eq_iff : db.view owner jobId = db'.view owner jobId ↔
    (db.signatures.part (·.ownerAddress = owner) = db'.signatures.part (·.ownerAddress = owner)) ∧
    (db.transactions.part (·.ownerAddress = owner) = db'.transactions.part (·.ownerAddress = owner)) ∧
    (db.tokenTransfers.part (·.trackedOwner = owner) =
      db'.tokenTransfers.part (·.trackedOwner = owner)) ∧
    db.processingData.find? jobId = db'.processingData.find? jobId := by
  unfold view
  rw [View.mk.injEq]

/-! ## The inserts -/

theorem writeSignatures_other (h : address ≠ owner) (signatures : RpcResponse) :
    (db.writeSignatures signatures address).2.view owner jobId = db.view owner jobId := by
  rw [writeSignatures_eq]
  refine view_eq_iff.mpr ⟨Table.part_insertAll_of_not fun r hr => ?_, rfl, rfl, rfl⟩
  obtain ⟨s, -, rfl⟩ := List.mem_map.mp hr
  exact h

theorem writeTransactionInfo_other (h : address ≠ owner) (txs : List TransactionResult) :
    (db.writeTransactionInfo txs address).2.view owner jobId = db.view owner jobId := by
  rw [writeTransactionInfo_eq]
  refine view_eq_iff.mpr ⟨rfl, Table.part_insertAll_of_not fun r hr => ?_, rfl, rfl⟩
  obtain ⟨tx, -, rfl⟩ := List.mem_map.mp hr
  exact h

theorem trackedOwner_of_mem [External] {txs : List TransactionResult} {r : TokenTransferRow}
    (h : r ∈ txs.flatMap (transferRows address)) : r.trackedOwner = address := by
  obtain ⟨tx, -, hr⟩ := List.mem_flatMap.mp h
  obtain ⟨c, -, rfl⟩ := List.mem_map.mp hr
  rfl

theorem writeTokenTransfers_other [External] (h : address ≠ owner) (txs : List TransactionResult) :
    (db.writeTokenTransfers txs address).2.view owner jobId = db.view owner jobId := by
  rw [writeTokenTransfers_eq]
  refine view_eq_iff.mpr ⟨rfl, rfl, Table.part_insertAll_of_not fun r hr => ?_, rfl⟩
  exact fun he => h ((trackedOwner_of_mem hr).symm.trans he)

/-- The conflict target starts with the owner. -/
theorem writeSignatures_congr (h : db.view owner jobId = db'.view owner jobId)
    (signatures : RpcResponse) :
    (db.writeSignatures signatures owner).1 = (db'.writeSignatures signatures owner).1 ∧
      (db.writeSignatures signatures owner).2.view owner jobId =
        (db'.writeSignatures signatures owner).2.view owner jobId := by
  obtain ⟨hsigs, htxs, htransfers, hjob⟩ := view_eq_iff.mp h
  have hkey : ∀ r r' : SignatureRow, r.key = r'.key →
      (r.ownerAddress = owner ↔ r'.ownerAddress = owner) :=
    fun r r' hk => by rw [(Prod.mk.inj hk).1]
  have hrows : ∀ r ∈ signatures.result.map (signatureRow owner), r.ownerAddress = owner := by
    intro r hr
    obtain ⟨s, -, rfl⟩ := List.mem_map.mp hr
    rfl
  rw [writeSignatures_eq, writeSignatures_eq]
  exact ⟨Table.inserted_congr hkey hrows hsigs, view_eq_iff.mpr
    ⟨Table.part_insertAll_congr hkey hrows hsigs, htxs, htransfers, hjob⟩⟩

theorem writeTransactionInfo_congr (h : db.view owner jobId = db'.view owner jobId)
    (txs : List TransactionResult) :
    (db.writeTransactionInfo txs owner).1 = (db'.writeTransactionInfo txs owner).1 ∧
      (db.writeTransactionInfo txs owner).2.view owner jobId =
        (db'.writeTransactionInfo txs owner).2.view owner jobId := by
  obtain ⟨hsigs, htxs, htransfers, hjob⟩ := view_eq_iff.mp h
  have hkey : ∀ r r' : TransactionRow, r.key = r'.key →
      (r.ownerAddress = owner ↔ r'.ownerAddress = owner) :=
    fun r r' hk => by rw [(Prod.mk.inj hk).1]
  have hrows : ∀ r ∈ txs.map (transactionRow owner), r.ownerAddress = owner := by
    intro r hr
    obtain ⟨tx, -, rfl⟩ := List.mem_map.mp hr
    rfl
  rw [writeTransactionInfo_eq, writeTransactionInfo_eq]
  exact ⟨Table.inserted_congr hkey hrows htxs, view_eq_iff.mpr
    ⟨hsigs, Table.part_insertAll_congr hkey hrows htxs, htransfers, hjob⟩⟩

/-- The unique index covers the owner. -/
theorem writeTokenTransfers_congr [External] (h : db.view owner jobId = db'.view owner jobId)
    (txs : List TransactionResult) :
    (db.writeTokenTransfers txs owner).1 = (db'.writeTokenTransfers txs owner).1 ∧
      (db.writeTokenTransfers txs owner).2.view owner jobId =
        (db'.writeTokenTransfers txs owner).2.view owner jobId := by
  obtain ⟨hsigs, htxs, htransfers, hjob⟩ := view_eq_iff.mp h
  have hkey : ∀ r r' : TokenTransferRow, r.key = r'.key →
      (r.trackedOwner = owner ↔ r'.trackedOwner = owner) := fun r r' hk => by
    obtain rfl : r = r' := hk
    exact Iff.rfl
  have hrows : ∀ r ∈ txs.flatMap (transferRows owner), r.trackedOwner = owner := fun r hr =>
    trackedOwner_of_mem hr
  rw [writeTokenTransfers_eq, writeTokenTransfers_eq]
  exact ⟨Table.inserted_congr hkey hrows htransfers, view_eq_iff.mpr
    ⟨hsigs, htxs, Table.part_insertAll_congr hkey hrows htransfers, hjob⟩⟩

/-! ## The updates of `signatures` -/

theorem getUnprocessedSignatures_other (h : address ≠ owner) (now : Int) (chosen : List String) :
    (db.getUnprocessedSignatures address now chosen).2.view owner jobId = db.view owner jobId := by
  refine view_eq_iff.mpr ⟨Table.part_update_of_not (SignatureRow.claim_key now) (fun r => Iff.rfl)
    fun r hr he => ?_, rfl, rfl, rfl⟩
  exact h ((ownedIn_eq_true.mp hr).1.symm.trans he)

theorem getUnprocessedSignatures_congr (h : db.view owner jobId = db'.view owner jobId) (now : Int)
    (chosen : List String) :
    (db.getUnprocessedSignatures owner now chosen).2.view owner jobId =
      (db'.getUnprocessedSignatures owner now chosen).2.view owner jobId := by
  obtain ⟨hsigs, htxs, htransfers, hjob⟩ := view_eq_iff.mp h
  exact view_eq_iff.mpr ⟨Table.part_update_congr (SignatureRow.claim_key now)
    (fun r => Iff.rfl) hsigs, htxs, htransfers, hjob⟩

/-- The locking select reads the address's rows only. -/
theorem isClaim_congr (h : db.view owner jobId = db'.view owner jobId) {limit : Nat} {now : Int}
    {chosen : List String} (hclaim : db.IsClaim owner limit now chosen) :
    db'.IsClaim owner limit now chosen := by
  have hsigs := (view_eq_iff.mp h).1
  have hperm : (db.claimableSignatures owner now).Perm (db'.claimableSignatures owner now) :=
    (Table.perm_filter fun r hr =>
      Table.mem_congr hsigs (SignatureRow.claimable_eq_true.mp hr).1).map _
  obtain ⟨hnd, hmem, hlen⟩ := hclaim
  exact ⟨hnd, fun s hs => hperm.mem_iff.mp (hmem s hs), by rw [hlen, hperm.length_eq]⟩

theorem markSignaturesProcessed_other (h : address ≠ owner) (signatures : List String) :
    (db.markSignaturesProcessed address signatures).2.view owner jobId = db.view owner jobId := by
  unfold markSignaturesProcessed
  split
  · rfl
  · refine view_eq_iff.mpr ⟨Table.part_update_of_not SignatureRow.mark_key (fun r => Iff.rfl)
      fun r hr he => ?_, rfl, rfl, rfl⟩
    rw [Bool.and_eq_true] at hr
    exact h ((ownedIn_eq_true.mp hr.1).1.symm.trans he)

theorem markSignaturesProcessed_congr (h : db.view owner jobId = db'.view owner jobId)
    (signatures : List String) :
    (db.markSignaturesProcessed owner signatures).1 =
        (db'.markSignaturesProcessed owner signatures).1 ∧
      (db.markSignaturesProcessed owner signatures).2.view owner jobId =
        (db'.markSignaturesProcessed owner signatures).2.view owner jobId := by
  obtain ⟨hsigs, htxs, htransfers, hjob⟩ := view_eq_iff.mp h
  unfold markSignaturesProcessed
  split
  · exact ⟨rfl, h⟩
  · refine ⟨Table.affected_congr (fun r hr => ?_) hsigs, view_eq_iff.mpr
      ⟨Table.part_update_congr SignatureRow.mark_key (fun r => Iff.rfl) hsigs, htxs, htransfers,
        hjob⟩⟩
    rw [Bool.and_eq_true] at hr
    exact (ownedIn_eq_true.mp hr.1).1

/-! ## The job -/

theorem updateReady_other {i : Nat} (h : i ≠ jobId) (now : Int) :
    (db.updateProcessingStatusByJobId i .ready now).2.view owner jobId = db.view owner jobId := by
  refine view_eq_iff.mpr ⟨rfl, rfl, rfl, Option.ext fun j => ?_⟩
  rw [Table.find?_eq_some, Table.find?_eq_some]
  refine and_congr_left fun hj => mem_updateStatus_other fun he => ?_
  exact h (he.symm.trans hj)

/-- The guard of a job of the address reads the address's rows only. -/
theorem mayUpdateStatus_congr (h : db.view owner jobId = db'.view owner jobId) {j : ProcessingData}
    (hj : j.address = owner) (status : Status) :
    db.mayUpdateStatus jobId status j = db'.mayUpdateStatus jobId status j := by
  have hwindow : db.unprocessedInWindow j = db'.unprocessedInWindow j := by
    refine Table.any_congr (fun r hr => ?_) (view_eq_iff.mp h).1
    rw [Bool.and_eq_true, Bool.and_eq_true, decide_eq_true_eq] at hr
    exact hr.1.1.trans hj
  unfold mayUpdateStatus
  rw [hwindow]

theorem updateReady_congr (hof : db.JobOf owner jobId)
    (h : db.view owner jobId = db'.view owner jobId) (now : Int) :
    (db.updateProcessingStatusByJobId jobId .ready now).1 =
      (db'.updateProcessingStatusByJobId jobId .ready now).1 ∧
    (db.updateProcessingStatusByJobId jobId .ready now).2.view owner jobId =
      (db'.updateProcessingStatusByJobId jobId .ready now).2.view owner jobId := by
  obtain ⟨hsigs, htxs, htransfers, hjob⟩ := view_eq_iff.mp h
  have hmay : ∀ j ∈ db.processingData.find? jobId,
      db.mayUpdateStatus jobId .ready j = db'.mayUpdateStatus jobId .ready j := fun j hj =>
    mayUpdateStatus_congr h (hof j hj) .ready
  have hkey : ∀ (db : Db) j, db.mayUpdateStatus jobId .ready j = true → j.id = jobId :=
    fun db j hj => (mayUpdateStatus_eq_true.mp hj).1
  unfold updateProcessingStatusByJobId
  constructor
  · simp only
    rw [Table.affected_of_key (hkey db), Table.affected_of_key (hkey db'), ← hjob]
    cases hfind : db.processingData.find? jobId with
    | none => rfl
    | some j => simp only [Option.elim_some, hmay j hfind]
  · refine view_eq_iff.mpr ⟨hsigs, htxs, htransfers, ?_⟩
    simp only
    rw [Table.find?_update, Table.find?_update, ← hjob]
    refine Option.map_congr fun j hj => ?_
    rw [hmay j hj]

/-- The report on a job of the address is drawn from the address's rows only. -/
theorem getJobInfo_congr (hof : db.JobOf owner jobId)
    (h : db.view owner jobId = db'.view owner jobId) :
    db.getJobInfo jobId = db'.getJobInfo jobId := by
  obtain ⟨hsigs, -, -, hjob⟩ := view_eq_iff.mp h
  unfold getJobInfo
  rw [← hjob]
  refine Option.map_congr fun j hj => ?_
  have hperm : (db.joined j).Perm (db'.joined j) := by
    refine Table.perm_filter fun r hr => Table.mem_congr hsigs ?_
    rw [Bool.and_eq_true, decide_eq_true_eq] at hr
    exact hr.1.trans (hof j hj)
  simp only [hperm.length_eq, hperm.countP_eq]

/-! ## The calls -/

variable {spanEnabled : Bool} {chosen : List String} {call : DbCall} {answer : DbAnswer}

theorem concerns_eq_false : call.concerns owner jobId = false ↔
    call.address ≠ some owner ∧ call.jobId ≠ some jobId := by
  unfold DbCall.concerns
  rw [Bool.or_eq_false_iff, decide_eq_false_iff_not, decide_eq_false_iff_not]

theorem concerns_eq_true : call.concerns owner jobId = true ↔
    call.address = some owner ∨ call.jobId = some jobId := by
  unfold DbCall.concerns
  rw [Bool.or_eq_true, decide_eq_true_eq, decide_eq_true_eq]

theorem address_of_concerns (h : call.concerns owner jobId = true) (ha : call.address = some address)
    (hj : call.jobId = none) : address = owner := by
  rw [concerns_eq_true, ha, hj] at h
  exact Option.some.inj (h.resolve_right (by simp))

theorem jobId_of_concerns {i : Nat} (h : call.concerns owner jobId = true) (ha : call.address = none)
    (hj : call.jobId = some i) : i = jobId := by
  rw [concerns_eq_true, ha, hj] at h
  exact Option.some.inj (h.resolve_left (by simp))

theorem counted_other {p : Nat × Db} (h : p.2.view owner jobId = db.view owner jobId)
    (he : some (counted p) = some (answer, db')) : db'.view owner jobId = db.view owner jobId := by
  obtain ⟨-, rfl⟩ := Prod.mk.inj (Option.some.inj he)
  exact h

theorem counted_congr {p p' : Nat × Db}
    (h : p.1 = p'.1 ∧ p.2.view owner jobId = p'.2.view owner jobId) {t : Db}
    (he : some (counted p) = some (answer, t)) :
    ∃ t', some (counted p') = some (answer, t') ∧ t.view owner jobId = t'.view owner jobId := by
  obtain ⟨rfl, rfl⟩ := Prod.mk.inj (Option.some.inj he)
  exact ⟨p'.2, by rw [h.1]; rfl, h.2⟩

section Network

variable [External]

/-- **A call for others** leaves the view as it is. -/
theorem exec_other (h : call.concerns owner jobId = false)
    (he : db.exec spanEnabled chosen call = some (answer, db')) :
    db'.view owner jobId = db.view owner jobId := by
  obtain ⟨haddress, hid⟩ := concerns_eq_false.mp h
  have hne : ∀ {a : String}, some a ≠ some owner → a ≠ owner := fun hs heq => hs (congrArg some heq)
  unfold exec at he
  split at he
  · exact absurd he (by simp)
  cases call with
  | writeSignatures signatures address =>
    exact counted_other (writeSignatures_other (hne haddress) signatures) he
  | getUnprocessedSignatures address limit now =>
    simp only at he
    split at he
    · obtain ⟨-, rfl⟩ := Prod.mk.inj (Option.some.inj he)
      exact getUnprocessedSignatures_other (hne haddress) now chosen
    · exact absurd he (by simp)
  | markSignaturesProcessed address signatures =>
    exact counted_other (markSignaturesProcessed_other (hne haddress) signatures) he
  | writeTransactionInfo transactionInfo trackedOwner =>
    exact counted_other (writeTransactionInfo_other (hne haddress) transactionInfo) he
  | writeTokenTransfers transactions trackedOwner =>
    exact counted_other (writeTokenTransfers_other (hne haddress) transactions) he
  | updateReady i now =>
    exact counted_other (updateReady_other (fun heq => hid (congrArg some heq)) now) he
  | getJobInfo i =>
    obtain ⟨-, rfl⟩ := Prod.mk.inj (Option.some.inj he)
    rfl

/-- **A call for the address** is answered alike in two databases with one view. -/
theorem exec_congr (hof : db.JobOf owner jobId) (h : db.view owner jobId = db'.view owner jobId)
    (hc : call.concerns owner jobId = true) {t : Db}
    (he : db.exec spanEnabled chosen call = some (answer, t)) :
    ∃ t', db'.exec spanEnabled chosen call = some (answer, t') ∧
      t.view owner jobId = t'.view owner jobId := by
  unfold exec at he ⊢
  split at he
  · exact absurd he (by simp)
  rename_i hrefused
  rw [if_neg hrefused]
  cases call with
  | writeSignatures signatures address =>
    obtain rfl := address_of_concerns hc rfl rfl
    exact counted_congr (writeSignatures_congr h signatures) he
  | getUnprocessedSignatures address limit now =>
    obtain rfl := address_of_concerns hc rfl rfl
    simp only at he ⊢
    split at he
    · rename_i hclaim
      obtain ⟨rfl, rfl⟩ := Prod.mk.inj (Option.some.inj he)
      rw [if_pos (isClaim_congr h hclaim)]
      exact ⟨_, rfl, getUnprocessedSignatures_congr h now chosen⟩
    · exact absurd he (by simp)
  | markSignaturesProcessed address signatures =>
    obtain rfl := address_of_concerns hc rfl rfl
    exact counted_congr (markSignaturesProcessed_congr h signatures) he
  | writeTransactionInfo transactionInfo trackedOwner =>
    obtain rfl := address_of_concerns hc rfl rfl
    exact counted_congr (writeTransactionInfo_congr h transactionInfo) he
  | writeTokenTransfers transactions trackedOwner =>
    obtain rfl := address_of_concerns hc rfl rfl
    exact counted_congr (writeTokenTransfers_congr h transactions) he
  | updateReady i now =>
    obtain rfl := jobId_of_concerns hc rfl rfl
    exact counted_congr (updateReady_congr hof h now) he
  | getJobInfo i =>
    obtain rfl := jobId_of_concerns hc rfl rfl
    obtain ⟨rfl, rfl⟩ := Prod.mk.inj (Option.some.inj he)
    exact ⟨db', by rw [getJobInfo_congr hof h], h⟩

/-- A job stays one of its address. -/
theorem exec_jobOf (hof : db.JobOf owner jobId)
    (he : db.exec spanEnabled chosen call = some (answer, db')) : db'.JobOf owner jobId := by
  have hkeep : ∀ {p : Nat × Db}, p.2.processingData = db.processingData →
      some (counted p) = some (answer, db') → db'.JobOf owner jobId := by
    intro p hp he
    obtain ⟨-, rfl⟩ := Prod.mk.inj (Option.some.inj he)
    unfold JobOf
    rw [hp]
    exact hof
  unfold exec at he
  split at he
  · exact absurd he (by simp)
  cases call with
  | writeSignatures signatures address =>
    exact hkeep (writeSignatures_processingData db signatures address) he
  | getUnprocessedSignatures address limit now =>
    simp only at he
    split at he
    · obtain ⟨-, rfl⟩ := Prod.mk.inj (Option.some.inj he)
      exact hof
    · exact absurd he (by simp)
  | markSignaturesProcessed address signatures =>
    exact hkeep (markSignaturesProcessed_processingData db address signatures) he
  | writeTransactionInfo transactionInfo trackedOwner =>
    exact hkeep (writeTransactionInfo_processingData db transactionInfo trackedOwner) he
  | writeTokenTransfers transactions trackedOwner =>
    exact hkeep (writeTokenTransfers_processingData db transactions trackedOwner) he
  | updateReady i now =>
    obtain ⟨-, rfl⟩ := Prod.mk.inj (Option.some.inj he)
    intro j' hj'
    obtain ⟨hmem, hid⟩ := Table.find?_eq_some.mp hj'
    obtain ⟨j, hj, rfl⟩ := mem_updateStatus.mp hmem
    have hjid : j.id = jobId := by
      split at hid
      · exact hid
      · exact hid
    have haddress : j.address = owner := hof j (Table.find?_eq_some.mpr ⟨hj, hjid⟩)
    split
    · exact haddress
    · exact haddress
  | getJobInfo i =>
    obtain ⟨-, rfl⟩ := Prod.mk.inj (Option.some.inj he)
    exact hof

/-- The conditions on one call. -/
theorem separated (spanEnabled : Bool) (owner : String) (jobId : Nat) :
    Separated (CallStep spanEnabled) (JobOf owner jobId) (DbCall.concerns owner jobId)
      (view owner jobId) where
  inv := by
    intro db x db' hof h
    cases h with
    | answered h => exact exec_jobOf hof h
    | lost h => exact exec_jobOf hof h
    | failed => exact hof
  total := fun db call => ⟨.failed, db, .failed⟩
  others := by
    intro db call answer db' hc h
    cases h with
    | answered h => exact exec_other hc h
    | lost h => exact exec_other hc h
    | failed => rfl
  determined := by
    rintro db db' call hof - hc hview ⟨answer, v⟩ ⟨t, h, rfl⟩
    cases h with
    | answered h =>
      obtain ⟨t', h', hv⟩ := exec_congr hof hview hc h
      exact ⟨t', .answered h', hv.symm⟩
    | lost h =>
      obtain ⟨t', h', hv⟩ := exec_congr hof hview hc h
      exact ⟨t', .lost h', hv.symm⟩
    | failed => exact ⟨db', .failed, hview.symm⟩

/-- **Addresses do not interfere.** In every run the calls for others leave the view as it is; a
call for the address has the same outcomes in any two databases with one view; and sequences of
calls that differ in those for others only look the same. -/
theorem no_interference (hof : db.JobOf owner jobId)
    (hview : db.view owner jobId = db'.view owner jobId) (spanEnabled : Bool) :
    (∀ tr t, Run (CallStep spanEnabled) db tr t → ∀ m ∈ moves tr t,
      m.1.2.1.concerns owner jobId = false → m.2.view owner jobId = m.1.1.view owner jobId) ∧
    (∀ call, call.concerns owner jobId = true →
      outcomes (CallStep spanEnabled) (view owner jobId) db call =
        outcomes (CallStep spanEnabled) (view owner jobId) db' call) ∧
    ∀ calls calls' : List DbCall,
      calls.filter (·.concerns owner jobId) = calls'.filter (·.concerns owner jobId) →
      seen (CallStep spanEnabled) (·.concerns owner jobId) (view owner jobId) db calls =
        seen (CallStep spanEnabled) (·.concerns owner jobId) (view owner jobId) db' calls' := by
  have hsep := separated spanEnabled owner jobId
  have hof' : db'.JobOf owner jobId := by
    unfold JobOf
    rw [← (view_eq_iff.mp hview).2.2.2]
    exact hof
  refine ⟨fun tr t hr => hsep.others_moves hr, fun call hc => ?_, fun calls calls' hcalls =>
    hsep.seen_congr hof hof' hview hcalls⟩
  exact Set.Subset.antisymm (hsep.determined db db' call hof hof' hc hview)
    (hsep.determined db' db call hof' hof hc hview.symm)

end Network

/-! ## Two owners of one signature -/

/-- A signature of A, which has a job. -/
def trackedByOne : Db :=
  ((Db.empty.createProcessingJob "A" 10 1 0).2.writeSignatures ⟨[⟨some 9000, "s1"⟩]⟩ "A").2

/-- The same signature, tracked for B as well. -/
def trackedByTwo : Db := (trackedByOne.writeSignatures ⟨[⟨some 9000, "s1"⟩]⟩ "B").2

/-- B's calls in between. -/
theorem no_interference_shared :
    letI : External := smallNetwork [] []
    seen (CallStep true) (·.concerns "A" 1) (view "A" 1) trackedByTwo
        [.getUnprocessedSignatures "B" 100 0, .getUnprocessedSignatures "A" 100 0,
          .markSignaturesProcessed "B" ["s1"], .updateReady 1 0] =
      seen (CallStep true) (·.concerns "A" 1) (view "A" 1) trackedByOne
        [.getUnprocessedSignatures "A" 100 0, .updateReady 1 0] := by
  let : External := smallNetwork [] []
  have hof : trackedByTwo.JobOf "A" 1 := by
    intro j hj
    obtain rfl := Option.some.inj hj
    rfl
  refine (no_interference hof (writeSignatures_other (by decide) _) true).2.2 _ _ ?_
  simp [DbCall.concerns, DbCall.address, DbCall.jobId]

end Db

end OnChainEventIndexer
