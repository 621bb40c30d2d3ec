import OnChainEventIndexer.Indexer.Saved
import OnChainEventIndexer.Requests.Extraction

/-!
# Every transfer gets its row

`write_token_transfers` says `ON CONFLICT DO NOTHING` on an index over all columns, so a transfer
whose row is already there is dropped without a trace. The positions of the instructions keep the
transfers of one transaction apart, the first signatures those of different ones.

* `transferRows_nodup`: the rows of such transactions are pairwise different.
* **`transfers_inserted_iff`**: positions are kept, and each transfer gets a row if and only if the
  owner can be masked and PostgreSQL takes the statement, its parameters and their values.
-/

namespace OnChainEventIndexer

open Keyed

/-- What is assumed of the transactions handed over: each is numbered, their first signatures are
different, and the owner has no row under any of them. -/
structure NewTransactions (db : Db) (owner : String) (infos : List TransactionInfo) : Prop where
  numbered : ∀ info ∈ infos, info.Numbered
  distinct : (infos.map TransactionResult.firstSignature).Nodup
  absent : ∀ r ∈ db.tokenTransfers, r.trackedOwner = owner →
    ∀ info ∈ infos, r.signature ≠ TransactionResult.firstSignature info

section Network

variable [External]

/-- One row for each transfer, in addition to what was there, and the count says so. -/
def InsertsEach (spanEnabled : Bool) (db : Db) (transactions : List TransactionResult)
    (trackedOwner : String) : Prop :=
  ∃ db', db.runTokenTransfers spanEnabled transactions trackedOwner =
      some (transferCount transactions, db') ∧
    db'.tokenTransfers.rows =
      db.tokenTransfers.rows ++ transactions.flatMap (transferRows trackedOwner)

variable {db : Db} {owner : String} {infos : List TransactionInfo}

/-! ## The rows -/

/-- A row names the transaction and the position. -/
theorem mem_transferRows {tx : TransactionResult} {r : TokenTransferRow}
    (h : r ∈ transferRows owner tx) : r.trackedOwner = owner ∧
      r.signature = TransactionResult.firstSignature tx.result := by
  obtain ⟨c, -, rfl⟩ := List.mem_map.mp h
  exact ⟨rfl, rfl⟩

/-- The rows of one transaction differ in the position. -/
theorem transferRows_nodup_one {info : TransactionInfo} (h : info.Numbered) :
    (transferRows owner (computed info)).Nodup := by
  refine List.Nodup.of_map (fun r => (r.instructionIdx, r.innerIdx)) ?_
  have hkept : PositionsKept ⟨info, []⟩ := positions_kept h
  have hdistinct := hkept.distinct
  unfold transferRows
  rw [List.map_map]
  exact hdistinct

/-- **The rows are pairwise different.** -/
theorem transferRows_nodup (h : NewTransactions db owner infos) :
    ((infos.map computed).flatMap (transferRows owner)).Nodup := by
  refine List.nodup_flatMap.mpr ⟨fun tx htx => ?_, ?_⟩
  · obtain ⟨info, hinfo, rfl⟩ := List.mem_map.mp htx
    exact transferRows_nodup_one (h.numbered info hinfo)
  · refine List.pairwise_map.mpr ((List.pairwise_map.mp h.distinct).imp fun hne => ?_)
    refine List.disjoint_left.mpr fun r hr hr' => ?_
    exact hne ((mem_transferRows hr).2.symm.trans (mem_transferRows hr').2)

/-- None of them is there yet. -/
theorem transferRows_fresh (h : NewTransactions db owner infos) {r : TokenTransferRow}
    (hr : r ∈ (infos.map computed).flatMap (transferRows owner)) :
    r.key ∉ db.tokenTransfers.keys := by
  intro hk
  obtain ⟨tx, htx, hr⟩ := List.mem_flatMap.mp hr
  obtain ⟨info, hinfo, rfl⟩ := List.mem_map.mp htx
  obtain ⟨r', hr', hkey⟩ := Table.mem_keys.mp hk
  obtain rfl : r' = r := hkey
  obtain ⟨howner, hsig⟩ := mem_transferRows hr
  exact h.absent r' hr' howner info hinfo hsig

/-- **The INSERT** adds them all. -/
theorem writeTokenTransfers_new (h : NewTransactions db owner infos) :
    (db.writeTokenTransfers (infos.map computed) owner).2.tokenTransfers.rows =
      db.tokenTransfers.rows ++ (infos.map computed).flatMap (transferRows owner) ∧
    (db.writeTokenTransfers (infos.map computed) owner).1 = transferCount (infos.map computed) := by
  have hkeys : (((infos.map computed).flatMap (transferRows owner)).map TokenTransferRow.key).Nodup :=
    (transferRows_nodup h).map fun _ _ he => he
  have hrows := Table.rows_insertAll_of_fresh hkeys fun r hr => transferRows_fresh h hr
  refine ⟨by rw [Db.writeTokenTransfers_tokenTransfers]; exact hrows, ?_⟩
  rw [← length_transferRows (infos.map computed) owner, Db.writeTokenTransfers_eq]
  simp only [Table.inserted, hrows, List.length_append]
  omega

/-- Which statements are run. -/
theorem runs_iff {spanEnabled : Bool} {txs : List TransactionResult} :
    db.runTokenTransfers spanEnabled txs owner = some (db.writeTokenTransfers txs owner) ↔
      (spanEnabled = true → Maskable owner) ∧ transferCount txs ≤ 3449 ∧
        Storable ((txs.flatMap (transferRows owner)).map (·.bound)) := by
  have hcount : transferCount txs * 19 ≤ 65535 ↔ transferCount txs ≤ 3449 := by omega
  have htakes : Db.takesTransfers spanEnabled txs owner = true ↔ _ := Db.takesTransfers_iff
  rw [length_transferRows, hcount, Db.takesTransfers, Bool.not_eq_true'] at htakes
  rw [← htakes]
  unfold Db.runTokenTransfers
  cases (DbCall.writeTokenTransfers txs owner).refused spanEnabled <;> simp

/-- A statement that is not run returns nothing. -/
theorem runs_of_some {spanEnabled : Bool} {txs : List TransactionResult} {r : Nat × Db}
    (h : db.runTokenTransfers spanEnabled txs owner = some r) :
    db.runTokenTransfers spanEnabled txs owner = some (db.writeTokenTransfers txs owner) := by
  unfold Db.runTokenTransfers at h ⊢
  split at h
  · exact absurd h (by simp)
  · rename_i hrefused
    rw [if_neg hrefused]

/-- **Each transfer gets its row.** The positions are kept by the extraction; the rows are inserted,
one for each transfer, if and only if the owner can be masked where the span is enabled, there are
3449 at most, and PostgreSQL takes their values. -/
theorem transfers_inserted_iff (spanEnabled : Bool) (h : NewTransactions db owner infos) :
    (∀ info ∈ infos, PositionsKept ⟨info, []⟩) ∧
      (InsertsEach spanEnabled db (infos.map computed) owner ↔
        (spanEnabled = true → Maskable owner) ∧ transferCount (infos.map computed) ≤ 3449 ∧
          Storable (((infos.map computed).flatMap (transferRows owner)).map (·.bound))) := by
  refine ⟨fun info hinfo => positions_kept (h.numbered info hinfo), fun ⟨_, hrun, _⟩ =>
    runs_iff.mp (runs_of_some hrun), fun hruns => ?_⟩
  obtain ⟨hrows, hinserted⟩ := writeTokenTransfers_new h
  exact ⟨_, by rw [runs_iff.mpr hruns, ← hinserted], hrows⟩

end Network

/-- Crowded transactions are numbered, and new to an empty table. -/
theorem newTransactions_crowd {signatures : List String} (h : signatures.Nodup) :
    NewTransactions Db.empty "A" (signatures.map crowdedInfo) := by
  refine ⟨fun info hinfo => ?_, ?_, fun r hr => absurd hr (Table.not_mem_empty r)⟩
  · obtain ⟨s, -, rfl⟩ := List.mem_map.mp hinfo
    exact ⟨List.nodup_nil, by simp [crowdedInfo], fun _ h => absurd h List.not_mem_nil⟩
  · rw [List.map_map]
    exact h.map fun _ _ he => he

/-- Two transactions of 35 transfers each. -/
theorem transfers_inserted_iff_two : letI : External := smallNetwork [] []
    InsertsEach true Db.empty (crowdOf ["x", "xx"]) "A" := by
  let : External := smallNetwork [] []
  have hcrowd : ∀ s ∈ ["x", "xx"], s ∈ crowd := by
    simp only [List.forall_mem_cons, List.not_mem_nil, false_implies, implies_true, and_true]
    exact ⟨List.mem_map.mpr ⟨1, by simp, by decide⟩, List.mem_map.mpr ⟨2, by simp, by decide⟩⟩
  have htakes := (takes_crowdOf hcrowd (by decide) (fun _ => rfl) true).2
  obtain ⟨hmask, -, hstorable⟩ := Db.takesTransfers_iff.mp htakes
  have hcount : transferCount (crowdOf ["x", "xx"]) ≤ 3449 := by
    rw [← length_transferRows (crowdOf ["x", "xx"]) "A", length_crowdRows]
    decide
  have hnew : NewTransactions Db.empty "A" (["x", "xx"].map crowdedInfo) :=
    newTransactions_crowd (by decide)
  exact (transfers_inserted_iff true hnew).2.mpr ⟨hmask, hcount, hstorable⟩

/-- **3500 transfers without a row**: 100 transactions of 35 transfers each, all of them new. -/
theorem not_insertsEach_crowd : letI : External := crowdedNetwork
    let infos := crowd.map crowdedInfo
    NewTransactions Db.empty "A" infos ∧ ¬InsertsEach true Db.empty (infos.map computed) "A" := by
  let : External := crowdedNetwork
  intro infos
  refine ⟨newTransactions_crowd crowd_nodup, fun ⟨db', hrun, _⟩ => ?_⟩
  have hle := (runs_iff.mp (runs_of_some hrun)).2.1
  have hmap : infos.map computed = crowdOf crowd := List.map_map
  rw [hmap, ← length_transferRows (crowdOf crowd) "A", length_crowdRows, crowd_length] at hle
  omega

end OnChainEventIndexer
