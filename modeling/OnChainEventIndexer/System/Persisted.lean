import OnChainEventIndexer.Indexer.Outcome
import OnChainEventIndexer.System.Ownership

/-!
# Processed implies persisted

`processed_persisted`: whatever the workers do, wherever they stop and whichever statements fail, a
signatures row that is marked processed has its transactions row and all its transfers. Of the RPC
it is assumed (`Honest`) that a successful `getTransaction(s)` always returns the transaction
`txOf s`, whose first signature is `s`.

The invariant says of a worker between two statements of a batch what the earlier ones have done
(`Stage`). Rows stay, so it does not matter what the others do meanwhile, be it on the same batch.
-/

namespace OnChainEventIndexer

open Keyed Lts

section HonestRpc

variable [External] (txOf : String → TransactionInfo)

/-- What is stored for `s`: its transaction with the transfers computed. -/
def derived (s : String) : TransactionResult :=
  (⟨txOf s, []⟩ : TransactionResult).calculateTokenTransfer

/-- The answers to the requests of a batch. -/
def HonestBatch (signatures : List String) (reply : Nat → Replies) : Prop :=
  ∀ p ∈ signatures.zipIdx, ∀ k txInfo status,
    tryFetchTransactionOnce p.1 (reply p.2 k) = .success txInfo status → txInfo = txOf p.1

/-- What the calls before `pc` have done for the batch in hand. -/
def Stage (db : Db) (address : String) : Pc → Prop
  | .writeTransactionInfo batch =>
    ∀ s ∈ batch.processedSignatures, derived txOf s ∈ batch.transactions
  | .writeTokenTransfers batch =>
    ∀ s ∈ batch.processedSignatures, derived txOf s ∈ batch.transactions ∧
      (address, s) ∈ db.transactions.keys
  | .markProcessed batch =>
    ∀ s ∈ batch.processedSignatures, db.Saved address s (derived txOf s)
  | _ => True

/-- Every processed signature is saved. -/
def Db.Persisted (db : Db) : Prop :=
  ∀ r ∈ db.signatures, r.isProcessed = true →
    db.Saved r.ownerAddress r.signature (derived txOf r.signature)

variable {txOf}

theorem Stage.mono {db db' : Db} {address : String} {pc : Pc} (h : Stage txOf db address pc)
    (hle : db.Le db') : Stage txOf db' address pc := by
  cases pc with
  | writeTokenTransfers batch =>
    intro s hs
    obtain ⟨x, hx, hk⟩ := Table.mem_keys.mp (h s hs).2
    exact ⟨(h s hs).1, Table.mem_keys.mpr ⟨x, hle.txs x hx, hk⟩⟩
  | markProcessed batch => exact fun s hs => (h s hs).mono hle
  | _ => exact h

/-- After an error the batch is not in hand any more. -/
theorem stage_afterDbError (db : Db) (address : String) (pc : Pc) :
    Stage txOf db address pc.afterDbError := by
  cases pc <;> trivial

/-- Rows that are added, and signatures that are not marked, do no harm. -/
theorem Db.Persisted.of_le {db db' : Db} (h : db.Persisted txOf) (hle : db.Le db')
    (hback : ∀ r' ∈ db'.signatures, r'.isProcessed = true →
      ∃ r ∈ db.signatures, r.key = r'.key ∧ r.isProcessed = true) : db'.Persisted txOf := by
  intro r' hr' hp
  obtain ⟨r, hr, hk, hpr⟩ := hback r' hr' hp
  obtain ⟨ha, hs⟩ := Prod.mk.inj hk
  rw [← ha, ← hs]
  exact (h r hr hpr).mono hle

/-- The batch of honest answers holds the transactions of its processed signatures. -/
theorem stage_fetched {api : HeliusApi} {signatures : List String} {reply : Nat → Replies}
    {batch : TransactionBatch} (hget : getTransaction api reply signatures = some batch)
    (hh : HonestBatch txOf signatures reply) (db : Db) (address : String) :
    Stage txOf db address (.writeTransactionInfo batch) := by
  intro s hs
  obtain ⟨i, tx, hi, hf⟩ := (getTransaction_mem hget).1 hs
  have htx := ((getTransaction_split hget hi).1 tx hf).2
  rcases fetchTransactionBySignature_spec hf with ⟨k, txInfo, status, hk, he⟩ | ⟨e, -, he⟩
  · obtain ⟨-, rfl⟩ := TransactionFetchOutcome.success.inj he
    obtain rfl := hh (s, i) hi k txInfo status hk
    exact htx
  · exact absurd he (by simp)

/-- **The step lemma** for one call of a run. -/
theorem persisted_next {api : HeliusApi} {job : ClaimedJob} {now : Int} {db db' : Db} {pc pc' : Pc}
    {a : Answer} (hfirst : ∀ s, (txOf s).transaction.signatures.head? = some s)
    (hdb : db.Persisted txOf) (hst : Stage txOf db job.address pc)
    (hh : ∀ signatures reply, pc = .getTransaction signatures → a = .transactions reply →
      HonestBatch txOf signatures reply)
    (hn : Next api job now db pc a db' pc') :
    db'.Persisted txOf ∧ Stage txOf db' job.address pc' := by
  have hle := hn.le
  have claim_back : ∀ chosen,
      ∀ r' ∈ (db.getUnprocessedSignatures job.address now chosen).2.signatures,
      r'.isProcessed = true → ∃ r ∈ db.signatures, r.key = r'.key ∧ r.isProcessed = true := by
    intro chosen r' hr' hp
    obtain ⟨r, hr, rfl⟩ := Db.mem_getUnprocessedSignatures.mp hr'
    refine ⟨r, hr, ?_⟩
    split at hp
    · exact ⟨by rw [if_pos (by assumption)]; rfl, hp⟩
    · exact ⟨by rw [if_neg (by assumption)], hp⟩
  cases hn with
  | pageFetched h => exact ⟨hdb, trivial⟩
  | pageFailed h => exact ⟨hdb, trivial⟩
  | signaturesWritten =>
    refine ⟨hdb.of_le hle fun r' hr' hp => ?_, ?_⟩
    · rcases Db.write_cases hr' with hr' | ⟨s, -, rfl⟩
      · exact ⟨r', hr', rfl, hp⟩
      · exact absurd hp (by simp [Db.signatureRow])
    · unfold Pc.afterPage
      split <;> trivial
  | nothingClaimed h => exact ⟨hdb.of_le hle (claim_back []), trivial⟩
  | @batchClaimed chosen h hne => exact ⟨hdb.of_le hle (claim_back chosen), trivial⟩
  | batchFetched h => exact ⟨hdb, stage_fetched h (hh _ _ rfl rfl) db job.address⟩
  | batchPanicked h => exact ⟨hdb, trivial⟩
  | @infoWritten batch chosen =>
    refine ⟨hdb.of_le hle fun r' hr' hp => ⟨r', by simpa using hr', rfl, hp⟩, fun s hs => ?_⟩
    refine ⟨hst s hs, ?_⟩
    have hkey : TransactionResult.firstSignature (derived txOf s).result = s := by
      unfold derived TransactionResult.firstSignature
      rw [TransactionResult.calculateTokenTransfer_result, hfirst s, Option.getD_some]
    rw [Db.writeTransactionInfo_transactions]
    refine Table.mem_keys_insertAll.mpr (Or.inr ⟨_, List.mem_map_of_mem (hst s hs), ?_⟩)
    exact Prod.ext rfl hkey
  | @transfersWritten batch chosen =>
    refine ⟨hdb.of_le hle fun r' hr' hp => ⟨r', by simpa using hr', rfl, hp⟩, fun s hs => ?_⟩
    refine ⟨by simpa using (hst s hs).2, fun r hr => ?_⟩
    rw [Db.writeTokenTransfers_tokenTransfers]
    obtain ⟨x, hx, rfl⟩ := Table.exists_mem_insertAll (t := db.tokenTransfers)
      (List.mem_flatMap.mpr ⟨_, (hst s hs).1, hr⟩)
    exact hx
  | @batchMarked batch chosen =>
    constructor
    · intro r' hr' hp
      rcases Db.mark_cases hr' with hr' | ⟨r, -, ha, hs, rfl⟩
      · exact (hdb r' hr' hp).mono hle
      · have hmark : r.mark.ownerAddress = job.address := ha
        rw [hmark]
        exact (hst r.signature hs).mono hle
    · unfold Pc.afterBatch
      split <;> trivial
  | readyUpdated h => exact ⟨hdb.of_le hle fun r' hr' hp => ⟨r', hr', rfl, hp⟩, trivial⟩
  | readyBlocked h => exact ⟨hdb.of_le hle fun r' hr' hp => ⟨r', hr', rfl, hp⟩, trivial⟩
  | errorUpdated => exact ⟨hdb.of_le hle fun r' hr' hp => ⟨r', hr', rfl, hp⟩, trivial⟩
  | @dbFailed pc hi => exact ⟨hdb, stage_afterDbError db job.address pc⟩

namespace Sys

/-- A successful `getTransaction(s)` returns `txOf s`. -/
def Honest (txOf : String → TransactionInfo) (s : Sys) : Act → Prop
  | .call w (.transactions reply) =>
    ∀ job signatures, s.workers w = .running job (.getTransaction signatures) →
      HonestBatch txOf signatures reply
  | _ => True

/-- The invariant: processed rows are saved, and each worker has done for its batch what its stage
says. -/
structure Persisted (txOf : String → TransactionInfo) (s : Sys) : Prop where
  rows : s.db.Persisted txOf
  stages : ∀ w job pc, s.workers w = .running job pc → Stage txOf s.db job.address pc

variable {api : HeliusApi} {s s' : Sys} {a : Act}

theorem persisted_init (now : Int) : Persisted txOf (Sys.init now) :=
  ⟨fun r hr => absurd hr (Table.not_mem_empty r), fun _ _ _ h => absurd h (by simp [Sys.init])⟩

theorem persisted_step (hfirst : ∀ s, (txOf s).transaction.signatures.head? = some s)
    (h : Persisted txOf s) (hh : Honest txOf s a) (hn : Next api s a s') : Persisted txOf s' := by
  have hle := hn.le
  cases hn with
  | ticked => exact ⟨h.rows, h.stages⟩
  | created ha =>
    exact ⟨h.rows.of_le hle fun r hr hp => ⟨r, hr, rfl, hp⟩, fun w job pc hw =>
      (h.stages w job pc hw).mono hle⟩
  | foundNothing hw => exact h
  | claimed ha hw hj hp hset =>
    refine ⟨h.rows.of_le hle fun r hr hp => ⟨r, hr, rfl, hp⟩, fun v job pc hv => ?_⟩
    rcases setWorker_running.mp hv with ⟨-, hr⟩ | ⟨-, hv⟩
    · obtain ⟨rfl, rfl, -⟩ := Worker.after_eq_running hr
      unfold Pc.start
      split <;> trivial
    · exact (h.stages v job pc hv).mono hle
  | lostClaim hw hj hp hset =>
    exact ⟨h.rows.of_le hle fun r hr hp => ⟨r, hr, rfl, hp⟩, fun v job pc hv =>
      (h.stages v job pc hv).mono hle⟩
  | @called w answer job pc db' pc' hw hn =>
    have hnext := persisted_next hfirst h.rows (h.stages w job pc hw)
      (fun signatures reply hpc ha => by
      subst hpc ha
      exact hh job signatures hw) hn
    refine ⟨hnext.1, fun v job' p hv => ?_⟩
    rcases setWorker_running.mp hv with ⟨-, hr⟩ | ⟨-, hv⟩
    · obtain ⟨rfl, rfl, -⟩ := Worker.after_eq_running hr
      exact hnext.2
    · exact (h.stages v job' p hv).mono hle
  | @lostCall w chosen job pc db' pc' hw hi hn =>
    have hnext := persisted_next hfirst h.rows (h.stages w job pc hw)
      (fun _ _ _ ha => absurd ha (by simp)) hn
    refine ⟨hnext.1, fun v job' p hv => ?_⟩
    rcases setWorker_running.mp hv with ⟨-, hr⟩ | ⟨-, hv⟩
    · obtain ⟨rfl, rfl, -⟩ := Worker.after_eq_running hr
      exact stage_afterDbError db' job'.address pc
    · exact (h.stages v job' p hv).mono hle
  | crashed hw =>
    refine ⟨h.rows, fun v job pc hv => ?_⟩
    rcases setWorker_running.mp hv with ⟨-, hr⟩ | ⟨-, hv⟩
    · exact absurd hr (by simp)
    · exact h.stages v job pc hv
  | restarted hw =>
    refine ⟨h.rows, fun v job pc hv => ?_⟩
    rcases setWorker_running.mp hv with ⟨-, hr⟩ | ⟨-, hv⟩
    · exact absurd hr (by simp)
    · exact h.stages v job pc hv

/-- **Processed implies persisted**, in every state of every run: a processed row `(owner, s)` has
its transactions row, and every transfer derived from the transaction fetched for `s` has its row
with `tracked_owner = owner`. -/
theorem processed_persisted (hfirst : ∀ s, (txOf s).transaction.signatures.head? = some s)
    {now : Int} {tr : List (Sys × Act)}
    (hrun : Run (Guarded (Step api) (Honest txOf)) (Sys.init now) tr s) :
    ∀ r ∈ s.db.signatures, r.isProcessed = true →
      (r.ownerAddress, r.signature) ∈ s.db.transactions.keys ∧
      ∀ x ∈ transferRows r.ownerAddress (derived txOf r.signature), x ∈ s.db.tokenTransfers := by
  have hinv := hrun.invariant (I := Persisted txOf)
    (fun _ _ _ h hstep => persisted_step hfirst h hstep.2 (step_next hstep.1)) (persisted_init now)
  exact fun r hr hp => hinv.rows r hr hp

end Sys

end HonestRpc

namespace Sys

/-- Worker 1 stops with the transaction of `"s1"` written and its transfers not; five minutes later
worker 2 claims the signature again and goes through with it. -/
def reclaimed : List Act :=
  let page := Answer.signatures (servePage [⟨some 9000, "s1"⟩]) 10100
  let fetched := Answer.transactions fun _ => serveTransaction "s1"
  [.create "A" 10 1, .create "A" 10 1, .claim 1, .claimRaced 2 2,
    .call 1 page, .call 1 (.done []), .call 1 (.done ["s1"]), .call 1 fetched, .call 1 (.done []),
    .crash 1, .tick 300000001,
    .call 2 page, .call 2 (.done []), .call 2 (.done ["s1"]), .call 2 fetched, .call 2 (.done []),
    .call 2 (.done []), .call 2 (.done [])]

/-- The requests are for `"s1"`. -/
def asksForS1 (x : Sys × Act) : Bool :=
  match x.2 with
  | .call w (.transactions _) =>
    match x.1.workers w with
    | .running _ (.getTransaction signatures) => signatures = ["s1"]
    | _ => false
  | _ => true

theorem processed_persisted_reclaimed :
    letI : External := smallNetwork [[⟨some 9000, "s1"⟩]] ["s1"]
    ∃ tr t, Run (Guarded (Step sampleApi) (Honest transactionInfo)) (Sys.init 10100000000) tr t ∧
      tr.map Prod.snd = reclaimed ∧ (∃ r ∈ t.db.signatures, r.isProcessed = true) ∧
      ∀ r ∈ t.db.signatures, r.isProcessed = true →
        (r.ownerAddress, r.signature) ∈ t.db.transactions.keys ∧
        ∀ x ∈ transferRows r.ownerAddress (derived transactionInfo r.signature),
          x ∈ t.db.tokenTransfers := by
  let : External := smallNetwork [[⟨some 9000, "s1"⟩]] ["s1"]
  obtain ⟨tr, t, hrun, hlab, htest⟩ := exists_run_of_exec (step sampleApi) (Sys.init 10100000000)
    reclaimed (fun tr t => tr.all asksForS1 && decide (∃ r ∈ t.db.signatures, r.isProcessed = true))
    (by decide +kernel)
  simp only [Bool.and_eq_true, decide_eq_true_eq, List.all_eq_true] at htest
  have hhonest : ∀ x ∈ tr, Honest transactionInfo x.1 x.2 := by
    rintro ⟨s, a⟩ hx
    have hasks := htest.1 (s, a) hx
    have hmem : a ∈ reclaimed := hlab ▸ List.mem_map_of_mem hx
    unfold Honest
    split
    · rename_i w reply ha
      obtain rfl : a = .call w (.transactions reply) := ha
      intro job signatures hw p hp k txInfo status hk
      have hreply : reply = fun _ => serveTransaction "s1" := by
        simp only [reclaimed, List.mem_cons, List.not_mem_nil, or_false, reduceCtorEq,
          Act.call.injEq, Answer.transactions.injEq, and_false, false_or] at hmem
        tauto
      have hw' : s.workers w = .running job (.getTransaction signatures) := hw
      have hs1 : signatures = ["s1"] := by
        simpa only [asksForS1, hw', decide_eq_true_eq] using hasks
      subst hreply hs1
      obtain rfl := List.mem_singleton.mp hp
      have hserved := tryFetch_serveTransaction [[⟨some 9000, "s1"⟩]] (List.mem_singleton_self "s1") k
      exact (FetchAttempt.success.inj (hserved.symm.trans hk)).1.symm
    · trivial
  have hrun := Run.guarded_iff.mpr ⟨hrun, hhonest⟩
  exact ⟨tr, t, hrun, hlab, htest.2, processed_persisted (fun _ => rfl) hrun⟩

end Sys

end OnChainEventIndexer
