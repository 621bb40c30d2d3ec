import OnChainEventIndexer.Indexer.Run

/-!
# The outcome of a job run

`job_outcome`: where no statement fails and nobody else touches the address, a run that returns
leaves its job ready just when every page was fetched, every `getTransaction` succeeded and no
unprocessed signature of the window is left, and in error otherwise; in every batch that came back,
what was fetched is saved and marked, and what was not is still unprocessed.

`terminal_iff`: with failing statements, and whatever the others do to other rows, a run that
returns leaves its job ready or in error just when none of the failing calls is a status update.
-/

namespace OnChainEventIndexer

open Keyed Lts

/-! ## Facts about signatures in the tables -/

namespace Db

/-- There is a transactions row for `s`, and every transfer of `tx` has its row. -/
def Saved [External] (db : Db) (address s : String) (tx : TransactionResult) : Prop :=
  (address, s) ∈ db.transactions.keys ∧ ∀ r ∈ transferRows address tx, r ∈ db.tokenTransfers

/-- The signature has a processed row. -/
def Processed (db : Db) (address s : String) : Prop :=
  ∃ r ∈ db.signatures, r.key = (address, s) ∧ r.isProcessed = true

/-- ...an unprocessed one. -/
def Unprocessed (db : Db) (address s : String) : Prop :=
  ∃ r ∈ db.signatures, r.key = (address, s) ∧ r.isProcessed = false

variable {db db' : Db} {address s : String}

theorem Processed.mono (h : db.Processed address s) (hle : db.Le db') : db'.Processed address s := by
  obtain ⟨r, hr, hk, hp⟩ := h
  obtain ⟨r', hr', hk', -, hp'⟩ := hle.sigs r hr
  exact ⟨r', hr', hk'.trans hk, hp' hp⟩

theorem Processed.of_same (h : db.Processed address s) (hs : Db.SameRows address db db') :
    db'.Processed address s := by
  obtain ⟨r, hr, hk, hp⟩ := h
  exact ⟨r, (hs.sigs r (Prod.mk.inj hk).1).mp hr, hk, hp⟩

theorem Unprocessed.of_same (h : db.Unprocessed address s) (hs : Db.SameRows address db db') :
    db'.Unprocessed address s := by
  obtain ⟨r, hr, hk, hp⟩ := h
  exact ⟨r, (hs.sigs r (Prod.mk.inj hk).1).mp hr, hk, hp⟩

/-- Marking an unprocessed signature leaves it processed. -/
theorem Unprocessed.mark {signatures : List String} (h : db.Unprocessed address s)
    (hs : s ∈ signatures) :
    (db.markSignaturesProcessed address signatures).2.Processed address s := by
  obtain ⟨r, hr, hk, hp⟩ := h
  obtain ⟨ha, hsig⟩ := Prod.mk.inj hk
  have hw : (ownedIn address signatures r && !r.isProcessed) = true := by
    rw [Bool.and_eq_true, ownedIn_eq_true, hp]
    exact ⟨⟨ha, hsig ▸ hs⟩, rfl⟩
  exact ⟨r.mark, mem_markSignaturesProcessed.mpr ⟨r, hr, by rw [if_pos hw]⟩, hk, rfl⟩

theorem transferRows_owner [External] {tx : TransactionResult} {r : TokenTransferRow}
    (h : r ∈ transferRows address tx) : r.trackedOwner = address := by
  obtain ⟨c, -, rfl⟩ := List.mem_map.mp h
  rfl

theorem Saved.mono [External] {tx : TransactionResult} (h : db.Saved address s tx) (hle : db.Le db') :
    db'.Saved address s tx := by
  obtain ⟨x, hx, hk⟩ := Table.mem_keys.mp h.1
  exact ⟨hk ▸ Table.key_mem_keys (hle.txs x hx), fun r hr => hle.transfers r (h.2 r hr)⟩

theorem Saved.of_same [External] {tx : TransactionResult} (h : db.Saved address s tx)
    (hs : Db.SameRows address db db') : db'.Saved address s tx := by
  obtain ⟨x, hx, hk⟩ := Table.mem_keys.mp h.1
  exact ⟨hk ▸ Table.key_mem_keys ((hs.txs x (Prod.mk.inj hk).1).mp hx), fun r hr =>
    (hs.transfers r (transferRows_owner hr)).mp (h.2 r hr)⟩

end Db

/-- The transactions of the batch have their rows. -/
def InfoSaved (address : String) (db : Db) (batch : TransactionBatch) : Prop :=
  ∀ tx ∈ batch.transactions, (address, TransactionResult.firstSignature tx.result) ∈
    db.transactions.keys

theorem InfoSaved.of_same {address : String} {db db' : Db} {batch : TransactionBatch}
    (h : InfoSaved address db batch) (hs : Db.SameRows address db db') :
    InfoSaved address db' batch := by
  intro tx htx
  obtain ⟨x, hx, hk⟩ := Table.mem_keys.mp (h tx htx)
  exact hk ▸ Table.key_mem_keys ((hs.txs x (Prod.mk.inj hk).1).mp hx)

/-- A status update touches `processing_data` only. -/
theorem sameRows_update (address : String) (db : Db) (jobId : Nat) (status : Status) (now : Int) :
    Db.SameRows address db (db.updateProcessingStatusByJobId jobId status now).2 :=
  .of_eq rfl rfl rfl

/-! ## What is said of a run -/

section Executed

variable [External]

/-- The request for a page succeeds. -/
def PageOk (api : HeliusApi) (job : ClaimedJob) (p : Option String × Replies × Int) : Prop :=
  ∃ page, getSignatures api p.2.1 job.requestedHours p.2.2 = .ok page

/-- Every request of a batch succeeds. -/
def BatchOk (api : HeliusApi) (b : List String × (Nat → Replies)) : Prop :=
  ∀ p ∈ b.1.zipIdx, ∃ tx,
    fetchTransactionBySignature api p.1 (b.2 p.2) = some (.success p.1 tx)

/-- What the run leaves of a batch: what was fetched is saved and marked, the rest is still
unprocessed. -/
structure BatchDone (api : HeliusApi) (address : String) (db : Db)
    (b : List String × (Nat → Replies)) : Prop where
  fetched : ∀ s i tx, (s, i) ∈ b.1.zipIdx →
    fetchTransactionBySignature api s (b.2 i) = some (.success s tx) →
    db.Saved address s tx.calculateTokenTransfer ∧ db.Processed address s
  left : ∀ s i e, (s, i) ∈ b.1.zipIdx →
    fetchTransactionBySignature api s (b.2 i) = some (.failed e) → db.Unprocessed address s

/-- Everything the job asked for came back, and nothing of its window is left. -/
structure Complete (api : HeliusApi) (job : ClaimedJob) (tr : Trace) (db : Db) (j : ProcessingData) :
    Prop where
  pages : ∀ p ∈ pages tr, PageOk api job p
  batches : ∀ b ∈ batches tr, BatchOk api b
  window : db.unprocessedInWindow j = false

/-- A successful `getTransaction(s)` returns a transaction whose first signature is `s`. -/
def FirstSignatures (tr : Trace) : Prop :=
  ∀ b ∈ batches tr, ∀ p ∈ b.1.zipIdx, ∀ k txInfo status,
    tryFetchTransactionOnce p.1 (b.2 p.2 k) = .success txInfo status →
      txInfo.transaction.signatures.head? = some p.1

variable {api : HeliusApi} {job : ClaimedJob}

theorem BatchDone.of_same {address : String} {db db' : Db} {b : List String × (Nat → Replies)}
    (h : BatchDone api address db b) (hs : Db.SameRows address db db') :
    BatchDone api address db' b :=
  ⟨fun s i tx hi hf => ⟨(h.fetched s i tx hi hf).1.of_same hs, (h.fetched s i tx hi hf).2.of_same hs⟩,
    fun s i e hi hf => (h.left s i e hi hf).of_same hs⟩

/-- A batch without failures stays done whatever is added. -/
theorem BatchDone.mono {address : String} {db db' : Db} {b : List String × (Nat → Replies)}
    (h : BatchDone api address db b) (hok : BatchOk api b) (hle : db.Le db') :
    BatchDone api address db' b := by
  refine ⟨fun s i tx hi hf => ⟨(h.fetched s i tx hi hf).1.mono hle,
    (h.fetched s i tx hi hf).2.mono hle⟩,
    fun s i e hi hf => ?_⟩
  obtain ⟨tx, htx⟩ := hok _ hi
  rw [hf] at htx
  exact absurd (Option.some.inj htx) (by simp)

/-! ## The invariant of a run -/

/-- The batch in hand: asked for last, its signatures still unprocessed. -/
structure InHand (api : HeliusApi) (address : String) (tr : Trace) (db : Db)
    (batch : TransactionBatch) : Prop where
  last : ∃ bs signatures reply, batches tr = bs ++ [(signatures, reply)] ∧
    (∀ b ∈ bs, BatchOk api b ∧ BatchDone api address db b) ∧
    getTransaction api reply signatures = some batch ∧ signatures.Nodup ∧
    ∀ s ∈ signatures, db.Unprocessed address s

/-- What holds at each call of a run in which no statement fails. -/
def At (api : HeliusApi) (job : ClaimedJob) (tr : Trace) (db : Db) (j : ProcessingData) : Pc → Prop
  | .fetchPage _ _ | .writeSignatures _ _ =>
    j.status = .indexing ∧ (∀ p ∈ pages tr, PageOk api job p) ∧ batches tr = []
  | .claimBatch | .updateReady =>
    j.status = .indexing ∧ (∀ p ∈ pages tr, PageOk api job p) ∧
      ∀ b ∈ batches tr, BatchOk api b ∧ BatchDone api job.address db b
  | .getTransaction signatures =>
    j.status = .indexing ∧ (∀ p ∈ pages tr, PageOk api job p) ∧
      (∀ b ∈ batches tr, BatchOk api b ∧ BatchDone api job.address db b) ∧
      signatures.Nodup ∧ ∀ s ∈ signatures, db.Unprocessed job.address s
  | .writeTransactionInfo batch =>
    j.status = .indexing ∧ (∀ p ∈ pages tr, PageOk api job p) ∧ InHand api job.address tr db batch
  | .writeTokenTransfers batch =>
    j.status = .indexing ∧ (∀ p ∈ pages tr, PageOk api job p) ∧ InHand api job.address tr db batch ∧
      InfoSaved job.address db batch
  | .markProcessed batch =>
    j.status = .indexing ∧ (∀ p ∈ pages tr, PageOk api job p) ∧ InHand api job.address tr db batch ∧
      InfoSaved job.address db batch ∧
      ∀ tx ∈ batch.transactions, ∀ r ∈ transferRows job.address tx, r ∈ db.tokenTransfers
  | .updateError =>
    j.status = .indexing ∧ ¬Complete api job tr db j ∧
      ∀ b ∈ batches tr, BatchDone api job.address db b
  | .returned =>
    (Complete api job tr db j → j.status = .ready) ∧ (¬Complete api job tr db j → j.status = .error) ∧
      ∀ b ∈ batches tr, BatchDone api job.address db b
  | .panicked => True

theorem Complete.congr {tr : Trace} {db db' : Db} {j j' : ProcessingData} (hj : j.SameJob j')
    (hs : Db.SameRows j.address db db') : Complete api job tr db' j' ↔ Complete api job tr db j := by
  have hw := Db.unprocessedInWindow_congr hj hs.sigs
  exact ⟨fun h => ⟨h.pages, h.batches, hw ▸ h.window⟩, fun h =>
    ⟨h.pages, h.batches, hw.trans h.window⟩⟩

theorem InHand.of_same {address : String} {tr : Trace} {db db' : Db} {batch : TransactionBatch}
    (h : InHand api address tr db batch) (hs : Db.SameRows address db db') :
    InHand api address tr db' batch := by
  obtain ⟨bs, signatures, reply, hb, hdone, hget, hnd, hun⟩ := h.last
  exact ⟨bs, signatures, reply, hb, fun b hb => ⟨(hdone b hb).1, (hdone b hb).2.of_same hs⟩, hget,
    hnd, fun s hs' => (hun s hs').of_same hs⟩

/-- What the others do to other addresses does not matter. -/
theorem At.of_same {tr : Trace} {db db' : Db} {j : ProcessingData} {pc : Pc}
    (hj : j.address = job.address) (h : At api job tr db j pc)
    (hs : Db.SameRows job.address db db') : At api job tr db' j pc := by
  have hc : Complete api job tr db' j ↔ Complete api job tr db j :=
    Complete.congr (.refl j) (hj ▸ hs)
  cases pc with
  | fetchPage cur sum => exact h
  | writeSignatures page sum => exact h
  | claimBatch => exact ⟨h.1, h.2.1, fun b hb => ⟨(h.2.2 b hb).1, (h.2.2 b hb).2.of_same hs⟩⟩
  | updateReady => exact ⟨h.1, h.2.1, fun b hb => ⟨(h.2.2 b hb).1, (h.2.2 b hb).2.of_same hs⟩⟩
  | getTransaction signatures =>
    obtain ⟨hi, hp, hb, hnd, hun⟩ := h
    exact ⟨hi, hp, fun b hb' => ⟨(hb b hb').1, (hb b hb').2.of_same hs⟩, hnd, fun s hs' =>
      (hun s hs').of_same hs⟩
  | writeTransactionInfo batch => exact ⟨h.1, h.2.1, h.2.2.of_same hs⟩
  | writeTokenTransfers batch => exact ⟨h.1, h.2.1, h.2.2.1.of_same hs, h.2.2.2.of_same hs⟩
  | markProcessed batch =>
    obtain ⟨hi, hp, hh, hinfo, htr⟩ := h
    exact ⟨hi, hp, hh.of_same hs, hinfo.of_same hs, fun tx htx r hr =>
      (hs.transfers r (Db.transferRows_owner hr)).mp (htr tx htx r hr)⟩
  | updateError => exact ⟨h.1, fun h' => h.2.1 (hc.mp h'), fun b hb => (h.2.2 b hb).of_same hs⟩
  | returned =>
    exact ⟨fun h' => h.1 (hc.mp h'), fun h' => h.2.1 fun h'' => h' (hc.mpr h''), fun b hb =>
      (h.2.2 b hb).of_same hs⟩
  | panicked => trivial

/-! ## Marking a batch -/

/-- **What marking completes**: with the rows of both tables there, marking the processed
signatures of the batch leaves it done. -/
theorem batchDone_of_marked {db : Db} {address : String} {signatures : List String}
    {reply : Nat → Replies} {batch : TransactionBatch}
    (hget : getTransaction api reply signatures = some batch) (hnd : signatures.Nodup)
    (hun : ∀ s ∈ signatures, db.Unprocessed address s) (hinfo : InfoSaved address db batch)
    (htr : ∀ tx ∈ batch.transactions, ∀ r ∈ transferRows address tx, r ∈ db.tokenTransfers)
    (hfirst : ∀ p ∈ signatures.zipIdx, ∀ k txInfo status,
      tryFetchTransactionOnce p.1 (reply p.2 k) = .success txInfo status →
        txInfo.transaction.signatures.head? = some p.1) :
    BatchDone api address (db.markSignaturesProcessed address batch.processedSignatures).2
      (signatures, reply) := by
  have hin : ∀ s i, (s, i) ∈ signatures.zipIdx → s ∈ signatures := fun s i h =>
    List.mem_of_getElem? (List.mem_zipIdx_iff_getElem?.mp h)
  constructor
  · intro s i tx hi hf
    obtain ⟨hs, htx⟩ := (getTransaction_split hget hi).1 tx hf
    refine ⟨⟨?_, fun r hr => ?_⟩, (hun s (hin s i hi)).mark hs⟩
    · rw [Db.markSignaturesProcessed_transactions]
      have hkey := hinfo _ htx
      rcases fetchTransactionBySignature_spec hf with ⟨k, txInfo, status, hk, he⟩ | ⟨e, -, he⟩
      · obtain ⟨-, rfl⟩ := TransactionFetchOutcome.success.inj he
        have : TransactionResult.firstSignature txInfo = s := by
          unfold TransactionResult.firstSignature
          rw [hfirst (s, i) hi k txInfo status hk, Option.getD_some]
        rw [TransactionResult.calculateTokenTransfer_result, this] at hkey
        exact hkey
      · exact absurd he (by simp)
    · rw [Db.markSignaturesProcessed_tokenTransfers]
      exact htr _ htx r hr
  · intro s i e hi hf
    obtain ⟨r, hr, hk, hp⟩ := hun s (hin s i hi)
    obtain ⟨ha, hsig⟩ := Prod.mk.inj hk
    refine ⟨r, Db.mem_markSignaturesProcessed.mpr ⟨r, hr, ?_⟩, hk, hp⟩
    -- a signature has one position, and the request at that position failed
    have hnot : s ∉ batch.processedSignatures := by
      intro hs
      obtain ⟨i', tx, hi', hf'⟩ := (getTransaction_mem hget).1 hs
      obtain rfl := zipIdx_pos hnd hi hi'
      rw [hf] at hf'
      exact absurd (Option.some.inj hf') (by simp)
    have hw : ¬(Db.ownedIn address batch.processedSignatures r && !r.isProcessed) = true := by
      rw [Bool.and_eq_true, Db.ownedIn_eq_true]
      exact fun h => hnot (hsig ▸ h.1.2)
    rw [if_neg hw]

/-! ## What a step keeps -/

theorem FirstSignatures.init {tr : Trace} {x : Local × Event} (h : FirstSignatures (tr ++ [x])) :
    FirstSignatures tr := fun b hb => h b (by
  rw [batches_snoc]
  exact List.mem_append_left _ hb)

theorem pagesOk_snoc {tr : Trace} {x : Local × Event} (hp : ∀ p ∈ pages tr, PageOk api job p)
    (hx : page? x = none) : ∀ p ∈ pages (tr ++ [x]), PageOk api job p := by
  rw [pages_snoc_of_none hx]
  exact hp

/-- The batches that are done stay done. -/
theorem batchesDone_snoc {address : String} {tr : Trace} {db db' : Db} {x : Local × Event}
    (hb : ∀ b ∈ batches tr, BatchOk api b ∧ BatchDone api address db b) (hle : db.Le db')
    (hx : batch? x = none) :
    ∀ b ∈ batches (tr ++ [x]), BatchOk api b ∧ BatchDone api address db' b := by
  intro b hbm
  rw [batches_snoc_of_none hx] at hbm
  exact ⟨(hb b hbm).1, (hb b hbm).2.mono (hb b hbm).1 hle⟩

/-- The batch in hand stays in hand while its signatures are left alone. -/
theorem InHand.snoc {address : String} {tr : Trace} {db db' : Db} {batch : TransactionBatch}
    {x : Local × Event} (h : InHand api address tr db batch) (hle : db.Le db')
    (hsig : db'.signatures = db.signatures) (hx : batch? x = none) :
    InHand api address (tr ++ [x]) db' batch := by
  obtain ⟨bs, signatures, reply, hb, hdone, hget, hnd, hun⟩ := h.last
  refine ⟨bs, signatures, reply, (batches_snoc_of_none hx).trans hb,
    fun b hb => ⟨(hdone b hb).1, (hdone b hb).2.mono (hdone b hb).1 hle⟩, hget, hnd,
    fun s hsm => ?_⟩
  unfold Db.Unprocessed
  rw [hsig]
  exact hun s hsm

/-- Marking completes the batch in hand; its requests all succeeded if it has no errors. -/
theorem InHand.marked {address : String} {tr : Trace} {db : Db} {batch : TransactionBatch}
    (h : InHand api address tr db batch) (hinfo : InfoSaved address db batch)
    (htr : ∀ tx ∈ batch.transactions, ∀ r ∈ transferRows address tx, r ∈ db.tokenTransfers)
    (hfirst : FirstSignatures tr) :
    (∀ b ∈ batches tr,
      BatchDone api address (db.markSignaturesProcessed address batch.processedSignatures).2 b) ∧
    (batch.errors.isEmpty = true ↔ ∀ b ∈ batches tr, BatchOk api b) := by
  obtain ⟨bs, signatures, reply, hb, hdone, hget, hnd, hun⟩ := h.last
  have hle := Db.le_markSignaturesProcessed db address batch.processedSignatures
  have hlast : (signatures, reply) ∈ batches tr := by
    rw [hb]
    exact List.mem_append_right _ (List.mem_singleton_self _)
  have herrors : batch.errors.isEmpty = true ↔ BatchOk api (signatures, reply) :=
    List.isEmpty_iff.trans (getTransaction_errors hget)
  have hcases : ∀ b ∈ batches tr, b ∈ bs ∨ b = (signatures, reply) := by
    intro b hbm
    rw [hb] at hbm
    exact (List.mem_append.mp hbm).imp id List.mem_singleton.mp
  refine ⟨fun b hbm => ?_, fun he b hbm => ?_, fun hall => herrors.mpr (hall _ hlast)⟩
  · rcases hcases b hbm with hbm | rfl
    · exact (hdone b hbm).2.mono (hdone b hbm).1 hle
    · exact batchDone_of_marked hget hnd hun hinfo htr (hfirst _ hlast)
  · rcases hcases b hbm with hbm | rfl
    · exact (hdone b hbm).1
    · exact herrors.mp he

/-- A step that asks for nothing leaves the job as complete as it was. -/
theorem complete_snoc {tr : Trace} {db : Db} {j : ProcessingData} {x : Local × Event}
    (hp : page? x = none) (hb : batch? x = none) :
    Complete api job (tr ++ [x]) db j ↔ Complete api job tr db j := by
  constructor
  · rintro ⟨hpages, hbatches, hw⟩
    rw [pages_snoc_of_none hp] at hpages
    rw [batches_snoc_of_none hb] at hbatches
    exact ⟨hpages, hbatches, hw⟩
  · rintro ⟨hpages, hbatches, hw⟩
    refine ⟨?_, ?_, hw⟩
    · rw [pages_snoc_of_none hp]
      exact hpages
    · rw [batches_snoc_of_none hb]
      exact hbatches

/-! ## One call -/

section Calls

variable {tr : Trace} {db db0 : Db} {n0 now : Int} {j : ProcessingData} {chosen : List String}

theorem At.pageFetched {cur : Option String} {sum sum' : Nat} {reply : Replies} {nowTs : Int}
    {page : SignaturesPage} (h : At api job tr db j (.fetchPage cur sum))
    (hpage : getSignatures api reply job.requestedHours nowTs = .ok page) :
    At api job (tr ++ [(⟨db0, n0, .fetchPage cur sum⟩, (now, .signatures reply nowTs))]) db j
      (.writeSignatures page sum') := by
  obtain ⟨hs, hp, hb⟩ := h
  refine ⟨hs, fun p hpm => ?_, (batches_snoc_of_none rfl).trans hb⟩
  rw [pages_snoc] at hpm
  rcases List.mem_append.mp hpm with hpm | hpm
  · exact hp p hpm
  · rw [List.mem_singleton.mp hpm]
    exact ⟨page, hpage⟩

/-- A page that is not there keeps the job from being complete. -/
theorem At.pageFailed {cur : Option String} {sum : Nat} {reply : Replies} {nowTs : Int}
    {error : String} (h : At api job tr db j (.fetchPage cur sum))
    (herr : getSignatures api reply job.requestedHours nowTs = .error error) :
    At api job (tr ++ [(⟨db0, n0, .fetchPage cur sum⟩, (now, .signatures reply nowTs))]) db j
      .updateError := by
  obtain ⟨hs, hp, hb⟩ := h
  refine ⟨hs, fun hc => ?_, fun b hbm => ?_⟩
  · obtain ⟨page, hpage⟩ := hc.pages (cur, reply, nowTs)
      (by rw [pages_snoc]; exact List.mem_append_right _ (List.mem_singleton_self _))
    exact absurd (herr.symm.trans hpage) (by simp)
  · rw [batches_snoc_of_none rfl, hb] at hbm
    exact absurd hbm List.not_mem_nil

theorem At.signaturesWritten {page : SignaturesPage} {sum : Nat}
    (h : At api job tr db j (.writeSignatures page sum)) :
    At api job (tr ++ [(⟨db0, n0, .writeSignatures page sum⟩, (now, .done chosen))])
      (db.writeSignatures page.response job.address).2 j (.afterPage job page sum) := by
  obtain ⟨hs, hp, hb⟩ := h
  have hb' : batches (tr ++ [(⟨db0, n0, .writeSignatures page sum⟩, (now, .done chosen))]) = [] :=
    (batches_snoc_of_none rfl).trans hb
  unfold Pc.afterPage
  split
  · exact ⟨hs, pagesOk_snoc hp rfl, fun b hbm => absurd (hb' ▸ hbm) List.not_mem_nil⟩
  · exact ⟨hs, pagesOk_snoc hp rfl, hb'⟩

theorem At.nothingClaimed {db' : Db} (h : At api job tr db j .claimBatch) (hle : db.Le db') :
    At api job (tr ++ [(⟨db0, n0, .claimBatch⟩, (now, .done []))]) db' j .updateReady := by
  obtain ⟨hs, hp, hb⟩ := h
  exact ⟨hs, pagesOk_snoc hp rfl, batchesDone_snoc hb hle rfl⟩

/-- What is claimed was unprocessed. -/
theorem At.batchClaimed (h : At api job tr db j .claimBatch)
    (hc : db.IsClaim job.address 100 now chosen)
    (hle : db.Le (db.getUnprocessedSignatures job.address now chosen).2) :
    At api job (tr ++ [(⟨db0, n0, .claimBatch⟩, (now, .done chosen))])
      (db.getUnprocessedSignatures job.address now chosen).2 j (.getTransaction chosen) := by
  obtain ⟨hs, hp, hb⟩ := h
  refine ⟨hs, pagesOk_snoc hp rfl, batchesDone_snoc hb hle rfl, hc.1, fun s hsm => ?_⟩
  obtain ⟨r, hr, hcr, rfl⟩ := Db.mem_claimableSignatures.mp (hc.2.1 s hsm)
  obtain ⟨ha, hup, -⟩ := SignatureRow.claimable_eq_true.mp hcr
  have hw : Db.ownedIn job.address chosen r = true := Db.ownedIn_eq_true.mpr ⟨ha, hsm⟩
  refine ⟨r.claim now, Db.mem_getUnprocessedSignatures.mpr ⟨r, hr, by rw [if_pos hw]⟩, ?_, hup⟩
  exact Prod.ext ha rfl

theorem At.batchFetched {signatures : List String} {reply : Nat → Replies} {batch : TransactionBatch}
    (h : At api job tr db j (.getTransaction signatures))
    (hget : getTransaction api reply signatures = some batch) :
    At api job (tr ++ [(⟨db0, n0, .getTransaction signatures⟩, (now, .transactions reply))]) db j
      (.writeTransactionInfo batch) := by
  obtain ⟨hs, hp, hb, hnd, hun⟩ := h
  exact ⟨hs, pagesOk_snoc hp rfl, ⟨batches tr, signatures, reply, batches_snoc tr _, hb, hget, hnd,
    hun⟩⟩

theorem At.infoWritten {batch : TransactionBatch} (h : At api job tr db j (.writeTransactionInfo batch))
    (hle : db.Le (db.writeTransactionInfo batch.transactions job.address).2) :
    At api job (tr ++ [(⟨db0, n0, .writeTransactionInfo batch⟩, (now, .done chosen))])
      (db.writeTransactionInfo batch.transactions job.address).2 j (.writeTokenTransfers batch) := by
  obtain ⟨hs, hp, hh⟩ := h
  refine ⟨hs, pagesOk_snoc hp rfl, hh.snoc hle (by simp) rfl, fun tx htx => ?_⟩
  rw [Db.writeTransactionInfo_transactions]
  exact Table.mem_keys_insertAll.mpr (Or.inr ⟨_, List.mem_map_of_mem htx, rfl⟩)

theorem At.transfersWritten {batch : TransactionBatch}
    (h : At api job tr db j (.writeTokenTransfers batch))
    (hle : db.Le (db.writeTokenTransfers batch.transactions job.address).2) :
    At api job (tr ++ [(⟨db0, n0, .writeTokenTransfers batch⟩, (now, .done chosen))])
      (db.writeTokenTransfers batch.transactions job.address).2 j (.markProcessed batch) := by
  obtain ⟨hs, hp, hh, hinfo⟩ := h
  refine ⟨hs, pagesOk_snoc hp rfl, hh.snoc hle (by simp) rfl, fun tx htx => ?_, fun tx htx r hr => ?_⟩
  · rw [Db.writeTokenTransfers_transactions]
    exact hinfo tx htx
  · rw [Db.writeTokenTransfers_tokenTransfers]
    obtain ⟨x, hx, rfl⟩ := Table.exists_mem_insertAll (t := db.tokenTransfers)
      (List.mem_flatMap.mpr ⟨tx, htx, hr⟩)
    exact hx

/-- A batch with errors keeps the job from being complete. -/
theorem At.batchMarked {batch : TransactionBatch} (h : At api job tr db j (.markProcessed batch))
    (hfirst : FirstSignatures tr) :
    At api job (tr ++ [(⟨db0, n0, .markProcessed batch⟩, (now, .done chosen))])
      (db.markSignaturesProcessed job.address batch.processedSignatures).2 j
      (.afterBatch batch) := by
  obtain ⟨hs, hp, hh, hinfo, htr⟩ := h
  obtain ⟨hdone, hempty⟩ := hh.marked hinfo htr hfirst
  have hb : batches (tr ++ [(⟨db0, n0, .markProcessed batch⟩, (now, .done chosen))]) =
      batches tr := batches_snoc_of_none rfl
  unfold Pc.afterBatch
  split
  · rename_i he
    refine ⟨hs, pagesOk_snoc hp rfl, fun b hbm => ?_⟩
    rw [hb] at hbm
    exact ⟨hempty.mp he b hbm, hdone b hbm⟩
  · rename_i he
    refine ⟨hs, fun hc => he (hempty.mpr fun b hbm => hc.batches b (hb ▸ hbm)), fun b hbm => ?_⟩
    exact hdone b (hb ▸ hbm)

/-- The guard lets a complete job through, and no other. -/
theorem At.readyUpdated (h : At api job tr db j .updateReady)
    (hle : db.Le (db.updateProcessingStatusByJobId j.id .ready now).2)
    (hmay : db.mayUpdateStatus j.id .ready j = true) :
    At api job (tr ++ [(⟨db0, n0, .updateReady⟩, (now, .done chosen))])
      (db.updateProcessingStatusByJobId j.id .ready now).2 (Db.statusSet .ready now j) .returned := by
  obtain ⟨hs, hp, hb⟩ := h
  have hb' := batchesDone_snoc (x := (⟨db0, n0, .updateReady⟩, (now, .done chosen))) hb hle rfl
  refine ⟨fun _ => rfl, fun hc => absurd ?_ hc, fun b hbm => (hb' b hbm).2⟩
  refine ⟨pagesOk_snoc hp rfl, fun b hbm => (hb' b hbm).1, ?_⟩
  rw [Db.unprocessedInWindow_statusSet]
  exact (Db.mayUpdateStatus_eq_true.mp hmay).2.2 rfl

theorem At.readyBlocked (h : At api job tr db j .updateReady)
    (hle : db.Le (db.updateProcessingStatusByJobId j.id .ready now).2)
    (hmay : db.mayUpdateStatus j.id .ready j = false) :
    At api job (tr ++ [(⟨db0, n0, .updateReady⟩, (now, .done chosen))])
      (db.updateProcessingStatusByJobId j.id .ready now).2 j .updateError := by
  obtain ⟨hs, hp, hb⟩ := h
  have hsame := sameRows_update j.address db j.id .ready now
  refine ⟨hs, fun hc => ?_, fun b hbm => (batchesDone_snoc hb hle rfl b hbm).2⟩
  have hw := ((Complete.congr (.refl j) hsame).mp hc).window
  rw [Db.mayUpdateStatus_ready db hs, hw] at hmay
  exact absurd hmay (by simp)

theorem At.errorUpdated (h : At api job tr db j .updateError) (hadd : j.address = job.address) :
    At api job (tr ++ [(⟨db0, n0, .updateError⟩, (now, .done chosen))])
      (db.updateProcessingStatusByJobId j.id .error now).2 (Db.statusSet .error now j) .returned := by
  obtain ⟨hs, hc, hb⟩ := h
  have hsame := sameRows_update j.address db j.id .error now
  refine ⟨fun hc' => absurd ?_ hc, fun _ => rfl, fun b hbm => ?_⟩
  · exact (complete_snoc rfl rfl).mp
      ((Complete.congr (Db.statusSet_sameJob .error now j) hsame).mp hc')
  · rw [batches_snoc_of_none rfl] at hbm
    exact (hb b hbm).of_same (hadd ▸ hsame)

end Calls

/-- **The step lemma.** -/
theorem at_next {tr : Trace} {db0 db db' : Db} {n0 now : Int} {j : ProcessingData} {pc pc' : Pc}
    {a : Answer} (hj : j ∈ db.processingData) (hcl : j.claimed = job) (h : At api job tr db j pc)
    (hn : Next api job now db pc a db' pc') (hok : a ≠ .dbError)
    (hfirst : FirstSignatures (tr ++ [(⟨db0, n0, pc⟩, (now, a))])) :
    ∃ j' ∈ db'.processingData, j'.claimed = job ∧
      At api job (tr ++ [(⟨db0, n0, pc⟩, (now, a))]) db' j' pc' := by
  have hid : job.jobId = j.id := hcl ▸ rfl
  have hle := hn.le
  cases hn with
  | pageFetched hpage => exact ⟨j, hj, hcl, h.pageFetched hpage⟩
  | pageFailed herr => exact ⟨j, hj, hcl, h.pageFailed herr⟩
  | signaturesWritten => exact ⟨j, by simpa using hj, hcl, h.signaturesWritten⟩
  | nothingClaimed => exact ⟨j, hj, hcl, h.nothingClaimed hle⟩
  | batchClaimed hc => exact ⟨j, hj, hcl, h.batchClaimed hc hle⟩
  | batchFetched hget => exact ⟨j, hj, hcl, h.batchFetched hget⟩
  | batchPanicked => exact ⟨j, hj, hcl, trivial⟩
  | infoWritten => exact ⟨j, by simpa using hj, hcl, h.infoWritten hle⟩
  | transfersWritten => exact ⟨j, by simpa using hj, hcl, h.transfersWritten hle⟩
  | batchMarked => exact ⟨j, by simpa using hj, hcl, h.batchMarked hfirst.init⟩
  | readyUpdated hone =>
    rw [hid] at hone hle ⊢
    have hmay := (Db.updateStatus_eq_one hj).mp hone
    exact ⟨_, Db.mem_updateStatus_of_may hj hmay, hcl, h.readyUpdated hle hmay⟩
  | readyBlocked hzero =>
    rw [hid] at hzero hle ⊢
    have hmay := (Db.updateStatus_eq_zero hj).mp hzero
    exact ⟨j, Db.mem_updateStatus_of_not hj hmay, hcl, h.readyBlocked hle hmay⟩
  | errorUpdated =>
    rw [hid]
    have hmay : db.mayUpdateStatus j.id .error j = true := Db.mayUpdateStatus_error db h.1
    exact ⟨_, Db.mem_updateStatus_of_may hj hmay, hcl, h.errorUpdated (hcl ▸ rfl)⟩
  | dbFailed => exact absurd rfl hok

/-! ## Every run without failing statements -/

/-- What holds at the end of a run in which no statement fails. -/
theorem at_run {s0 t : Local} {tr : Trace}
    (hrun : Run (LocalStep api job (Db.SameAddress job.address)) s0 tr t)
    (hstart : s0.pc = Pc.start job)
    (hjob : ∃ j ∈ s0.db.processingData, j.claimed = job ∧ j.status = .indexing)
    (hok : dbFailures tr = []) (hfirst : FirstSignatures tr) :
    ∃ j ∈ t.db.processingData, j.claimed = job ∧ At api job tr t.db j t.pc := by
  refine hrun.invariant_trace
    (I := fun tr t => dbFailures tr = [] → FirstSignatures tr →
      ∃ j ∈ t.db.processingData, j.claimed = job ∧ At api job tr t.db j t.pc) ?_ ?_ hok hfirst
  · rintro - -
    obtain ⟨j, hj, hcl, hs⟩ := hjob
    refine ⟨j, hj, hcl, ?_⟩
    rw [hstart]
    unfold Pc.start
    split
    · trivial
    · exact ⟨hs, fun p hp => absurd hp List.not_mem_nil, rfl⟩
  · rintro tr ⟨db0, n0, pc⟩ ⟨now, a⟩ ⟨db', n', pc'⟩ - ih ⟨db, hsame, -, -, hstep⟩ hok hfirst
    rw [dbFailures_snoc] at hok
    obtain ⟨hok, hnone⟩ := List.append_eq_nil_iff.mp hok
    obtain ⟨j, hj, hcl, hat⟩ := ih hok hfirst.init
    have hadd : j.address = job.address := hcl ▸ rfl
    refine at_next ((hsame.jobs j hadd).mp hj) hcl (hat.of_same hadd hsame.toSameRows)
      (step_next hstep) ?_ hfirst
    rintro rfl
    exact absurd hnone (by simp [dbFailure?])

/-- **The outcome of a job run.** From any database in which the job is indexing, with any answers
of the RPC, no failing statement and nobody else at the address: a run that returns leaves the job
ready when all pages were fetched, every `getTransaction` succeeded and no unprocessed signature is
left in the window, and in error in every other case; and every batch that came back is done. -/
theorem job_outcome {s0 t : Local} {tr : Trace}
    (hrun : Run (LocalStep api job (Db.SameAddress job.address)) s0 tr t)
    (hstart : s0.pc = Pc.start job)
    (hjob : ∃ j ∈ s0.db.processingData, j.claimed = job ∧ j.status = .indexing)
    (hok : dbFailures tr = []) (hfirst : FirstSignatures tr) (hret : t.pc = .returned) :
    (∃ j ∈ t.db.processingData, j.claimed = job ∧
      (Complete api job tr t.db j → j.status = .ready) ∧
      (¬Complete api job tr t.db j → j.status = .error)) ∧
    ∀ b ∈ batches tr, BatchDone api job.address t.db b := by
  obtain ⟨j, hj, hcl, hat⟩ := at_run hrun hstart hjob hok hfirst
  rw [hret] at hat
  exact ⟨⟨j, hj, hcl, hat.1, hat.2.1⟩, hat.2.2⟩

end Executed

theorem mem_batches {tr : Trace} {b : List String × (Nat → Replies)} (h : b ∈ batches tr) :
    ∃ now, (now, Answer.transactions b.2) ∈ tr.map Prod.snd := by
  obtain ⟨⟨⟨db, n, pc⟩, now, a⟩, hx, hb⟩ := List.mem_filterMap.mp h
  refine ⟨now, List.mem_map.mpr ⟨_, hx, ?_⟩⟩
  unfold batch? at hb
  split at hb
  · rename_i he
    obtain ⟨-, he⟩ := Prod.mk.inj he
    obtain ⟨-, rfl⟩ := Prod.mk.inj he
    rw [← Option.some.inj hb]
  · exact absurd hb (by simp)

/-- One page with two signatures; the transaction of the first arrives, that of the second does
not. -/
def partialFailure : List Event :=
  let t : Int := 10100 * 1000000
  [(t, .signatures (servePage [⟨some 9000, "s1"⟩, ⟨some 8000, "s2"⟩]) 10100), (t, .done []),
    (t, .done ["s1", "s2"]),
    (t, .transactions fun i => if i = 0 then serveTransaction "s1" else serveNothing),
    (t, .done []), (t, .done []), (t, .done []), (t, .done [])]

theorem job_outcome_partialFailure :
    letI : External := smallNetwork [[⟨some 9000, "s1"⟩, ⟨some 8000, "s2"⟩]] ["s1"]
    ∃ tr t, Run (LocalStep sampleApi sampleJob (Db.SameAddress "A")) (sampleStart 10100) tr t ∧
      tr.map Prod.snd = partialFailure ∧
      (∃ j ∈ t.db.processingData, j.claimed = sampleJob ∧
        (Complete sampleApi sampleJob tr t.db j → j.status = .ready) ∧
        (¬Complete sampleApi sampleJob tr t.db j → j.status = .error)) ∧
      ∀ b ∈ batches tr, BatchDone sampleApi "A" t.db b := by
  let : External := smallNetwork [[⟨some 9000, "s1"⟩, ⟨some 8000, "s2"⟩]] ["s1"]
  obtain ⟨tr, t, hrun, hlab, htest⟩ := exists_run_of_exec (localStep sampleApi sampleJob)
    (sampleStart 10100) partialFailure (fun tr t => t.pc.isReturned && (dbFailures tr).isEmpty &&
      decide ((batches tr).map Prod.fst = [["s1", "s2"]])) (by decide +kernel)
  simp only [Bool.and_eq_true, decide_eq_true_eq] at htest
  obtain ⟨⟨hret, hok⟩, hbs⟩ := htest
  have hrun := hrun.imp (localStep_of_eq (Db.SameAddress.refl "A"))
  refine ⟨tr, t, hrun, hlab, job_outcome hrun rfl (sampleDb_job 10100) (List.isEmpty_iff.mp hok) ?_
    (Pc.eq_returned hret)⟩
  rintro ⟨signatures, reply⟩ hb ⟨s, i⟩ hp k txInfo status hk
  have hsigs : signatures = ["s1", "s2"] := by
    have : signatures ∈ (batches tr).map Prod.fst := List.mem_map_of_mem hb
    rw [hbs] at this
    exact List.mem_singleton.mp this
  have hreply : reply = fun i => if i = 0 then serveTransaction "s1" else serveNothing := by
    obtain ⟨now, hnow⟩ := mem_batches hb
    rw [hlab] at hnow
    have : now = 10100000000 ∧ reply = fun i => if i = 0 then serveTransaction "s1" else
        serveNothing := by
      simpa [partialFailure] using hnow
    exact this.2
  subst hsigs hreply
  simp only [List.zipIdx_cons, List.zipIdx_nil, List.mem_cons, Prod.mk.injEq, List.not_mem_nil,
    or_false] at hp
  rcases hp with ⟨rfl, rfl⟩ | ⟨rfl, rfl⟩
  · have hs := tryFetch_serveTransaction [[⟨some 9000, "s1"⟩, ⟨some 8000, "s2"⟩]]
      (List.mem_singleton_self "s1") k
    simp only [if_true] at hk
    exact (FetchAttempt.success.inj (hs.symm.trans hk)).1 ▸ rfl
  · exact absurd hk (by simp [tryFetchTransactionOnce, serveNothing])

/-! ## Failing statements -/

/-- Some call that failed is a status update. -/
def StatusUpdateFailed (tr : Trace) : Prop := ∃ pc ∈ dbFailures tr, pc.IsStatusUpdate

/-- The job has come to an end. -/
def Db.Terminal (db : Db) (jobId : Nat) : Prop :=
  ∃ j ∈ db.processingData, j.id = jobId ∧ (j.status = .ready ∨ j.status = .error)

/-- What is known of the job's row during a run with failures: indexing, and no status update
failed, until the run returns. -/
structure Owned (job : ClaimedJob) (tr : Trace) (db : Db) (pc : Pc) : Prop where
  row : ∃ j ∈ db.processingData, j.claimed = job ∧
    (pc ≠ .returned → j.status = .indexing ∧ ¬StatusUpdateFailed tr) ∧
    (pc = .returned → ((j.status = .ready ∨ j.status = .error) ↔ ¬StatusUpdateFailed tr))

theorem not_failed_snoc {tr : Trace} {x : Local × Event} (h : ¬StatusUpdateFailed tr)
    (hx : ∀ pc, dbFailure? x = some pc → ¬pc.IsStatusUpdate) :
    ¬StatusUpdateFailed (tr ++ [x]) := by
  rintro ⟨pc, hpc, hu⟩
  rw [dbFailures_snoc] at hpc
  rcases List.mem_append.mp hpc with hpc | hpc
  · exact h ⟨pc, hpc, hu⟩
  · exact hx pc (Option.mem_toList.mp hpc) hu

section Failures

variable [External] {api : HeliusApi} {job : ClaimedJob}

theorem owned_next {tr : Trace} {db0 db db' : Db} {n0 now : Int} {pc pc' : Pc} {a : Answer}
    (ho : Owned job tr db pc) (hn : Next api job now db pc a db' pc') :
    Owned job (tr ++ [(⟨db0, n0, pc⟩, (now, a))]) db' pc' := by
  obtain ⟨j, hj, hcl, hrun, -⟩ := ho.row
  have hne : pc ≠ .returned := by
    rintro rfl
    exact absurd hn.not_final (by simp [Pc.final])
  obtain ⟨hs, hnf⟩ := hrun hne
  by_cases hf : a = .dbError ∧ pc.IsStatusUpdate
  · -- the error is only logged: the run returns and the job stays indexing
    obtain ⟨rfl, hu⟩ := hf
    have hfailed : StatusUpdateFailed (tr ++ [(⟨db0, n0, pc⟩, (now, Answer.dbError))]) := by
      refine ⟨pc, ?_, hu⟩
      rw [dbFailures_snoc]
      exact List.mem_append_right _ (by simp [dbFailure?])
    cases hn with
    | dbFailed hi =>
      refine ⟨j, hj, hcl, fun h => absurd ?_ h, fun _ => ⟨fun ht => ?_, fun h => absurd hfailed h⟩⟩
      · rcases hu with rfl | rfl <;> rfl
      · rw [hs] at ht
        exact absurd ht (by simp)
  · have hnf' : ¬StatusUpdateFailed (tr ++ [(⟨db0, n0, pc⟩, (now, a))]) := by
      refine not_failed_snoc hnf fun p hp hu => hf ?_
      obtain ⟨rfl, rfl⟩ := dbFailure?_eq_some hp
      exact ⟨rfl, hu⟩
    rcases hn.ownRow hj hcl hs with ⟨hj', hend⟩ | ⟨rfl, j', hj', hcl', ht⟩
    · refine ⟨j, hj', hcl, fun _ => ⟨hs, hnf'⟩, ?_⟩
      rintro rfl
      rcases hend rfl with h | h
      · exact absurd h (by simp)
      · exact absurd h hf
    · exact ⟨j', hj', hcl', fun h => absurd rfl h, fun _ => ⟨fun _ => hnf', fun _ => ht⟩⟩

/-- **When failing database calls strand a job.** Whatever the RPC answers, whichever calls of the
database fail, and whatever the others do to other rows: when the run returns, its job is ready or
in error if and only if none of the failing calls is a status update. -/
theorem terminal_iff {s0 t : Local} {tr : Trace}
    (hrun : Run (LocalStep api job (Db.SameJobRow job.jobId)) s0 tr t)
    (hstart : s0.pc = Pc.start job)
    (hjob : ∃ j ∈ s0.db.processingData, j.claimed = job ∧ j.status = .indexing)
    (hret : t.pc = .returned) :
    t.db.Terminal job.jobId ↔ ∀ pc ∈ dbFailures tr, ¬pc.IsStatusUpdate := by
  have hown : Owned job tr t.db t.pc := by
    refine hrun.invariant_trace (I := fun tr t => Owned job tr t.db t.pc) ?_ ?_
    · obtain ⟨j, hj, hcl, hs⟩ := hjob
      refine ⟨j, hj, hcl, fun _ => ⟨hs, fun ⟨_, hpc, _⟩ => absurd hpc List.not_mem_nil⟩, fun h => ?_⟩
      rw [hstart] at h
      unfold Pc.start at h
      split at h <;> exact absurd h (by simp)
    · rintro tr ⟨db0, n0, pc⟩ ⟨now, a⟩ ⟨db', n', pc'⟩ - ho ⟨db, hsame, -, -, hstep⟩
      obtain ⟨j, hj, hcl, hr⟩ := ho.row
      have hid : j.id = job.jobId := hcl ▸ rfl
      exact owned_next ⟨j, (hsame j hid).mp hj, hcl, hr⟩ (step_next hstep)
  obtain ⟨j, hj, hcl, -, hend⟩ := hown.row
  have hid : j.id = job.jobId := hcl ▸ rfl
  have hterm : t.db.Terminal job.jobId ↔ (j.status = .ready ∨ j.status = .error) := by
    constructor
    · rintro ⟨j', hj', hid', hs⟩
      exact Table.eq_of_key hj' hj (hid'.trans hid.symm) ▸ hs
    · exact fun hs => ⟨j, hj, hid, hs⟩
  rw [hterm, hend hret]
  exact ⟨fun h pc hpc hu => h ⟨pc, hpc, hu⟩, fun h ⟨pc, hpc, hu⟩ => h pc hpc hu⟩

end Failures

/-- A page arrives whose insert fails; the job is marked as an error. -/
def insertFails : List Event :=
  let t : Int := 10100 * 1000000
  [(t, .signatures (servePage [⟨some 9000, "s1"⟩]) 10100), (t, .dbError), (t, .done [])]

theorem terminal_iff_insertFails :
    letI : External := smallNetwork [[⟨some 9000, "s1"⟩]] []
    ∃ tr t, Run (LocalStep sampleApi sampleJob (Db.SameJobRow 1)) (sampleStart 10100) tr t ∧
      tr.map Prod.snd = insertFails ∧ (dbFailures tr).length = 1 ∧
      (t.db.Terminal 1 ↔ ∀ pc ∈ dbFailures tr, ¬pc.IsStatusUpdate) := by
  let : External := smallNetwork [[⟨some 9000, "s1"⟩]] []
  obtain ⟨tr, t, hrun, hlab, htest⟩ := exists_run_of_exec (localStep sampleApi sampleJob)
    (sampleStart 10100) insertFails
    (fun tr t => t.pc.isReturned && decide ((dbFailures tr).length = 1)) (by decide +kernel)
  simp only [Bool.and_eq_true, decide_eq_true_eq] at htest
  have hrun := hrun.imp (localStep_of_eq (Db.SameJobRow.refl 1))
  exact ⟨tr, t, hrun, hlab, htest.2,
    terminal_iff hrun rfl (sampleDb_job 10100) (Pc.eq_returned htest.1)⟩

/-- An empty page, nothing to process, and the update to ready fails. -/
def readyFails : List Event :=
  let t : Int := 10100 * 1000000
  [(t, .signatures (servePage []) 10100), (t, .done []), (t, .done []), (t, .dbError)]

/-- **One failing call strands a job**: the only database call that fails is the update to ready,
the run returns, and the job is still indexing. -/
theorem stranded_readyFails :
    letI : External := smallNetwork [[]] []
    ∃ tr t, Run (LocalStep sampleApi sampleJob (Db.SameJobRow 1)) (sampleStart 10100) tr t ∧
      tr.map Prod.snd = readyFails ∧ (dbFailures tr).length = 1 ∧ t.pc = .returned ∧
      (∃ j ∈ t.db.processingData, j.id = 1 ∧ j.status = .indexing) ∧ ¬t.db.Terminal 1 := by
  let : External := smallNetwork [[]] []
  obtain ⟨tr, t, hrun, hlab, htest⟩ := exists_run_of_exec (localStep sampleApi sampleJob)
    (sampleStart 10100) readyFails
    (fun tr t => t.pc.isReturned && decide ((dbFailures tr).length = 1) &&
      decide (∃ j ∈ t.db.processingData, j.id = 1 ∧ j.status = .indexing)) (by decide +kernel)
  simp only [Bool.and_eq_true, decide_eq_true_eq] at htest
  obtain ⟨⟨hret, hone⟩, j, hj, hid, hs⟩ := htest
  refine ⟨tr, t, hrun.imp (localStep_of_eq (Db.SameJobRow.refl 1)), hlab, hone,
    Pc.eq_returned hret, ⟨j, hj, hid, hs⟩, ?_⟩
  rintro ⟨j', hj', hid', hs'⟩
  obtain rfl := Table.eq_of_key hj' hj (hid'.trans hid.symm)
  rw [hs] at hs'
  exact absurd hs' (by simp)

end OnChainEventIndexer
