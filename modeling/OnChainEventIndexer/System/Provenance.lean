import OnChainEventIndexer.Db.Columns
import OnChainEventIndexer.Indexer.Outcome
import OnChainEventIndexer.Indexer.Saved
import OnChainEventIndexer.System.Ownership

/-!
# Where the rows come from

The schema declares no foreign key, and nothing is assumed of the RPC here. Still every row comes
from something that came in during the run, and none is without the row it refers to.

* `Sources` is what has come in: jobs through the API, entries and transactions from the RPC.
  `Sys.sources` reads it off a trace.
* `Db.Sourced`: a job was requested; a signature was reported to a job of its owner, and there is
  such a job; a transaction and its transfers were delivered for a signature of the owner; a transfer
  has its transaction; a processed signature has everything its response brought.
* `Holding` is the part of it that a worker carries from one call to the next.
-/

namespace OnChainEventIndexer

open Keyed Lts

/-- What has come in. -/
structure Sources where
  /-- A job for the address, with its limit, its hours and its time of creation. -/
  requested : String → Int16 → Int16 → Int → Prop
  /-- An entry for a job of the address. -/
  reported : String → Signature → Prop
  /-- A transaction for a job of the address, in answer to the request for the signature. -/
  delivered : String → String → TransactionInfo → Prop

/-- More has come in. -/
structure Sources.Le (src src' : Sources) : Prop where
  requested : ∀ a l h t, src.requested a l h t → src'.requested a l h t
  reported : ∀ a e, src.reported a e → src'.reported a e
  delivered : ∀ a s txInfo, src.delivered a s txInfo → src'.delivered a s txInfo

variable {src src' : Sources} {db db' : Db} {address : String}

theorem Db.Le.sigKeys (h : db.Le db') {k : String × String} (hk : k ∈ db.signatures.keys) :
    k ∈ db'.signatures.keys := by
  obtain ⟨r, hr, rfl⟩ := Table.mem_keys.mp hk
  obtain ⟨r', hr', hkey, -⟩ := h.sigs r hr
  exact Table.mem_keys.mpr ⟨r', hr', hkey⟩

theorem Db.Le.txKeys (h : db.Le db') {k : String × String} (hk : k ∈ db.transactions.keys) :
    k ∈ db'.transactions.keys := by
  obtain ⟨r, hr, rfl⟩ := Table.mem_keys.mp hk
  exact Table.key_mem_keys (h.txs r hr)

theorem Db.Le.hasJob (h : db.Le db') (hj : ∃ j ∈ db.processingData, j.address = address) :
    ∃ j ∈ db'.processingData, j.address = address := by
  obtain ⟨j, hj, ha⟩ := hj
  obtain ⟨j', hj', hs⟩ := h.jobs j hj
  exact ⟨j', hj', hs.2.1.trans ha⟩

theorem Sources.Le.refl (src : Sources) : src.Le src :=
  ⟨fun _ _ _ _ h => h, fun _ _ h => h, fun _ _ _ h => h⟩

/-- The transaction came for a signature of the address. -/
def Delivered (src : Sources) (db : Db) (address : String) (txInfo : TransactionInfo) : Prop :=
  ∃ s, src.delivered address s txInfo ∧ (address, s) ∈ db.signatures.keys

theorem Delivered.mono {txInfo : TransactionInfo} (h : Delivered src db address txInfo)
    (hsrc : src.Le src') (hle : db.Le db') : Delivered src' db' address txInfo := by
  obtain ⟨s, hd, hk⟩ := h
  exact ⟨s, hsrc.delivered _ _ _ hd, hle.sigKeys hk⟩

section Network

variable [External]

/-- The response to the request for `s` is saved. -/
def Fulfilled (src : Sources) (db : Db) (address s : String) : Prop :=
  ∃ txInfo, src.delivered address s txInfo ∧
    db.Saved address (TransactionResult.firstSignature txInfo) (computed txInfo)

/-- The signature was on a page for a job of its owner; if it is processed, what was delivered for it
is saved. -/
structure SignatureRow.Sourced (src : Sources) (db : Db) (r : SignatureRow) : Prop where
  reported : src.reported r.ownerAddress ⟨r.blockTime, r.signature⟩
  hasJob : ∃ j ∈ db.processingData, j.address = r.ownerAddress
  fulfilled : r.isProcessed = true → Fulfilled src db r.ownerAddress r.signature

/-- The row is that of a transaction that was delivered. -/
def TransactionRow.Sourced (src : Sources) (db : Db) (x : TransactionRow) : Prop :=
  ∃ txInfo, Delivered src db x.ownerAddress txInfo ∧
    x = transactionRow x.ownerAddress (computed txInfo)

/-- The transfer is one of a transaction that was delivered, and that has its row. -/
structure TokenTransferRow.Sourced (src : Sources) (db : Db) (x : TokenTransferRow) : Prop where
  delivered : ∃ txInfo, Delivered src db x.trackedOwner txInfo ∧
    x ∈ transferRows x.trackedOwner (computed txInfo)
  hasTransaction : (x.trackedOwner, x.signature) ∈ db.transactions.keys

/-- Every row has a source. -/
structure Db.Sourced (src : Sources) (db : Db) : Prop where
  jobs : ∀ j ∈ db.processingData,
    src.requested j.address j.txLimit j.requestedHours j.createdAt
  signatures : ∀ r ∈ db.signatures, r.Sourced src db
  transactions : ∀ x ∈ db.transactions, x.Sourced src db
  transfers : ∀ x ∈ db.tokenTransfers, x.Sourced src db

/-- A batch of responses to requests for signatures of the address. -/
structure BatchSourced (src : Sources) (db : Db) (address : String) (batch : TransactionBatch) :
    Prop where
  transactions : ∀ tx ∈ batch.transactions, ∃ txInfo, Delivered src db address txInfo ∧
    tx = computed txInfo
  processed : ∀ s ∈ batch.processedSignatures, ∃ txInfo, src.delivered address s txInfo ∧
    computed txInfo ∈ batch.transactions

/-- Where what a worker has in hand comes from, and what has been done with it. -/
def Holding (src : Sources) (db : Db) (address : String) : Pc → Prop
  | .writeSignatures page _ => ∀ e ∈ page.response.result, src.reported address e
  | .getTransaction signatures => ∀ s ∈ signatures, (address, s) ∈ db.signatures.keys
  | .writeTransactionInfo batch => BatchSourced src db address batch
  | .writeTokenTransfers batch => BatchSourced src db address batch ∧ ∀ tx ∈ batch.transactions,
      (address, TransactionResult.firstSignature tx.result) ∈ db.transactions.keys
  | .markProcessed batch => ∀ s ∈ batch.processedSignatures, Fulfilled src db address s
  | _ => True

/-! ## What came in stays, and so do the rows -/

theorem Fulfilled.mono {s : String} (h : Fulfilled src db address s) (hsrc : src.Le src')
    (hle : db.Le db') : Fulfilled src' db' address s := by
  obtain ⟨txInfo, hd, hsaved⟩ := h
  exact ⟨txInfo, hsrc.delivered _ _ _ hd, hsaved.mono hle⟩

/-- A row that has been claimed or stayed as it was. -/
theorem SignatureRow.Sourced.later {r r' : SignatureRow} (h : r.Sourced src db) (hr : r.Later r')
    (hback : r'.isProcessed = true → r.isProcessed = true) (hsrc : src.Le src')
    (hle : db.Le db') : r'.Sourced src' db' := by
  obtain ⟨hk, hb, -⟩ := hr
  obtain ⟨ho, hs⟩ := Prod.mk.inj hk
  constructor
  · rw [ho, hs, hb]
    exact hsrc.reported _ _ h.reported
  · rw [ho]
    exact hle.hasJob h.hasJob
  · intro hp
    rw [ho, hs]
    exact (h.fulfilled (hback hp)).mono hsrc hle

theorem TransactionRow.Sourced.mono {x : TransactionRow} (h : x.Sourced src db)
    (hsrc : src.Le src') (hle : db.Le db') : x.Sourced src' db' := by
  obtain ⟨txInfo, hd, he⟩ := h
  exact ⟨txInfo, hd.mono hsrc hle, he⟩

theorem TokenTransferRow.Sourced.mono {x : TokenTransferRow} (h : x.Sourced src db)
    (hsrc : src.Le src') (hle : db.Le db') : x.Sourced src' db' := by
  obtain ⟨txInfo, hd, he⟩ := h.delivered
  exact ⟨⟨txInfo, hd.mono hsrc hle, he⟩, hle.txKeys h.hasTransaction⟩

theorem BatchSourced.mono {batch : TransactionBatch} (h : BatchSourced src db address batch)
    (hsrc : src.Le src') (hle : db.Le db') : BatchSourced src' db' address batch := by
  constructor
  · intro tx htx
    obtain ⟨txInfo, hd, he⟩ := h.transactions tx htx
    exact ⟨txInfo, hd.mono hsrc hle, he⟩
  · intro s hs
    obtain ⟨txInfo, hd, htx⟩ := h.processed s hs
    exact ⟨txInfo, hsrc.delivered _ _ _ hd, htx⟩

theorem Holding.mono {pc : Pc} (h : Holding src db address pc) (hsrc : src.Le src')
    (hle : db.Le db') : Holding src' db' address pc := by
  cases pc with
  | writeSignatures page sum => exact fun e he => hsrc.reported _ _ (h e he)
  | getTransaction signatures => exact fun s hs => hle.sigKeys (h s hs)
  | writeTransactionInfo batch => exact BatchSourced.mono h hsrc hle
  | writeTokenTransfers batch =>
    exact ⟨h.1.mono hsrc hle, fun tx htx => hle.txKeys (h.2 tx htx)⟩
  | markProcessed batch => exact fun s hs => (h s hs).mono hsrc hle
  | _ => trivial

/-- After an error a worker has nothing in hand. -/
theorem holding_afterDbError (src : Sources) (db : Db) (address : String) (pc : Pc) :
    Holding src db address pc.afterDbError := by
  cases pc <;> trivial

/-- Where no row comes in but in `processing_data`. -/
theorem Db.Sourced.of_le (h : db.Sourced src) (hsrc : src.Le src') (hle : db.Le db')
    (hjobs : ∀ j ∈ db'.processingData,
      src'.requested j.address j.txLimit j.requestedHours j.createdAt)
    (hsigs : ∀ r' ∈ db'.signatures, ∃ r ∈ db.signatures, r.Later r' ∧
      (r'.isProcessed = true → r.isProcessed = true))
    (htxs : db'.transactions = db.transactions)
    (htransfers : db'.tokenTransfers = db.tokenTransfers) : db'.Sourced src' := by
  refine ⟨hjobs, fun r' hr' => ?_, fun x hx => ?_, fun x hx => ?_⟩
  · obtain ⟨r, hr, hlater, hback⟩ := hsigs r' hr'
    exact (h.signatures r hr).later hlater hback hsrc hle
  · exact (h.transactions x (htxs ▸ hx)).mono hsrc hle
  · exact (h.transfers x (htransfers ▸ hx)).mono hsrc hle

/-- A job keeps what was requested. -/
theorem Db.Sourced.requested (h : db.Sourced src) {j j' : ProcessingData}
    (hj : j ∈ db.processingData) (hs : j.SameJob j') :
    src.requested j'.address j'.txLimit j'.requestedHours j'.createdAt := by
  obtain ⟨-, ha, hc, hl, hh⟩ := hs
  rw [ha, hc, hl, hh]
  exact h.jobs j hj

/-! ## One write -/

section Writes

variable (h : db.Sourced src)

include h

theorem Db.Sourced.writeSignatures {signatures : RpcResponse}
    (hreported : ∀ e ∈ signatures.result, src.reported address e)
    (hjob : ∃ j ∈ db.processingData, j.address = address) :
    (db.writeSignatures signatures address).2.Sourced src := by
  have hle := Db.le_writeSignatures db signatures address
  refine ⟨by simpa using h.jobs, fun r hr => ?_, fun x hx => ?_, fun x hx => ?_⟩
  · rcases Db.write_cases hr with hr | ⟨e, he, rfl⟩
    · exact (h.signatures r hr).later (.refl r) id (.refl src) hle
    · exact ⟨hreported e he, hle.hasJob hjob, fun hp => absurd hp (by simp [Db.signatureRow])⟩
  · rw [Db.writeSignatures_transactions] at hx
    exact (h.transactions x hx).mono (.refl src) hle
  · rw [Db.writeSignatures_tokenTransfers] at hx
    exact (h.transfers x hx).mono (.refl src) hle

theorem Db.Sourced.writeTransactionInfo {batch : TransactionBatch}
    (hb : BatchSourced src db address batch) :
    (db.writeTransactionInfo batch.transactions address).2.Sourced src := by
  have hle := Db.le_writeTransactionInfo db batch.transactions address
  refine ⟨by simpa using h.jobs, fun r hr => ?_, fun x hx => ?_, fun x hx => ?_⟩
  · rw [Db.writeTransactionInfo_signatures] at hr
    exact (h.signatures r hr).later (.refl r) id (.refl src) hle
  · rw [Db.writeTransactionInfo_transactions] at hx
    rcases Table.of_mem_insertAll hx with hx | ⟨hx, -⟩
    · exact (h.transactions x hx).mono (.refl src) hle
    · obtain ⟨tx, htx, rfl⟩ := List.mem_map.mp hx
      obtain ⟨txInfo, hd, rfl⟩ := hb.transactions tx htx
      exact ⟨txInfo, hd.mono (.refl src) hle, rfl⟩
  · rw [Db.writeTransactionInfo_tokenTransfers] at hx
    exact (h.transfers x hx).mono (.refl src) hle

theorem Db.Sourced.writeTokenTransfers {batch : TransactionBatch}
    (hb : BatchSourced src db address batch) (hwritten : ∀ tx ∈ batch.transactions,
      (address, TransactionResult.firstSignature tx.result) ∈ db.transactions.keys) :
    (db.writeTokenTransfers batch.transactions address).2.Sourced src := by
  have hle := Db.le_writeTokenTransfers db batch.transactions address
  refine ⟨by simpa using h.jobs, fun r hr => ?_, fun x hx => ?_, fun x hx => ?_⟩
  · rw [Db.writeTokenTransfers_signatures] at hr
    exact (h.signatures r hr).later (.refl r) id (.refl src) hle
  · rw [Db.writeTokenTransfers_transactions] at hx
    exact (h.transactions x hx).mono (.refl src) hle
  · rw [Db.writeTokenTransfers_tokenTransfers] at hx
    rcases Table.of_mem_insertAll hx with hx | ⟨hx, -⟩
    · exact (h.transfers x hx).mono (.refl src) hle
    · obtain ⟨tx, htx, hx⟩ := List.mem_flatMap.mp hx
      obtain ⟨txInfo, hd, rfl⟩ := hb.transactions tx htx
      have hkey := hwritten _ htx
      rw [← mem_transferRows_signature hx] at hkey
      obtain rfl := Db.transferRows_owner hx
      exact ⟨⟨txInfo, hd.mono (.refl src) hle, hx⟩, hle.txKeys hkey⟩

theorem Db.Sourced.markSignaturesProcessed {signatures : List String}
    (hfulfilled : ∀ s ∈ signatures, Fulfilled src db address s) :
    (db.markSignaturesProcessed address signatures).2.Sourced src := by
  have hle := Db.le_markSignaturesProcessed db address signatures
  refine ⟨by simpa using h.jobs, fun x hx => ?_, fun x hx => ?_, fun x hx => ?_⟩
  · rcases Db.mark_cases hx with hx | ⟨r, hr, rfl, hs, rfl⟩
    · exact (h.signatures x hx).later (.refl x) id (.refl src) hle
    · exact ⟨(h.signatures r hr).reported, hle.hasJob (h.signatures r hr).hasJob,
        fun _ => (hfulfilled _ hs).mono (.refl src) hle⟩
  · rw [Db.markSignaturesProcessed_transactions] at hx
    exact (h.transactions x hx).mono (.refl src) hle
  · rw [Db.markSignaturesProcessed_tokenTransfers] at hx
    exact (h.transfers x hx).mono (.refl src) hle

end Writes

/-! ## One call -/

/-- What the answer to a call brings has come in. -/
structure Brings (api : HeliusApi) (job : ClaimedJob) (pc : Pc) (a : Answer) (src : Sources) :
    Prop where
  entries : ∀ cur sum reply nowTs, pc = .fetchPage cur sum → a = .signatures reply nowTs →
    ∀ k result, signaturesOf (reply k) = some result → ∀ e ∈ result, ∀ ts ∈ e.blockTime,
      cutoffTs job.requestedHours nowTs ≤ ts → src.reported job.address e
  transactions : ∀ signatures reply, pc = .getTransaction signatures → a = .transactions reply →
    ∀ s txInfo, Accepted api reply signatures s txInfo → src.delivered job.address s txInfo

variable {api : HeliusApi} {job : ClaimedJob} {now : Int} {pc pc' : Pc} {a : Answer}

/-- The batch of whatever answers there are. -/
theorem batchSourced_fetched {signatures : List String} {reply : Nat → Replies}
    {batch : TransactionBatch} (hget : getTransaction api reply signatures = some batch)
    (hb : Brings api job (.getTransaction signatures) (.transactions reply) src)
    (h : Holding src db job.address (.getTransaction signatures)) :
    BatchSourced src db job.address batch := by
  obtain ⟨hprocessed, htxs⟩ := batch_accepted hget
  constructor
  · intro tx htx
    obtain ⟨s, txInfo, hacc, he⟩ := (htxs tx).mp htx
    obtain ⟨i, hi, -⟩ := id hacc
    exact ⟨txInfo, ⟨s, hb.transactions _ _ rfl rfl s txInfo hacc,
      h s (List.fst_mem_of_mem_zipIdx hi)⟩, he⟩
  · intro s hs
    obtain ⟨txInfo, hacc⟩ := (hprocessed s).mp hs
    exact ⟨txInfo, hb.transactions _ _ rfl rfl s txInfo hacc, (htxs _).mpr ⟨s, txInfo, hacc, rfl⟩⟩

/-- **The step lemma** for one call of a run. -/
theorem sourced_next (hdb : db.Sourced src) (hhand : Holding src db job.address pc)
    (hjob : ∃ j ∈ db.processingData, j.address = job.address) (hb : Brings api job pc a src)
    (hn : Next api job now db pc a db' pc') :
    db'.Sourced src ∧ Holding src db' job.address pc' := by
  have hle := hn.le
  have hsigs : db'.signatures = db.signatures → ∀ r' ∈ db'.signatures,
      ∃ r ∈ db.signatures, r.Later r' ∧ (r'.isProcessed = true → r.isProcessed = true) :=
    fun he r' hr' => ⟨r', he ▸ hr', .refl r', id⟩
  have hupdated : ∀ {status}, db' = (db.updateProcessingStatusByJobId job.jobId status now).2 →
      db'.Sourced src := by
    rintro status rfl
    refine hdb.of_le (.refl src) hle (fun j' hj' => ?_) (hsigs rfl) rfl rfl
    obtain ⟨j, hj, rfl⟩ := Db.mem_updateStatus.mp hj'
    refine hdb.requested hj ?_
    split
    · exact Db.statusSet_sameJob _ _ _
    · exact .refl j
  have hclaimed : ∀ {chosen}, db' = (db.getUnprocessedSignatures job.address now chosen).2 →
      db'.Sourced src := by
    rintro chosen rfl
    refine hdb.of_le (.refl src) hle hdb.jobs (fun r' hr' => ?_) rfl rfl
    obtain ⟨r, hr, rfl⟩ := Db.mem_getUnprocessedSignatures.mp hr'
    refine ⟨r, hr, ?_⟩
    split
    · exact ⟨⟨rfl, rfl, id⟩, id⟩
    · exact ⟨.refl r, id⟩
  cases hn with
  | pageFetched h =>
    refine ⟨hdb, fun e he => ?_⟩
    obtain ⟨k, result, hres, rfl⟩ := getSignatures_ok h
    obtain ⟨hmem, ts, hts, hcut⟩ := mem_takeRecent he
    exact hb.entries _ _ _ _ rfl rfl k result hres e hmem ts hts hcut
  | pageFailed h => exact ⟨hdb, trivial⟩
  | @signaturesWritten page sum chosen =>
    refine ⟨hdb.writeSignatures hhand hjob, ?_⟩
    unfold Pc.afterPage
    split <;> trivial
  | nothingClaimed h => exact ⟨hclaimed rfl, trivial⟩
  | @batchClaimed chosen h hne =>
    refine ⟨hclaimed rfl, fun s hs => hle.sigKeys ?_⟩
    obtain ⟨r, hr, hc, rfl⟩ := Db.mem_claimableSignatures.mp (h.2.1 s hs)
    obtain ⟨ha, -, -⟩ := SignatureRow.claimable_eq_true.mp hc
    exact Table.mem_keys.mpr ⟨r, hr, Prod.ext ha rfl⟩
  | batchFetched h => exact ⟨hdb, batchSourced_fetched h hb hhand⟩
  | batchPanicked h => exact ⟨hdb, trivial⟩
  | @infoWritten batch chosen =>
    refine ⟨hdb.writeTransactionInfo hhand, hhand.mono (.refl src) hle, fun tx htx => ?_⟩
    rw [Db.writeTransactionInfo_transactions]
    exact Table.mem_keys_insertAll.mpr (Or.inr ⟨_, List.mem_map_of_mem htx, rfl⟩)
  | @transfersWritten batch chosen =>
    refine ⟨hdb.writeTokenTransfers hhand.1 hhand.2, fun s hs => ?_⟩
    obtain ⟨txInfo, hd, htx⟩ := hhand.1.processed s hs
    refine ⟨txInfo, hd, hle.txKeys (hhand.2 _ htx), fun x hx => ?_⟩
    rw [Db.writeTokenTransfers_tokenTransfers]
    obtain ⟨y, hy, rfl⟩ := Table.exists_mem_insertAll (t := db.tokenTransfers)
      (List.mem_flatMap.mpr ⟨_, htx, hx⟩)
    exact hy
  | @batchMarked batch chosen =>
    refine ⟨hdb.markSignaturesProcessed hhand, ?_⟩
    unfold Pc.afterBatch
    split <;> trivial
  | readyUpdated h => exact ⟨hupdated rfl, trivial⟩
  | readyBlocked h => exact ⟨hupdated rfl, trivial⟩
  | errorUpdated => exact ⟨hupdated rfl, trivial⟩
  | @dbFailed pc hi => exact ⟨hdb, holding_afterDbError src db job.address pc⟩

/-! ## Runs -/

namespace Sys

/-- The job is created in the step, whether the client learns of it or not. -/
inductive Creates (address : String) (txLimit requestedHours : Int16) (createdAt : Int) :
    Sys × Act → Prop
  | create {s : Sys} {a : Act} (h : s.now = createdAt)
      (ha : a = .create address txLimit requestedHours ∨
        a = .createLost address txLimit requestedHours) :
      Creates address txLimit requestedHours createdAt (s, a)

/-- A page that answers a job of the address has the entry, not older than the job's hours. -/
inductive Reports (address : String) (e : Signature) : Sys × Act → Prop
  | page {s : Sys} {w : Nat} {job : ClaimedJob} {cur : Option String} {sum : Nat} {reply : Replies}
      {nowTs : Int} {k : Nat} {result : List Signature} {ts : Int}
      (hw : s.workers w = .running job (.fetchPage cur sum)) (ha : job.address = address)
      (hres : signaturesOf (reply k) = some result) (he : e ∈ result) (hts : ts ∈ e.blockTime)
      (hcut : cutoffTs job.requestedHours nowTs ≤ ts) :
      Reports address e (s, .call w (.signatures reply nowTs))

/-- The request of a job of the address for `s` is answered with the transaction. -/
inductive Delivers (api : HeliusApi) (address s : String) (txInfo : TransactionInfo) :
    Sys × Act → Prop
  | batch {t : Sys} {w : Nat} {job : ClaimedJob} {signatures : List String} {reply : Nat → Replies}
      (hw : t.workers w = .running job (.getTransaction signatures)) (ha : job.address = address)
      (h : Accepted api reply signatures s txInfo) :
      Delivers api address s txInfo (t, .call w (.transactions reply))

/-- What has come in during a run. -/
def sources (api : HeliusApi) (tr : List (Sys × Act)) : Sources where
  requested address txLimit requestedHours createdAt :=
    ∃ x ∈ tr, Creates address txLimit requestedHours createdAt x
  reported address e := ∃ x ∈ tr, Reports address e x
  delivered address s txInfo := ∃ x ∈ tr, Delivers api address s txInfo x

theorem sources_le (api : HeliusApi) (tr l : List (Sys × Act)) :
    (sources api tr).Le (sources api (tr ++ l)) := by
  constructor
  · rintro _ _ _ _ ⟨x, hx, h⟩
    exact ⟨x, List.mem_append_left _ hx, h⟩
  · rintro _ _ ⟨x, hx, h⟩
    exact ⟨x, List.mem_append_left _ hx, h⟩
  · rintro _ _ _ ⟨x, hx, h⟩
    exact ⟨x, List.mem_append_left _ hx, h⟩

/-- The invariant. -/
structure Sourced (src : Sources) (s : Sys) : Prop where
  rows : s.db.Sourced src
  hands : ∀ w job pc, s.workers w = .running job pc → Holding src s.db job.address pc

variable {s s' : Sys} {a : Act}

/-- The step at the end of a trace brings what it brings. -/
theorem brings_sources (api : HeliusApi) (tr : List (Sys × Act)) {w : Nat} {answer : Answer}
    (hw : s.workers w = .running job pc) :
    Brings api job pc answer (sources api (tr ++ [(s, .call w answer)])) := by
  have hlast : ∀ x : Sys × Act, x ∈ tr ++ [x] := fun x => List.mem_append_right _ (by simp)
  constructor
  · rintro cur sum reply nowTs rfl rfl k result hres e he ts hts hcut
    exact ⟨_, hlast _, .page hw rfl hres he hts hcut⟩
  · rintro signatures reply rfl rfl s' txInfo hacc
    exact ⟨_, hlast _, .batch hw rfl hacc⟩

/-- **The step lemma.** -/
theorem sourced_step {tr : List (Sys × Act)} (hassigned : Assigned s)
    (h : Sourced (sources api tr) s) (hn : Next api s a s') :
    Sourced (sources api (tr ++ [(s, a)])) s' := by
  have hsrc := sources_le api tr [(s, a)]
  have hle := hn.le
  have hrows : ∀ {db' : Db}, s.db.Le db' → (∀ j' ∈ db'.processingData, ∃ j ∈ s.db.processingData,
      j.SameJob j') → db'.signatures = s.db.signatures → db'.transactions = s.db.transactions →
      db'.tokenTransfers = s.db.tokenTransfers → db'.Sourced (sources api (tr ++ [(s, a)])) := by
    intro db' hle hjobs hsigs htxs htransfers
    refine h.rows.of_le hsrc hle (fun j' hj' => ?_) (fun r hr => ⟨r, hsigs ▸ hr, .refl r, id⟩)
      htxs htransfers
    obtain ⟨j, hj, hs⟩ := hjobs j' hj'
    exact hsrc.requested _ _ _ _ (h.rows.requested hj hs)
  have hhands : ∀ v job pc, s.workers v = .running job pc →
      Holding (sources api (tr ++ [(s, a)])) s'.db job.address pc :=
    fun v job pc hv => (h.hands v job pc hv).mono hsrc hle
  have hsame := hrows (.refl s.db) (fun j hj => ⟨j, hj, .refl j⟩) rfl rfl rfl
  cases hn with
  | ticked => exact ⟨hsame, hhands⟩
  | @created a address txLimit requestedHours ha =>
    refine ⟨h.rows.of_le hsrc hle (fun j hj => ?_) (fun r hr => ⟨r, hr, .refl r, id⟩) rfl rfl, hhands⟩
    rcases Db.mem_createProcessingJob.mp hj with hj | rfl
    · exact hsrc.requested _ _ _ _ (h.rows.jobs j hj)
    · exact ⟨_, List.mem_append_right _ (List.mem_singleton_self _), .create rfl ha⟩
  | foundNothing hw => exact ⟨hsame, hhands⟩
  | @claimed w a j j' ha hw hj hp hset =>
    refine ⟨hrows hle (fun x hx => ?_) rfl rfl rfl, fun v job pc hv => ?_⟩
    · rcases Db.mem_setJob.mp hx with ⟨hx, -⟩ | ⟨rfl, -⟩
      · exact ⟨x, hx, .refl x⟩
      · exact ⟨j, hj, Db.claimSet_sameJob hset⟩
    · rcases setWorker_running.mp hv with ⟨-, hr⟩ | ⟨-, hv⟩
      · obtain ⟨rfl, rfl, -⟩ := Worker.after_eq_running hr
        unfold Pc.start
        split <;> trivial
      · exact hhands v job pc hv
  | @lostClaim w j j' hw hj hp hset =>
    refine ⟨hrows hle (fun x hx => ?_) rfl rfl rfl, hhands⟩
    rcases Db.mem_setJob.mp hx with ⟨hx, -⟩ | ⟨rfl, -⟩
    · exact ⟨x, hx, .refl x⟩
    · exact ⟨j, hj, Db.claimSet_sameJob hset⟩
  | @called w answer job pc db' pc' hw hn =>
    obtain ⟨j, hj, hcl, -⟩ := hassigned.indexing w job pc hw
    obtain ⟨hdb, hhand⟩ := sourced_next hsame ((h.hands w job pc hw).mono hsrc (.refl s.db))
      ⟨j, hj, congrArg ClaimedJob.address hcl⟩ (brings_sources api tr hw) hn
    refine ⟨hdb, fun v job' p hv => ?_⟩
    rcases setWorker_running.mp hv with ⟨-, hr⟩ | ⟨-, hv⟩
    · obtain ⟨rfl, rfl, -⟩ := Worker.after_eq_running hr
      exact hhand
    · exact hhands v job' p hv
  | @lostCall w chosen job pc db' pc' hw hi hn =>
    obtain ⟨j, hj, hcl, -⟩ := hassigned.indexing w job pc hw
    -- a statement brings nothing in
    have hbrings : Brings api job pc (.done chosen)
        (sources api (tr ++ [(s, .callLost w chosen)])) :=
      ⟨fun _ _ _ _ _ ha => absurd ha (by simp), fun _ _ _ ha => absurd ha (by simp)⟩
    obtain ⟨hdb, -⟩ := sourced_next hsame ((h.hands w job pc hw).mono hsrc (.refl s.db))
      ⟨j, hj, congrArg ClaimedJob.address hcl⟩ hbrings hn
    refine ⟨hdb, fun v job' p hv => ?_⟩
    rcases setWorker_running.mp hv with ⟨-, hr⟩ | ⟨-, hv⟩
    · obtain ⟨rfl, rfl, -⟩ := Worker.after_eq_running hr
      exact holding_afterDbError _ db' job'.address pc
    · exact hhands v job' p hv
  | crashed hw =>
    refine ⟨hsame, fun v job pc hv => ?_⟩
    rcases setWorker_running.mp hv with ⟨-, hr⟩ | ⟨-, hv⟩
    · exact absurd hr (by simp)
    · exact hhands v job pc hv
  | restarted hw =>
    refine ⟨hsame, fun v job pc hv => ?_⟩
    rcases setWorker_running.mp hv with ⟨-, hr⟩ | ⟨-, hv⟩
    · exact absurd hr (by simp)
    · exact hhands v job pc hv

/-- **The run lemma.** -/
theorem sourced_run {now : Int} {tr : List (Sys × Act)} (hrun : Run (Step api) (Sys.init now) tr s) :
    Sourced (sources api tr) s := by
  have hinv := hrun.invariant_trace (I := fun tr s => Assigned s ∧ Sourced (sources api tr) s)
    ⟨assigned_init now, ?_, ?_⟩ fun tr t a u _ h hs => ?_
  · exact hinv.2
  · exact ⟨fun j hj => absurd hj (Table.not_mem_empty j), fun r hr =>
      absurd hr (Table.not_mem_empty r),
      fun x hx => absurd hx (Table.not_mem_empty x), fun x hx => absurd hx (Table.not_mem_empty x)⟩
  · exact fun _ _ _ h => absurd h (by simp [Sys.init])
  · exact ⟨assigned_step h.1 (step_next hs), sourced_step h.1 h.2 (step_next hs)⟩

/-- **Every row comes from something that came in**, in every state of every run, whatever the RPC
answers: a job from a request, a signature from a page that a job of its owner got, a transaction and
its transfers from a response to such a job; and none is without the rows it refers to. -/
theorem rows_sourced {now : Int} {tr : List (Sys × Act)}
    (hrun : Run (Step api) (Sys.init now) tr s) : s.db.Sourced (sources api tr) :=
  (sourced_run hrun).rows

end Sys

end Network

namespace Sys

/-- The request for `"s1"` is answered with the transaction of `"s2"`. -/
def misdelivered : List Act :=
  [.create "A" 10 1, .claim 1, .call 1 (.signatures (servePage [⟨some 9000, "s1"⟩]) 10100),
    .call 1 (.done []), .call 1 (.done ["s1"]),
    .call 1 (.transactions fun _ => serveTransaction "s2"),
    .call 1 (.done []), .call 1 (.done []), .call 1 (.done [])]

theorem rows_sourced_misdelivered :
    letI : External := smallNetwork [[⟨some 9000, "s1"⟩]] ["s1", "s2"]
    ∃ tr t, Run (Step sampleApi) (Sys.init 10100000000) tr t ∧ tr.map Prod.snd = misdelivered ∧
      ("A", "s2") ∈ t.db.transactions.keys ∧ t.db.Sourced (sources sampleApi tr) := by
  let : External := smallNetwork [[⟨some 9000, "s1"⟩]] ["s1", "s2"]
  obtain ⟨tr, t, hrun, hlab, htest⟩ := exists_run_of_exec (step sampleApi) (Sys.init 10100000000)
    misdelivered (fun _ t => decide (("A", "s2") ∈ t.db.transactions.keys)) (by decide +kernel)
  exact ⟨tr, t, hrun, hlab, of_decide_eq_true htest, rows_sourced hrun⟩

section Columns

variable [External] {api : HeliusApi} {s : Sys}

/-- What a worker is about to write has come from responses. -/
theorem Sourced.batch {src : Sources} (h : Sourced src s) {w : Nat} {job : ClaimedJob}
    {batch : TransactionBatch} (hw : s.workers w = .running job (.writeTransactionInfo batch) ∨
      s.workers w = .running job (.writeTokenTransfers batch)) :
    BatchSourced src s.db job.address batch := by
  rcases hw with hw | hw
  · exact h.hands w job _ hw
  · exact (h.hands w job _ hw).1

/-- **No number is refused**, in any state of any run, whatever the RPC answers: the rows that a
worker is about to insert fit their columns, the transfers are of one of the two kinds, and so are
the rows that are stored. -/
theorem rows_wellFormed {now : Int} {tr : List (Sys × Act)}
    (hrun : Run (Step api) (Sys.init now) tr s) :
    ((∀ x ∈ s.db.transactions, x.Fits) ∧ ∀ x ∈ s.db.tokenTransfers, x.WellFormed) ∧
      ∀ w job batch, s.workers w = .running job (.writeTransactionInfo batch) ∨
        s.workers w = .running job (.writeTokenTransfers batch) → ∀ tx ∈ batch.transactions,
          (transactionRow job.address tx).Fits ∧ ∀ x ∈ transferRows job.address tx, x.WellFormed := by
  have h := sourced_run hrun
  refine ⟨⟨fun x hx => ?_, fun x hx => ?_⟩, fun w job batch hw tx htx => ?_⟩
  · obtain ⟨txInfo, -, he⟩ := h.rows.transactions x hx
    rw [he]
    exact transactionRow_fits _ _
  · obtain ⟨txInfo, -, hmem⟩ := (h.rows.transfers x hx).delivered
    exact transferRows_wellFormed hmem
  · obtain ⟨txInfo, -, rfl⟩ := (h.batch hw).transactions tx htx
    exact ⟨transactionRow_fits _ _, fun x hx => transferRows_wellFormed hx⟩

end Columns

theorem rows_wellFormed_misdelivered :
    letI : External := smallNetwork [[⟨some 9000, "s1"⟩]] ["s1", "s2"]
    ∃ tr t, Run (Step sampleApi) (Sys.init 10100000000) tr t ∧ tr.map Prod.snd = misdelivered ∧
      (∃ x ∈ t.db.tokenTransfers, x.signature = "s2") ∧ ∀ x ∈ t.db.tokenTransfers, x.WellFormed := by
  let : External := smallNetwork [[⟨some 9000, "s1"⟩]] ["s1", "s2"]
  obtain ⟨tr, t, hrun, hlab, htest⟩ := exists_run_of_exec (step sampleApi) (Sys.init 10100000000)
    misdelivered (fun _ t => decide (∃ x ∈ t.db.tokenTransfers, x.signature = "s2"))
    (by decide +kernel)
  exact ⟨tr, t, hrun, hlab, of_decide_eq_true htest, (rows_wellFormed hrun).1.2⟩

end Sys

end OnChainEventIndexer
