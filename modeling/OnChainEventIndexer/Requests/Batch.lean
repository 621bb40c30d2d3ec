import OnChainEventIndexer.Lib.Buffered
import OnChainEventIndexer.Requests.Client

/-!
# Batches under any schedule

`get_transaction` once more, with the requests of a chunk run concurrently: `buffered(5)` is a
schedule of `Lib/Buffered.lean`, and what each request comes to is the outcome of its own loop.

* `batchRun_iff`: every schedule returns what `getTransaction` computes, one request after the
  other.
* `batch_partition`: the batch splits the request, its four lists are aligned. A warning masks the
  first signature of a chunk that failed, and `mask_addr` panics for some: the batch is the
  concatenation of those of the single signatures, whatever the chunks, where no warning panics.
-/

namespace OnChainEventIndexer

open Lts

/-- Two batches, one after the other. -/
def TransactionBatch.append (b b' : TransactionBatch) : TransactionBatch :=
  { transactions := b.transactions ++ b'.transactions
    processedSignatures := b.processedSignatures ++ b'.processedSignatures
    failedSignatures := b.failedSignatures ++ b'.failedSignatures
    errors := b.errors ++ b'.errors }

/-- Batches one after the other. -/
def TransactionBatch.concat : List TransactionBatch → TransactionBatch
  | [] => .empty
  | b :: bs => b.append (concat bs)

section Network

variable [External]

/-- A request of the batch, a signature and its position, comes to outcome `o`. -/
def Outcome (api : HeliusApi) (reply : Nat → Replies) (p : String × Nat)
    (o : TransactionFetchOutcome) : Prop :=
  fetchTransactionBySignature api p.1 (reply p.2) = some o

/-- `fetch_transaction_chunk`, under some schedule. -/
def ChunkRun (api : HeliusApi) (reply : Nat → Replies) (signatures : List (String × Nat))
    (chunk : TransactionBatch) : Prop :=
  ∃ tr t, Run (Buffered.Step 5 (Outcome api reply)) (Buffered.init signatures) tr t ∧ t.Finished ∧
    chunk = t.yielded.foldl TransactionFetchOutcome.push .empty ∧
    chunk.warnFirstError api = some ()

/-- `total_batch` after a chunk. -/
def TransactionBatch.appendChunk (totalBatch chunk : TransactionBatch) : TransactionBatch :=
  { transactions := totalBatch.transactions ++ chunk.transactions.map (·.calculateTokenTransfer)
    processedSignatures := totalBatch.processedSignatures ++ chunk.processedSignatures
    failedSignatures := totalBatch.failedSignatures ++ chunk.failedSignatures
    errors := totalBatch.errors ++ chunk.errors }

/-- The loop of `get_transaction` over its chunks, each under some schedule. -/
inductive LoopRun (api : HeliusApi) (reply : Nat → Replies) :
    TransactionBatch → List (List (String × Nat)) → TransactionBatch → Prop
  | nil (totalBatch : TransactionBatch) : LoopRun api reply totalBatch [] totalBatch
  | cons {totalBatch chunk b : TransactionBatch} {signatures : List (String × Nat)}
      {rest : List (List (String × Nat))} (hc : ChunkRun api reply signatures chunk)
      (hr : LoopRun api reply (totalBatch.appendChunk chunk) rest b) :
      LoopRun api reply totalBatch (signatures :: rest) b

/-- `get_transaction`, under some schedule. -/
def BatchRun (api : HeliusApi) (reply : Nat → Replies) (signatures : List String)
    (b : TransactionBatch) : Prop :=
  LoopRun api reply .empty (chunks 10 signatures.length signatures.zipIdx) b ∧
    b.warnFirstError api = some ()

variable {api : HeliusApi} {reply : Nat → Replies}

/-! ## The schedule does not matter -/

theorem fetchAll_eq_some {signatures : List (String × Nat)}
    {outcomes : List TransactionFetchOutcome} :
    fetchAll api reply signatures = some outcomes ↔
      List.Forall₂ (Outcome api reply) signatures outcomes := by
  refine ⟨fetchAll_forall₂, fun h => ?_⟩
  induction h with
  | nil => rfl
  | cons hp _ ih =>
    unfold fetchAll Outcome at *
    rw [List.mapM_cons, ih]
    simp only [hp]
    rfl

theorem chunkRun_iff {signatures : List (String × Nat)} {chunk : TransactionBatch} :
    ChunkRun api reply signatures chunk ↔
      fetchTransactionChunk api reply signatures = some chunk := by
  have hchunk : fetchTransactionChunk api reply signatures =
      (fetchAll api reply signatures).bind fun os =>
        let batch := os.foldl TransactionFetchOutcome.push .empty
        (batch.warnFirstError api).map fun _ => batch := rfl
  rw [hchunk]
  constructor
  · rintro ⟨tr, t, hrun, hf, rfl, hwarn⟩
    rw [fetchAll_eq_some.mpr (Buffered.outputs_in_order hrun hf), Option.bind_some]
    simp only [hwarn, Option.map_some]
  · intro h
    obtain ⟨os, hos, h⟩ := Option.bind_eq_some_iff.mp h
    obtain ⟨_, hwarn, rfl⟩ := Option.map_eq_some_iff.mp h
    obtain ⟨tr, t, hrun, hf, rfl⟩ :=
      Buffered.exists_schedule (n := 5) (by decide) (fetchAll_eq_some.mp hos)
    exact ⟨tr, t, hrun, hf, rfl, hwarn⟩

theorem loopRun_iff {css : List (List (String × Nat))} {totalBatch b : TransactionBatch} :
    LoopRun api reply totalBatch css b ↔ getTransactionLoop api reply totalBatch css = some b := by
  constructor
  · intro h
    induction h with
    | nil totalBatch => rfl
    | cons hc _ ih =>
      simp only [getTransactionLoop, chunkRun_iff.mp hc, Option.bind_some]
      exact ih
  · intro h
    induction css generalizing totalBatch with
    | nil =>
      obtain rfl := Option.some.inj h
      exact .nil _
    | cons cs css ih =>
      simp only [getTransactionLoop] at h
      obtain ⟨chunk, hchunk, h⟩ := Option.bind_eq_some_iff.mp h
      exact .cons (chunkRun_iff.mpr hchunk) (ih h)

/-- **Every schedule returns the same batch.** -/
theorem batchRun_iff {signatures : List String} {b : TransactionBatch} :
    BatchRun api reply signatures b ↔ getTransaction api reply signatures = some b := by
  unfold BatchRun getTransaction
  rw [loopRun_iff, Option.bind_eq_some_iff]
  constructor
  · rintro ⟨hloop, hwarn⟩
    exact ⟨b, hloop, by rw [hwarn]; rfl⟩
  · rintro ⟨total, hloop, h⟩
    obtain ⟨_, hwarn, rfl⟩ := Option.map_eq_some_iff.mp h
    exact ⟨hloop, hwarn⟩

/-! ## The batch of a list of outcomes -/

theorem batchOf_cons (o : TransactionFetchOutcome) (os : List TransactionFetchOutcome) :
    batchOf (o :: os) = (batchOf [o]).append (batchOf os) := by
  cases o <;> rfl

/-- A batch of any chunks is that of the outcomes of its requests. -/
theorem loopRun_batchOf {css : List (List (String × Nat))} {b : TransactionBatch}
    (h : LoopRun api reply .empty css b) :
    ∃ outcomes, List.Forall₂ (Outcome api reply) css.flatten outcomes ∧ b = batchOf outcomes := by
  obtain ⟨outcomes, ho, rfl⟩ := getTransactionLoop_eq (loopRun_iff.mp h)
  exact ⟨outcomes, fetchAll_eq_some.mp ho, by simp [TransactionBatch.empty]⟩

theorem outcomes_unique {requests : List (String × Nat)} {os os' : List TransactionFetchOutcome}
    (h : List.Forall₂ (Outcome api reply) requests os)
    (h' : List.Forall₂ (Outcome api reply) requests os') : os = os' := by
  rw [← fetchAll_eq_some] at h h'
  exact Option.some.inj (h.symm.trans h')

/-- The transaction is decoded from a response to the request, and its transfers are computed. -/
def Decoded (reply : Nat → Replies) (p : String × Nat) (tx : TransactionResult) : Prop :=
  ∃ k txInfo status, tryFetchTransactionOnce p.1 (reply p.2 k) = .success txInfo status ∧
    tx = (⟨txInfo, []⟩ : TransactionResult).calculateTokenTransfer

/-- The request failed with this error, which names its signature. -/
def Failed (api : HeliusApi) (reply : Nat → Replies) (p : String × Nat)
    (error : TransactionFetchError) : Prop :=
  Outcome api reply p (.failed error) ∧ error.signature = p.1

/-- A batch partitions its requests: those that succeeded and those that failed, both in the order
of the request, each with what it came to. -/
structure Partition (api : HeliusApi) (reply : Nat → Replies) (requests : List (String × Nat))
    (b : TransactionBatch) (ok failed : List (String × Nat)) : Prop where
  okInOrder : ok.Sublist requests
  failedInOrder : failed.Sublist requests
  once : (ok ++ failed).Perm requests
  processed : b.processedSignatures = ok.map Prod.fst
  unprocessed : b.failedSignatures = failed.map Prod.fst
  transactions : List.Forall₂ (Decoded reply) ok b.transactions
  errors : List.Forall₂ (Failed api reply) failed b.errors

/-- **One more request** goes to one side of the partition. -/
theorem partition_batchOf {requests : List (String × Nat)}
    {outcomes : List TransactionFetchOutcome}
    (h : List.Forall₂ (Outcome api reply) requests outcomes) :
    ∃ ok failed, Partition api reply requests (batchOf outcomes) ok failed := by
  induction h with
  | nil => exact ⟨[], [], .slnil, .slnil, .refl [], rfl, rfl, .nil, .nil⟩
  | @cons p o ps os hp _ ih =>
    obtain ⟨ok, failed, h⟩ := ih
    rcases fetchTransactionBySignature_spec hp with ⟨k, txInfo, status, hk, rfl⟩ | ⟨e, hsig, rfl⟩
    · exact ⟨p :: ok, failed, h.okInOrder.cons_cons p, h.failedInOrder.cons p, h.once.cons p,
        congrArg (p.1 :: ·) h.processed, h.unprocessed,
        .cons ⟨k, txInfo, status, hk, rfl⟩ h.transactions, h.errors⟩
    · refine ⟨ok, p :: failed, h.okInOrder.cons p, h.failedInOrder.cons_cons p,
        List.perm_middle.trans (h.once.cons p), h.processed, ?_, h.transactions,
        .cons ⟨hp, hsig⟩ h.errors⟩
      exact congr (congrArg List.cons hsig) h.unprocessed

/-- A batch partitions its requests, under every schedule. -/
theorem batchRun_partition {signatures : List String} {b : TransactionBatch}
    (h : BatchRun api reply signatures b) :
    ∃ ok failed, Partition api reply signatures.zipIdx b ok failed := by
  obtain ⟨outcomes, ho, rfl⟩ := loopRun_batchOf h.1
  rw [chunks_flatten] at ho
  exact partition_batchOf ho

/-! ## Each signature alone -/

/-- `get_transaction` with other chunks, under some schedule. -/
def ChunkedRun (api : HeliusApi) (reply : Nat → Replies) (css : List (List (String × Nat)))
    (b : TransactionBatch) : Prop :=
  LoopRun api reply .empty css b ∧ b.warnFirstError api = some ()

/-- **Handling each signature alone** and putting the batches together comes to `b`, and so does
every way to cut the request into chunks. -/
structure HandledAlone (api : HeliusApi) (reply : Nat → Replies) (signatures : List String)
    (b : TransactionBatch) : Prop where
  alone : ∃ alone, List.Forall₂ (fun p b => BatchRun api (fun _ => reply p.2) [p.1] b)
    signatures.zipIdx alone ∧ b = .concat alone
  chunks : ∀ css, css.flatten = signatures.zipIdx →
    (∃ b', ChunkedRun api reply css b') ∧ ∀ b', ChunkedRun api reply css b' → b' = b

/-- No warning panics: they are off, or each signature that fails can be masked. -/
def FailuresMaskable (api : HeliusApi) (reply : Nat → Replies) (requests : List (String × Nat)) :
    Prop :=
  api.warnEnabled = false ∨
    ∀ p ∈ requests, ∀ error, Outcome api reply p (.failed error) → Maskable p.1

theorem FailuresMaskable.subset {requests requests' : List (String × Nat)}
    (h : FailuresMaskable api reply requests) (hsub : ∀ p ∈ requests', p ∈ requests) :
    FailuresMaskable api reply requests' :=
  h.imp_right fun h p hp => h p (hsub p hp)

/-- The warning about the first of these requests that failed. -/
theorem warnFirstError_some {requests : List (String × Nat)}
    {outcomes : List TransactionFetchOutcome}
    (h : List.Forall₂ (Outcome api reply) requests outcomes)
    (hmask : FailuresMaskable api reply requests) {b : TransactionBatch}
    (hb : b.errors = outcomes.filterMap (·.error?)) : b.warnFirstError api = some () := by
  unfold TransactionBatch.warnFirstError
  cases he : b.errors.head? with
  | none => rfl
  | some error =>
    have hmem : error ∈ outcomes.filterMap (·.error?) := hb ▸ List.mem_of_mem_head? he
    obtain ⟨o, ho, herror⟩ := List.mem_filterMap.mp hmem
    obtain ⟨p, hp, hout⟩ := (fetchAll_mem (fetchAll_eq_some.mpr h)).2 o ho
    refine HeliusApi.warnMasked_eq_some.mpr (hmask.imp_right fun hmask => ?_)
    rcases fetchTransactionBySignature_spec hout with ⟨_, _, _, _, rfl⟩ | ⟨e, hsig, rfl⟩
    · exact absurd herror (by simp [TransactionFetchOutcome.error?])
    · obtain rfl := Option.some.inj herror
      exact hsig ▸ hmask p hp _ hout

theorem exists_outcomes {requests : List (String × Nat)}
    (h : ∀ p ∈ requests, ∃ o, Outcome api reply p o) :
    ∃ outcomes, List.Forall₂ (Outcome api reply) requests outcomes := by
  induction requests with
  | nil => exact ⟨[], .nil⟩
  | cons p ps ih =>
    obtain ⟨o, ho⟩ := h p List.mem_cons_self
    obtain ⟨os, hos⟩ := ih fun q hq => h q (List.mem_cons_of_mem p hq)
    exact ⟨o :: os, .cons ho hos⟩

/-- **Any chunks** come back, where no warning panics. -/
theorem exists_chunkedRun {css : List (List (String × Nat))}
    (h : ∀ p ∈ css.flatten, ∃ o, Outcome api reply p o)
    (hmask : FailuresMaskable api reply css.flatten) : ∃ b, ChunkedRun api reply css b := by
  have hloop : ∀ css' totalBatch, (∀ p ∈ css'.flatten, p ∈ css.flatten) →
      ∃ b, LoopRun api reply totalBatch css' b := by
    intro css'
    induction css' with
    | nil => exact fun totalBatch _ => ⟨totalBatch, .nil totalBatch⟩
    | cons cs css' ih =>
      intro totalBatch hsub
      rw [List.flatten_cons] at hsub
      have hcs : ∀ p ∈ cs, p ∈ css.flatten := fun p hp => hsub p (List.mem_append_left _ hp)
      obtain ⟨os, hos⟩ := exists_outcomes fun p hp => h p (hcs p hp)
      obtain ⟨tr, t, hrun, hf, rfl⟩ := Buffered.exists_schedule (n := 5) (by decide) hos
      have hwarn : (t.yielded.foldl TransactionFetchOutcome.push .empty).warnFirstError api =
          some () := by
        refine warnFirstError_some hos (hmask.subset hcs) ?_
        rw [foldl_push]
        exact List.nil_append _
      obtain ⟨b, hb⟩ := ih (totalBatch.appendChunk _) fun p hp => hsub p (List.mem_append_right _ hp)
      exact ⟨b, .cons ⟨tr, t, hrun, hf, rfl, hwarn⟩ hb⟩
  obtain ⟨b, hb⟩ := hloop css .empty fun _ hp => hp
  obtain ⟨outcomes, ho, rfl⟩ := loopRun_batchOf hb
  exact ⟨_, hb, warnFirstError_some ho hmask rfl⟩

/-- A signature handled alone. -/
theorem batchRun_alone {p : String × Nat} {o : TransactionFetchOutcome} (h : Outcome api reply p o)
    (hmask : FailuresMaskable api reply [p]) :
    BatchRun api (fun _ => reply p.2) [p.1] (batchOf [o]) := by
  have hrun : ∃ b, ChunkedRun api (fun _ => reply p.2) [[(p.1, 0)]] b := by
    refine exists_chunkedRun (fun q hq => ?_) (hmask.imp_right fun hmask q hq error herror => ?_)
    · obtain rfl := List.mem_singleton.mp hq
      exact ⟨o, h⟩
    · obtain rfl := List.mem_singleton.mp hq
      exact hmask p (List.mem_singleton_self p) error herror
  obtain ⟨b, hb⟩ := hrun
  obtain ⟨outcomes, ho, rfl⟩ := loopRun_batchOf hb.1
  have hone : List.Forall₂ (Outcome api fun _ => reply p.2) [(p.1, 0)] [o] := .cons h .nil
  rw [outcomes_unique hone ho]
  exact hb

/-- The batches of the single requests, one after the other. -/
theorem concat_alone {requests : List (String × Nat)} {outcomes : List TransactionFetchOutcome}
    (h : List.Forall₂ (Outcome api reply) requests outcomes)
    (hmask : FailuresMaskable api reply requests) :
    ∃ alone, List.Forall₂ (fun p b => BatchRun api (fun _ => reply p.2) [p.1] b) requests alone ∧
      batchOf outcomes = .concat alone := by
  induction h with
  | nil => exact ⟨[], .nil, rfl⟩
  | @cons p o ps os hp _ ih =>
    obtain ⟨alone, halone, he⟩ := ih (hmask.subset fun _ hq => List.mem_cons_of_mem p hq)
    have hpmask : FailuresMaskable api reply [p] :=
      hmask.subset fun q hq => List.mem_singleton.mp hq ▸ List.mem_cons_self
    refine ⟨batchOf [o] :: alone, .cons (batchRun_alone hp hpmask) halone, ?_⟩
    rw [batchOf_cons, he]
    rfl

/-- What comes back alone has been warned of. -/
theorem maskable_of_alone {p : String × Nat} {error : TransactionFetchError}
    (h : Outcome api reply p (.failed error)) {b : TransactionBatch}
    (hb : BatchRun api (fun _ => reply p.2) [p.1] b) : api.warnEnabled = false ∨ Maskable p.1 := by
  obtain ⟨outcomes, ho, rfl⟩ := loopRun_batchOf hb.1
  rw [chunks_flatten] at ho
  have hone : List.Forall₂ (Outcome api fun _ => reply p.2) [(p.1, 0)] [.failed error] := .cons h .nil
  obtain rfl := outcomes_unique hone ho
  rcases fetchTransactionBySignature_spec h with ⟨_, _, _, _, he⟩ | ⟨e, hsig, he⟩
  · exact absurd he (by simp)
  · obtain rfl := TransactionFetchOutcome.failed.inj he
    exact hsig ▸ HeliusApi.warnMasked_eq_some.mp hb.2

/-- **The batch is a partition of the request**, under every schedule and for all answers: each
position is among the processed or among the failed ones, in input order, with its transaction or
its error. It is what handling each signature alone and putting the batches together comes to, and
what other chunks come to, if and only if the warnings are off or each signature that fails can be
masked. -/
theorem batch_partition {signatures : List String} {b : TransactionBatch}
    (h : BatchRun api reply signatures b) :
    (∃ ok failed, Partition api reply signatures.zipIdx b ok failed) ∧
    b.transactions.length = b.processedSignatures.length ∧
    b.errors.map (·.signature) = b.failedSignatures ∧
    (HandledAlone api reply signatures b ↔ FailuresMaskable api reply signatures.zipIdx) := by
  have hpart := batchRun_partition h
  obtain ⟨outcomes, ho, rfl⟩ := loopRun_batchOf h.1
  rw [chunks_flatten] at ho
  refine ⟨hpart, ?_, rfl, fun hhandled => ?_, fun hmask => ⟨concat_alone ho hmask, fun css hcss =>
    ⟨exists_chunkedRun ?_ (hcss ▸ hmask), fun b' hb' => ?_⟩⟩⟩
  · simp only [batchOf, List.length_map]
  · obtain ⟨alone, halone, -⟩ := hhandled.alone
    refine or_iff_not_imp_left.mpr fun hwarn p hp error herror => ?_
    obtain ⟨i, hi, rfl⟩ := List.getElem_of_mem hp
    exact (maskable_of_alone herror (halone.get hi (halone.length_eq ▸ hi))).resolve_left hwarn
  · intro p hp
    rw [hcss] at hp
    exact ((fetchAll_mem (fetchAll_eq_some.mpr ho)).1 p hp).imp fun _ => And.right
  · obtain ⟨outcomes', ho', rfl⟩ := loopRun_batchOf hb'.1
    rw [hcss] at ho'
    rw [outcomes_unique ho ho']

end Network

/-- Two signatures; the request for the second one fails. -/
theorem batch_partition_mixed :
    letI : External := smallNetwork [] ["s1"]
    let reply : Nat → Replies := fun i => if i = 0 then serveTransaction "s1" else serveNothing
    ∃ b, BatchRun ⟨0, true⟩ reply ["s1", "s2"] b ∧
      (∃ ok failed, Partition ⟨0, true⟩ reply [("s1", 0), ("s2", 1)] b ok failed) ∧
      HandledAlone ⟨0, true⟩ reply ["s1", "s2"] b := by
  let : External := smallNetwork [] ["s1"]
  intro reply
  obtain ⟨b, hb⟩ : ∃ b, getTransaction ⟨0, true⟩ reply ["s1", "s2"] = some b :=
    Option.isSome_iff_exists.mp (by decide +kernel)
  obtain ⟨hpart, -, -, halone⟩ := batch_partition (batchRun_iff.mpr hb)
  refine ⟨b, batchRun_iff.mpr hb, hpart, halone.mpr (Or.inr fun p hp _ _ => Or.inl ?_)⟩
  rcases List.mem_pair.mp hp with rfl | rfl <;> decide

/-- **A batch whose second signature cannot be handled alone**: both requests fail, the warning of
the chunk masks the first signature only. -/
theorem not_handledAlone_second : letI : External := smallNetwork [] []
    ∃ b, BatchRun ⟨0, true⟩ (fun _ => serveNothing) ["s1", "ééééééé"] b ∧
      ¬HandledAlone ⟨0, true⟩ (fun _ => serveNothing) ["s1", "ééééééé"] b := by
  let : External := smallNetwork [] []
  obtain ⟨b, hb⟩ : ∃ b, getTransaction ⟨0, true⟩ (fun _ => serveNothing) ["s1", "ééééééé"] = some b :=
    Option.isSome_iff_exists.mp (by decide +kernel)
  refine ⟨b, batchRun_iff.mpr hb, fun hhandled => ?_⟩
  obtain ⟨alone, halone, -⟩ := hhandled.alone
  have hsecond := halone.get (i := 1) (by decide) (halone.length_eq ▸ by decide)
  obtain ⟨error, herror⟩ : ∃ error,
      Outcome ⟨0, true⟩ (fun _ => serveNothing) ("ééééééé", 1) (.failed error) := ⟨_, rfl⟩
  rcases maskable_of_alone herror hsecond with hoff | hmask
  · exact absurd hoff (by decide)
  · exact maskAddr_ne_none.mpr hmask (by decide)

end OnChainEventIndexer
