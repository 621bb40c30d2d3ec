import OnChainEventIndexer.Requests.Types
import OnChainEventIndexer.Logging
import Mathlib.Data.List.Forall2

/-!
# The RPC client

Model of `requests/client.rs`: the retry loops of `get_signatures` and
`fetch_transaction_by_signature`, the filter `take_recent_signatures_at`, and the batch
`get_transaction` builds out of chunks of ten.

* What the network does is a parameter: `reply k` is the result of `send_rpc_request` in attempt
  `k` (`Err` when no response arrived), and `nowTs` the wall clock when the page is filtered, which
  happens once. The waiting between attempts (rate limiter, semaphore, cooldown) changes neither.
* A loop `for attempt in 1..=R + 1` is a recursion over the list of attempts.
* `warn!` evaluates its fields only when the subscriber enables the event (`warnEnabled`), and then
  masks a signature, which can panic: `none`.
* Requests of one batch are told apart by their position (`zipIdx`), so that a signature asked for
  twice may be answered twice differently. `buffered(5)` yields the outcomes in input order.

`getTransaction_eq` is what callers use: the batch lists the outcomes of its requests in order.
-/

namespace OnChainEventIndexer

/-- What `send_rpc_request` returns. -/
structure RpcHttpResponse where
  status : Nat
  retryAfter : Option Nat
  bodyText : String
deriving DecidableEq

/-- The answers to the attempts of one request. -/
abbrev Replies := Nat → Except String RpcHttpResponse

/-- The settings of the client; what it shares is in `Requests/Cooldown.lean`. -/
structure HeliusApi where
  maxRateLimitRetries : Nat
  /-- `warn!` events of target `client` are enabled. -/
  warnEnabled : Bool

namespace HeliusApi

/-- The attempts `1..=self.max_rate_limit_retries + 1`. -/
def attempts (api : HeliusApi) : List Nat := List.range' 1 (api.maxRateLimitRetries + 1)

/-- `signature = %mask_addr(signature)` in a `warn!`. -/
def warnMasked (api : HeliusApi) (signature : String) : Option Unit :=
  if api.warnEnabled then (maskAddr signature).map fun _ => () else some ()

theorem warnMasked_ne_none {api : HeliusApi} {signature : String} :
    api.warnMasked signature ≠ none ↔ (api.warnEnabled = true → Maskable signature) := by
  unfold warnMasked
  rw [← maskAddr_ne_none]
  split
  · rename_i h
    simp [h]
  · rename_i h
    simp [h]

theorem warnMasked_eq_some {api : HeliusApi} {signature : String} :
    api.warnMasked signature = some () ↔ api.warnEnabled = false ∨ Maskable signature := by
  have hsome : api.warnMasked signature = some () ↔ api.warnMasked signature ≠ none := by
    cases api.warnMasked signature <;> simp
  rw [hsome, warnMasked_ne_none]
  cases api.warnEnabled <;> simp

end HeliusApi

/-! ## Signatures -/

/-- What `get_signatures` returns. -/
structure SignaturesPage where
  response : RpcResponse
  lastSignature : Option String
  rawCount : Nat
  reachedCutoff : Bool
deriving DecidableEq

/-- What `take_recent_signatures` returns. -/
structure RecentSignaturesResult where
  signatures : List Signature
  reachedCutoff : Bool
  skippedNullBlockTime : Nat
deriving DecidableEq

/-- The loop of `take_recent_signatures_at`. -/
def takeRecent (cutoffTs : Int) : List Signature → RecentSignaturesResult
  | [] => ⟨[], false, 0⟩
  | sig :: rest =>
    match sig.blockTime with
    | some ts =>
      if cutoffTs ≤ ts then
        let r := takeRecent cutoffTs rest
        { r with signatures := ⟨sig.blockTime, sig.signature⟩ :: r.signatures }
      else ⟨[], true, 0⟩ -- `break`
    | none =>
      let r := takeRecent cutoffTs rest
      { r with skippedNullBlockTime := r.skippedNullBlockTime + 1 }

/-- `now_ts - i64::from(requested_hours.max(0)) * 3600` -/
def cutoffTs (requestedHours : Int16) (nowTs : Int) : Int := nowTs - max requestedHours.toInt 0 * 3600

/-- `take_recent_signatures_at` -/
def takeRecentSignaturesAt (signatures : List Signature) (requestedHours : Int16) (nowTs : Int) :
    RecentSignaturesResult :=
  takeRecent (cutoffTs requestedHours nowTs) signatures

/-- The page `get_signatures` makes of a response's `result`. -/
def pageOf (result : List Signature) (requestedHours : Int16) (nowTs : Int) : SignaturesPage :=
  let recentSignatures := takeRecentSignaturesAt result requestedHours nowTs
  { response := ⟨recentSignatures.signatures⟩
    lastSignature := result.getLast?.map (·.signature)
    rawCount := result.length
    reachedCutoff := recentSignatures.reachedCutoff }

/-! ## The filter -/

theorem mem_takeRecent {c : Int} {l : List Signature} {s : Signature}
    (h : s ∈ (takeRecent c l).signatures) : s ∈ l ∧ ∃ ts, s.blockTime = some ts ∧ c ≤ ts := by
  induction l with
  | nil => exact absurd h List.not_mem_nil
  | cons x xs ih =>
    simp only [takeRecent] at h
    cases hb : x.blockTime with
    | none =>
      rw [hb] at h
      exact ⟨List.mem_cons_of_mem _ (ih h).1, (ih h).2⟩
    | some ts =>
      rw [hb] at h
      simp only at h
      split at h
      · rename_i hc
        rcases List.mem_cons.mp h with rfl | h
        · exact ⟨hb ▸ List.mem_cons_self, ts, rfl, hc⟩
        · exact ⟨List.mem_cons_of_mem _ (ih h).1, (ih h).2⟩
      · exact absurd h List.not_mem_nil

theorem length_takeRecent_le (c : Int) (l : List Signature) :
    (takeRecent c l).signatures.length ≤ l.length := by
  induction l with
  | nil => exact Nat.le_refl _
  | cons x xs ih =>
    simp only [takeRecent]
    cases x.blockTime with
    | none => exact Nat.le_succ_of_le ih
    | some ts =>
      simp only
      split
      · exact Nat.succ_le_succ ih
      · exact Nat.zero_le _

theorem takeRecent_reachedCutoff {c : Int} {l : List Signature} :
    (takeRecent c l).reachedCutoff = true ↔ ∃ s ∈ l, ∃ ts, s.blockTime = some ts ∧ ts < c := by
  induction l with
  | nil => simp [takeRecent]
  | cons x xs ih =>
    simp only [takeRecent, List.mem_cons, exists_eq_or_imp]
    cases hb : x.blockTime with
    | none => simpa using ih
    | some ts =>
      simp only [Option.some.injEq, exists_eq_left']
      split
      · rename_i hc
        simpa [Int.not_lt.mpr hc] using ih
      · rename_i hc
        simp [Int.not_le.mp hc]

/-- On a list whose non-null block times do not increase, the `break` loses nothing. -/
theorem takeRecent_complete {c : Int} {l : List Signature}
    (hl : l.Pairwise fun s s' => ∀ ts ∈ s.blockTime, ∀ ts' ∈ s'.blockTime, ts' ≤ ts)
    {s : Signature} {ts : Int} (hs : s ∈ l) (hb : s.blockTime = some ts) (hc : c ≤ ts) :
    s ∈ (takeRecent c l).signatures := by
  induction l with
  | nil => exact absurd hs List.not_mem_nil
  | cons x xs ih =>
    obtain ⟨hx, hxs⟩ := List.pairwise_cons.mp hl
    simp only [takeRecent]
    cases hxb : x.blockTime with
    | none =>
      rcases List.mem_cons.mp hs with rfl | hs
      · rw [hb] at hxb
        exact absurd hxb (by simp)
      · exact ih hxs hs
    | some tx =>
      simp only
      split
      · rcases List.mem_cons.mp hs with rfl | hs
        · exact List.mem_cons.mpr (Or.inl (by rw [← hxb]))
        · exact List.mem_cons_of_mem _ (ih hxs hs)
      · rename_i htx
        rcases List.mem_cons.mp hs with rfl | hs
        · rw [hb] at hxb
          exact absurd (Option.some.inj hxb ▸ hc) htx
        · exact absurd (Int.le_trans hc (hx s hs tx hxb ts hb)) htx

/-! ## Outcomes -/

/-- What `try_fetch_transaction_once` returns. -/
inductive FetchAttempt
  | success (txInfo : TransactionInfo) (status : Nat)
  | rateLimited (error : TransactionFetchError) (retryAfter : Option Nat)
  | fatal (error : TransactionFetchError)

/-- What `fetch_transaction_by_signature` returns. -/
inductive TransactionFetchOutcome
  | success (signature : String) (transaction : TransactionResult)
  | failed (error : TransactionFetchError)

namespace TransactionFetchOutcome

/-- The transaction of an outcome. -/
def transaction? : TransactionFetchOutcome → Option (String × TransactionResult)
  | .success signature transaction => some (signature, transaction)
  | .failed _ => none

/-- The error of an outcome. -/
def error? : TransactionFetchOutcome → Option TransactionFetchError
  | .success _ _ => none
  | .failed error => some error

end TransactionFetchOutcome

/-- `TransactionBatch` of one outcome, as the loop of `fetch_transaction_chunk` pushes it. -/
def TransactionFetchOutcome.push (batch : TransactionBatch) :
    TransactionFetchOutcome → TransactionBatch
  | .success signature transaction =>
    { batch with
      processedSignatures := batch.processedSignatures ++ [signature]
      transactions := batch.transactions ++ [transaction] }
  | .failed error =>
    { batch with
      failedSignatures := batch.failedSignatures ++ [error.signature]
      errors := batch.errors ++ [error] }

/-- `TransactionBatch::default()` -/
def TransactionBatch.empty : TransactionBatch := ⟨[], [], [], []⟩

theorem foldl_push (outcomes : List TransactionFetchOutcome) (b : TransactionBatch) :
    outcomes.foldl TransactionFetchOutcome.push b =
      { transactions := b.transactions ++ (outcomes.filterMap (·.transaction?)).map Prod.snd
        processedSignatures :=
          b.processedSignatures ++ (outcomes.filterMap (·.transaction?)).map Prod.fst
        failedSignatures :=
          b.failedSignatures ++ (outcomes.filterMap (·.error?)).map (·.signature)
        errors := b.errors ++ outcomes.filterMap (·.error?) } := by
  induction outcomes generalizing b with
  | nil => simp
  | cons o os ih =>
    rw [List.foldl_cons, ih]
    cases o <;>
      simp [TransactionFetchOutcome.push, TransactionFetchOutcome.transaction?,
        TransactionFetchOutcome.error?]

/-- `slice::chunks`, with the length as fuel. -/
def chunks {α : Type} (size : Nat) : Nat → List α → List (List α)
  | _, [] => []
  | 0, xs => [xs]
  | fuel + 1, xs => xs.take size :: chunks size fuel (xs.drop size)

theorem chunks_flatten {α : Type} (size fuel : Nat) (xs : List α) :
    (chunks size fuel xs).flatten = xs := by
  induction fuel generalizing xs with
  | zero => cases xs <;> simp [chunks]
  | succ n ih =>
    cases xs with
    | nil => rfl
    | cons x xs => rw [chunks, List.flatten_cons, ih, List.take_append_drop]; simp

/-- In a list without repetitions a signature has one position. -/
theorem zipIdx_pos {signatures : List String} (hnd : signatures.Nodup) {s : String} {i j : Nat}
    (hi : (s, i) ∈ signatures.zipIdx) (hj : (s, j) ∈ signatures.zipIdx) : i = j := by
  obtain ⟨hi', hsi⟩ := List.mem_zipIdx_iff_getElem?.mp hi |> List.getElem?_eq_some_iff.mp
  obtain ⟨hj', hsj⟩ := List.mem_zipIdx_iff_getElem?.mp hj |> List.getElem?_eq_some_iff.mp
  exact (List.getElem_inj hnd).mp (hsi.trans hsj.symm)

/-! ## One page of signatures -/

section Network

variable [External]

/-- One pass of the loop of `get_signatures`; `none` is `continue`. -/
def getSignaturesAttempt (api : HeliusApi) (attempt : Nat)
    (response : Except String RpcHttpResponse) (requestedHours : Int16) (nowTs : Int) :
    Option (Except String SignaturesPage) :=
  match response with
  | .error error => some (.error error)
  | .ok response =>
    let status := response.status
    match External.decodeSignatures response.bodyText with
    | .error error =>
      if status = 429 ∧ attempt ≤ api.maxRateLimitRetries then none
      else some (.error ("failed to decode getSignaturesForAddress response: status=" ++
        External.statusText status ++ ", error=" ++ error))
    | .ok rpcResponse =>
      match rpcResponse.error with
      | some rpcError =>
        if rpcError.isRateLimited = true ∧ attempt ≤ api.maxRateLimitRetries then none
        else some (.error ("rpc error on getSignaturesForAddress: status=" ++
          External.statusText status ++ ", code=" ++ toString rpcError.code ++ ", message=" ++
          rpcError.message ++ ", rate_limited=" ++ toString rpcError.isRateLimited))
      | none =>
        match rpcResponse.result with
        | .missing =>
          some (.error "missing result field in getSignaturesForAddress response")
        | .null => some (.error "rpc result is null in getSignaturesForAddress response")
        | .value result => some (.ok (pageOf result requestedHours nowTs))

/-- The loop of `get_signatures` over the attempts that are left. -/
def getSignaturesLoop (api : HeliusApi) (reply : Replies) (requestedHours : Int16) (nowTs : Int) :
    List Nat → Except String SignaturesPage
  | [] => .error ("getSignaturesForAddress exhausted retry budget after " ++
      toString (api.maxRateLimitRetries + 1) ++ " attempts")
  | attempt :: rest =>
    match getSignaturesAttempt api attempt (reply attempt) requestedHours nowTs with
    | some r => r
    | none => getSignaturesLoop api reply requestedHours nowTs rest

/-- `get_signatures` -/
def getSignatures (api : HeliusApi) (reply : Replies) (requestedHours : Int16) (nowTs : Int) :
    Except String SignaturesPage :=
  getSignaturesLoop api reply requestedHours nowTs api.attempts

/-! ## One transaction -/

/-- `body_snippet` -/
def bodySnippet (body : String) : String :=
  let maxChars := 200
  let snippet := (body.toList.take maxChars).map fun ch =>
    if ch = '\n' ∨ ch = '\r' then ' ' else ch
  if (body.toList.drop maxChars).isEmpty then String.ofList snippet
  else String.ofList snippet ++ "..."

/-- `try_fetch_transaction_once`, given what `send_rpc_request` returned. -/
def tryFetchTransactionOnce (signature : String) (response : Except String RpcHttpResponse) :
    FetchAttempt :=
  match response with
  | .error error => .fatal
      { signature, statusCode := none, rpcCode := none, message := "request failed: " ++ error }
  | .ok response =>
    let status := response.status
    match External.decodeEnvelope response.bodyText with
    | .error error =>
      let fetchError : TransactionFetchError :=
        { signature
          statusCode := some status
          rpcCode := none
          message := "failed to decode rpc envelope: " ++ error ++ "; body=" ++
            bodySnippet response.bodyText }
      if fetchError.isRateLimited then .rateLimited fetchError response.retryAfter
      else .fatal fetchError
    | .ok rpcResponse =>
      match rpcResponse.error with
      | some rpcError =>
        let fetchError : TransactionFetchError :=
          { signature
            statusCode := some status
            rpcCode := some rpcError.code
            message := rpcError.message }
        if fetchError.isRateLimited then .rateLimited fetchError response.retryAfter
        else .fatal fetchError
      | none =>
        match rpcResponse.result with
        | .missing => .fatal
            { signature
              statusCode := some status
              rpcCode := none
              message := "missing result field in rpc response" }
        | .null => .fatal
            { signature, statusCode := some status, rpcCode := none, message := "rpc result is null" }
        | .value resultValue =>
          match External.decodeTransactionInfo resultValue with
          | .error error => .fatal
              { signature
                statusCode := some status
                rpcCode := none
                message := "failed to decode transaction result: " ++ error }
          | .ok txInfo => .success txInfo status

/-- The loop of `fetch_transaction_by_signature` over the attempts that are left, with the last
rate-limit error. -/
def fetchTransactionLoop (api : HeliusApi) (signature : String) (reply : Replies) :
    Option TransactionFetchError → List Nat → Option TransactionFetchOutcome
  | lastRateLimitError, [] => some (.failed (lastRateLimitError.getD
      { signature
        statusCode := none
        rpcCode := none
        message := "getTransaction exhausted retry budget after " ++
          toString (api.maxRateLimitRetries + 1) ++ " attempts" }))
  | _, attempt :: rest =>
    match tryFetchTransactionOnce signature (reply attempt) with
    | .success txInfo _ => some (.success signature ⟨txInfo, []⟩)
    | .rateLimited fetchError _ =>
      if attempt ≤ api.maxRateLimitRetries then
        (api.warnMasked signature).bind fun _ =>
          fetchTransactionLoop api signature reply (some fetchError) rest
      else some (.failed fetchError)
    | .fatal fetchError => some (.failed fetchError)

/-- `fetch_transaction_by_signature` -/
def fetchTransactionBySignature (api : HeliusApi) (signature : String) (reply : Replies) :
    Option TransactionFetchOutcome :=
  fetchTransactionLoop api signature reply none api.attempts

/-! ## A batch -/

/-- A `warn!` about the first error of a batch, if there is one. -/
def TransactionBatch.warnFirstError (api : HeliusApi) (batch : TransactionBatch) : Option Unit :=
  match batch.errors.head? with
  | some error => api.warnMasked error.signature
  | none => some ()

/-- `fetch_transaction_chunk`; each signature comes with its position in the request. -/
def fetchTransactionChunk (api : HeliusApi) (reply : Nat → Replies)
    (signatures : List (String × Nat)) : Option TransactionBatch :=
  (signatures.mapM fun (signature, i) => fetchTransactionBySignature api signature (reply i)).bind
    fun chunkResponses =>
      let batch := chunkResponses.foldl TransactionFetchOutcome.push .empty
      (batch.warnFirstError api).map fun _ => batch

/-- The loop of `get_transaction` over its chunks. -/
def getTransactionLoop (api : HeliusApi) (reply : Nat → Replies) :
    TransactionBatch → List (List (String × Nat)) → Option TransactionBatch
  | totalBatch, [] => some totalBatch
  | totalBatch, signatures :: rest =>
    (fetchTransactionChunk api reply signatures).bind fun chunk =>
      getTransactionLoop api reply
        { transactions :=
            totalBatch.transactions ++ chunk.transactions.map (·.calculateTokenTransfer)
          processedSignatures := totalBatch.processedSignatures ++ chunk.processedSignatures
          failedSignatures := totalBatch.failedSignatures ++ chunk.failedSignatures
          errors := totalBatch.errors ++ chunk.errors } rest

/-- `get_transaction` -/
def getTransaction (api : HeliusApi) (reply : Nat → Replies) (signatures : List String) :
    Option TransactionBatch :=
  (getTransactionLoop api reply .empty
    (chunks 10 signatures.length signatures.zipIdx)).bind fun totalBatch =>
      (totalBatch.warnFirstError api).map fun _ => totalBatch

/-! ## What a page is -/

/-- The `result` list of a response that carries one. -/
def signaturesOf (response : Except String RpcHttpResponse) : Option (List Signature) :=
  match response with
  | .error _ => none
  | .ok response =>
    match External.decodeSignatures response.bodyText with
    | .ok ⟨.value result, none⟩ => some result
    | _ => none

theorem getSignaturesAttempt_ok {api : HeliusApi} {attempt : Nat}
    {response : Except String RpcHttpResponse} {requestedHours : Int16} {nowTs : Int}
    {page : SignaturesPage}
    (h : getSignaturesAttempt api attempt response requestedHours nowTs = some (.ok page)) :
    ∃ result, signaturesOf response = some result ∧ page = pageOf result requestedHours nowTs := by
  unfold getSignaturesAttempt at h
  unfold signaturesOf
  cases response with
  | error e => exact absurd h (by simp)
  | ok response =>
    simp only at h ⊢
    cases hd : External.decodeSignatures response.bodyText with
    | error e =>
      rw [hd] at h
      simp only at h
      split at h <;> exact absurd h (by simp)
    | ok env =>
      obtain ⟨field, err⟩ := env
      rw [hd] at h
      simp only at h
      cases err with
      | some e =>
        simp only at h
        split at h <;> exact absurd h (by simp)
      | none =>
        cases field with
        | missing => exact absurd h (by simp)
        | null => exact absurd h (by simp)
        | value result =>
          simp only [Option.some.injEq, Except.ok.injEq] at h
          exact ⟨result, rfl, h.symm⟩

/-- **`get_signatures`** returns the page of one of its responses. -/
theorem getSignatures_ok {api : HeliusApi} {reply : Replies} {requestedHours : Int16} {nowTs : Int}
    {page : SignaturesPage} (h : getSignatures api reply requestedHours nowTs = .ok page) :
    ∃ k result, signaturesOf (reply k) = some result ∧
      page = pageOf result requestedHours nowTs := by
  unfold getSignatures at h
  generalize api.attempts = ks at h
  induction ks with
  | nil => exact absurd h (by simp [getSignaturesLoop])
  | cons k ks ih =>
    simp only [getSignaturesLoop] at h
    split at h
    · rename_i r hr
      subst h
      obtain ⟨result, hres, hpage⟩ := getSignaturesAttempt_ok hr
      exact ⟨k, result, hres, hpage⟩
    · exact ih h

/-! ## What a batch is -/

/-- The error of an attempt, if there is one, names the signature asked for. -/
theorem tryFetchTransactionOnce_signature (signature : String)
    (response : Except String RpcHttpResponse) :
    match tryFetchTransactionOnce signature response with
    | .success _ _ => True
    | .rateLimited error _ => error.signature = signature
    | .fatal error => error.signature = signature := by
  unfold tryFetchTransactionOnce
  cases response with
  | error e => rfl
  | ok response =>
    cases hd : External.decodeEnvelope response.bodyText with
    | error e =>
      simp only [hd]
      split
      all_goals rename_i heq; split at heq <;> cases heq <;> rfl
    | ok env =>
      obtain ⟨field, err⟩ := env
      cases err with
      | some e =>
        simp only [hd]
        split
        all_goals rename_i heq; split at heq <;> cases heq <;> rfl
      | none =>
        cases field with
        | missing => simp only [hd]
        | null => simp only [hd]
        | value v =>
          cases hv : External.decodeTransactionInfo v with
          | error e => simp only [hd, hv]
          | ok txInfo => simp only [hd, hv]

/-- **One request**: a success carries the transaction one of its responses decodes to, a failure
names the signature asked for. -/
theorem fetchTransactionBySignature_spec {api : HeliusApi} {signature : String} {reply : Replies}
    {o : TransactionFetchOutcome} (h : fetchTransactionBySignature api signature reply = some o) :
    (∃ k txInfo status, tryFetchTransactionOnce signature (reply k) = .success txInfo status ∧
      o = .success signature ⟨txInfo, []⟩) ∨
    ∃ error, error.signature = signature ∧ o = .failed error := by
  unfold fetchTransactionBySignature at h
  have hlast : ∀ e : TransactionFetchError, (none : Option TransactionFetchError) = some e →
      e.signature = signature := fun e he => absurd he (by simp)
  generalize (none : Option TransactionFetchError) = last at h hlast
  generalize api.attempts = ks at h
  induction ks generalizing last with
  | nil =>
    simp only [fetchTransactionLoop, Option.some.injEq] at h
    refine Or.inr ⟨_, ?_, h.symm⟩
    cases last with
    | none => rfl
    | some e => exact hlast e rfl
  | cons k ks ih =>
    have hsig := tryFetchTransactionOnce_signature signature (reply k)
    simp only [fetchTransactionLoop] at h
    cases hk : tryFetchTransactionOnce signature (reply k) with
    | success txInfo status =>
      rw [hk] at h
      exact Or.inl ⟨k, txInfo, status, hk, (Option.some.inj h).symm⟩
    | rateLimited e r =>
      simp only [hk] at h hsig
      split at h
      · obtain ⟨-, -, h⟩ := Option.bind_eq_some_iff.mp h
        exact ih (some e) (fun e' he' => by rw [← Option.some.inj he']; exact hsig) h
      · exact Or.inr ⟨e, hsig, (Option.some.inj h).symm⟩
    | fatal e =>
      simp only [hk] at h hsig
      exact Or.inr ⟨e, hsig, (Option.some.inj h).symm⟩

/-- A request that succeeds at the first attempt. -/
theorem fetchTransactionBySignature_of_first {api : HeliusApi} {signature : String} {reply : Replies}
    {txInfo : TransactionInfo} {status : Nat}
    (h : tryFetchTransactionOnce signature (reply 1) = .success txInfo status) :
    fetchTransactionBySignature api signature reply = some (.success signature ⟨txInfo, []⟩) := by
  unfold fetchTransactionBySignature HeliusApi.attempts
  rw [List.range'_succ]
  simp only [fetchTransactionLoop, h]

/-- The batch of a list of outcomes. -/
def batchOf (outcomes : List TransactionFetchOutcome) : TransactionBatch :=
  let ok := outcomes.filterMap (·.transaction?)
  let errors := outcomes.filterMap (·.error?)
  { transactions := ok.map fun p => p.2.calculateTokenTransfer
    processedSignatures := ok.map Prod.fst
    failedSignatures := errors.map (·.signature)
    errors }

/-- The requests of a batch, each at its position. -/
def fetchAll (api : HeliusApi) (reply : Nat → Replies) (signatures : List (String × Nat)) :
    Option (List TransactionFetchOutcome) :=
  signatures.mapM fun (signature, i) => fetchTransactionBySignature api signature (reply i)

theorem getTransactionLoop_eq {api : HeliusApi} {reply : Nat → Replies} {total b : TransactionBatch}
    {css : List (List (String × Nat))} (h : getTransactionLoop api reply total css = some b) :
    ∃ outcomes, fetchAll api reply css.flatten = some outcomes ∧
      b = { transactions := total.transactions ++ (batchOf outcomes).transactions
            processedSignatures := total.processedSignatures ++ (batchOf outcomes).processedSignatures
            failedSignatures := total.failedSignatures ++ (batchOf outcomes).failedSignatures
            errors := total.errors ++ (batchOf outcomes).errors } := by
  induction css generalizing total with
  | nil =>
    simp only [getTransactionLoop, Option.some.injEq] at h
    exact ⟨[], rfl, by simp [batchOf, ← h]⟩
  | cons cs css ih =>
    simp only [getTransactionLoop] at h
    obtain ⟨chunk, hchunk, h⟩ := Option.bind_eq_some_iff.mp h
    unfold fetchTransactionChunk at hchunk
    obtain ⟨os, hos, hchunk⟩ := Option.bind_eq_some_iff.mp hchunk
    obtain ⟨-, -, rfl⟩ := Option.map_eq_some_iff.mp hchunk
    obtain ⟨os', hos', rfl⟩ := ih h
    refine ⟨os ++ os', ?_, ?_⟩
    · unfold fetchAll at hos' ⊢
      simp only [List.flatten_cons, List.mapM_append, hos, hos']
      rfl
    · rw [foldl_push]
      simp [batchOf, TransactionBatch.empty, List.filterMap_append]

/-- **`get_transaction` handles each signature alone**: the batch is that of the outcomes of its
requests in input order, whatever the chunks. -/
theorem getTransaction_eq {api : HeliusApi} {reply : Nat → Replies} {signatures : List String}
    {b : TransactionBatch} (h : getTransaction api reply signatures = some b) :
    ∃ outcomes, fetchAll api reply signatures.zipIdx = some outcomes ∧ b = batchOf outcomes := by
  unfold getTransaction at h
  obtain ⟨total, htotal, h⟩ := Option.bind_eq_some_iff.mp h
  obtain ⟨-, -, rfl⟩ := Option.map_eq_some_iff.mp h
  obtain ⟨outcomes, ho, rfl⟩ := getTransactionLoop_eq htotal
  rw [chunks_flatten] at ho
  exact ⟨outcomes, ho, by simp [TransactionBatch.empty]⟩

theorem fetchAll_forall₂ {api : HeliusApi} {reply : Nat → Replies}
    {signatures : List (String × Nat)} {outcomes : List TransactionFetchOutcome}
    (h : fetchAll api reply signatures = some outcomes) :
    List.Forall₂ (fun p o => fetchTransactionBySignature api p.1 (reply p.2) = some o)
      signatures outcomes := by
  unfold fetchAll at h
  induction signatures generalizing outcomes with
  | nil =>
    simp only [List.mapM_nil] at h
    exact Option.some.inj h ▸ List.Forall₂.nil
  | cons p ps ih =>
    simp only [List.mapM_cons] at h
    obtain ⟨o, ho, h⟩ := Option.bind_eq_some_iff.mp h
    obtain ⟨os, hos, h⟩ := Option.bind_eq_some_iff.mp h
    exact Option.some.inj h ▸ List.Forall₂.cons ho (ih hos)

/-- Each request has its outcome, and each outcome its request. -/
theorem fetchAll_mem {api : HeliusApi} {reply : Nat → Replies}
    {signatures : List (String × Nat)} {outcomes : List TransactionFetchOutcome}
    (h : fetchAll api reply signatures = some outcomes) :
    (∀ p ∈ signatures, ∃ o ∈ outcomes,
      fetchTransactionBySignature api p.1 (reply p.2) = some o) ∧
    ∀ o ∈ outcomes, ∃ p ∈ signatures,
      fetchTransactionBySignature api p.1 (reply p.2) = some o := by
  have hf := fetchAll_forall₂ h
  clear h
  induction hf with
  | nil => exact ⟨fun _ h => absurd h List.not_mem_nil, fun _ h => absurd h List.not_mem_nil⟩
  | @cons p o ps os hp _ ih =>
    constructor
    · intro p' hp'
      rcases List.mem_cons.mp hp' with rfl | hp'
      · exact ⟨o, List.mem_cons_self, hp⟩
      · obtain ⟨o', ho', he⟩ := ih.1 p' hp'
        exact ⟨o', List.mem_cons_of_mem _ ho', he⟩
    · intro o' ho'
      rcases List.mem_cons.mp ho' with rfl | ho'
      · exact ⟨p, List.mem_cons_self, hp⟩
      · obtain ⟨p', hp', he⟩ := ih.2 o' ho'
        exact ⟨p', List.mem_cons_of_mem _ hp', he⟩

theorem fetchAll_some {api : HeliusApi} {reply : Nat → Replies} {signatures : List (String × Nat)}
    (h : ∀ p ∈ signatures, ∃ tx,
      fetchTransactionBySignature api p.1 (reply p.2) = some (.success p.1 tx)) :
    ∃ outcomes, fetchAll api reply signatures = some outcomes ∧
      outcomes.filterMap (·.error?) = [] := by
  induction signatures with
  | nil => exact ⟨[], rfl, rfl⟩
  | cons p ps ih =>
    obtain ⟨tx, htx⟩ := h p List.mem_cons_self
    obtain ⟨os, hos, he⟩ := ih fun q hq => h q (List.mem_cons_of_mem _ hq)
    refine ⟨.success p.1 tx :: os, ?_, by simpa [TransactionFetchOutcome.error?] using he⟩
    unfold fetchAll at hos ⊢
    rw [List.mapM_cons, hos]
    simp only [htx]
    rfl

/-- One of the requests is for `signature`, and its answers let it succeed with `tx`. -/
def Fetched (reply : Nat → Replies) (requests : List (String × Nat)) (signature : String)
    (tx : TransactionResult) : Prop :=
  ∃ i k txInfo status, (signature, i) ∈ requests ∧
    tryFetchTransactionOnce signature (reply i k) = .success txInfo status ∧
    tx = (⟨txInfo, []⟩ : TransactionResult).calculateTokenTransfer

/-- **What a batch holds**: the transactions belong to the processed signatures, position by
position, and the errors to the failed ones. -/
theorem getTransaction_aligned {api : HeliusApi} {reply : Nat → Replies} {signatures : List String}
    {b : TransactionBatch} (h : getTransaction api reply signatures = some b) :
    List.Forall₂ (Fetched reply signatures.zipIdx) b.processedSignatures b.transactions ∧
      b.failedSignatures = b.errors.map (·.signature) := by
  obtain ⟨outcomes, ho, rfl⟩ := getTransaction_eq h
  refine ⟨?_, rfl⟩
  have hf := fetchAll_forall₂ ho
  generalize signatures.zipIdx = ps at hf
  clear ho h
  induction hf with
  | nil => exact List.Forall₂.nil
  | @cons p o ps os hp _ ih =>
    have ih' := ih.imp fun s tx ⟨i, k, txInfo, status, hi, hk, he⟩ =>
      (⟨i, k, txInfo, status, List.mem_cons_of_mem p hi, hk, he⟩ : Fetched reply (p :: ps) s tx)
    rcases fetchTransactionBySignature_spec hp with ⟨k, txInfo, status, hk, rfl⟩ | ⟨e, -, rfl⟩
    · exact List.Forall₂.cons ⟨p.2, k, txInfo, status, List.mem_cons_self, hk, rfl⟩ ih'
    · exact ih'

/-- **Where a signature of the request ends up**: a success among the processed ones, with its
transaction, a failure among the failed ones. -/
theorem getTransaction_split {api : HeliusApi} {reply : Nat → Replies} {signatures : List String}
    {b : TransactionBatch} (h : getTransaction api reply signatures = some b) {s : String}
    {i : Nat} (hs : (s, i) ∈ signatures.zipIdx) :
    (∀ tx, fetchTransactionBySignature api s (reply i) = some (.success s tx) →
      s ∈ b.processedSignatures ∧ tx.calculateTokenTransfer ∈ b.transactions) ∧
    ((∃ e, fetchTransactionBySignature api s (reply i) = some (.failed e)) →
      s ∈ b.failedSignatures) := by
  obtain ⟨outcomes, ho, rfl⟩ := getTransaction_eq h
  obtain ⟨o, hmem, hp⟩ := (fetchAll_mem ho).1 (s, i) hs
  constructor
  · intro tx htx
    obtain rfl := Option.some.inj (hp.symm.trans htx)
    have hok : (s, tx) ∈ outcomes.filterMap (·.transaction?) :=
      List.mem_filterMap.mpr ⟨_, hmem, rfl⟩
    exact ⟨List.mem_map.mpr ⟨(s, tx), hok, rfl⟩, List.mem_map.mpr ⟨(s, tx), hok, rfl⟩⟩
  · rintro ⟨e, he⟩
    obtain rfl := Option.some.inj (hp.symm.trans he)
    rcases fetchTransactionBySignature_spec hp with ⟨_, _, _, _, hne⟩ | ⟨e', hsig, he'⟩
    · exact absurd hne (by simp)
    · obtain rfl := TransactionFetchOutcome.failed.inj he'
      exact List.mem_map.mpr ⟨e, List.mem_filterMap.mpr ⟨_, hmem, rfl⟩, hsig⟩

/-- Every signature of a batch comes from one request and its outcome. -/
theorem getTransaction_mem {api : HeliusApi} {reply : Nat → Replies} {signatures : List String}
    {b : TransactionBatch} (h : getTransaction api reply signatures = some b) {s : String} :
    (s ∈ b.processedSignatures → ∃ i tx, (s, i) ∈ signatures.zipIdx ∧
      fetchTransactionBySignature api s (reply i) = some (.success s tx)) ∧
    (s ∈ b.failedSignatures → ∃ i e, (s, i) ∈ signatures.zipIdx ∧
      fetchTransactionBySignature api s (reply i) = some (.failed e)) := by
  obtain ⟨outcomes, ho, rfl⟩ := getTransaction_eq h
  have hfrom := (fetchAll_mem ho).2
  constructor
  · intro hs
    obtain ⟨⟨s', tx⟩, hp, rfl⟩ := List.mem_map.mp hs
    obtain ⟨o, hmem, htx⟩ := List.mem_filterMap.mp hp
    obtain ⟨⟨s'', i⟩, hi, hfetch⟩ := hfrom o hmem
    rcases fetchTransactionBySignature_spec hfetch with ⟨_, _, _, _, rfl⟩ | ⟨e, -, rfl⟩
    · obtain ⟨rfl, rfl⟩ := Prod.mk.inj (Option.some.inj htx)
      exact ⟨i, _, hi, hfetch⟩
    · exact absurd htx (by simp [TransactionFetchOutcome.transaction?])
  · intro hs
    obtain ⟨e, he, rfl⟩ := List.mem_map.mp hs
    obtain ⟨o, hmem, heo⟩ := List.mem_filterMap.mp he
    obtain ⟨⟨s'', i⟩, hi, hfetch⟩ := hfrom o hmem
    rcases fetchTransactionBySignature_spec hfetch with ⟨_, _, _, _, rfl⟩ | ⟨e', hsig, rfl⟩
    · exact absurd heo (by simp [TransactionFetchOutcome.error?])
    · obtain rfl := Option.some.inj heo
      subst hsig
      exact ⟨i, e', hi, hfetch⟩

/-- Each request of a batch that comes back has succeeded or failed. -/
theorem getTransaction_outcome {api : HeliusApi} {reply : Nat → Replies} {signatures : List String}
    {b : TransactionBatch} (h : getTransaction api reply signatures = some b) {s : String}
    {i : Nat} (hs : (s, i) ∈ signatures.zipIdx) :
    (∃ tx, fetchTransactionBySignature api s (reply i) = some (.success s tx)) ∨
      ∃ e, fetchTransactionBySignature api s (reply i) = some (.failed e) := by
  obtain ⟨outcomes, ho, rfl⟩ := getTransaction_eq h
  obtain ⟨o, -, hp⟩ := (fetchAll_mem ho).1 (s, i) hs
  rcases fetchTransactionBySignature_spec hp with ⟨_, _, _, _, rfl⟩ | ⟨e, -, rfl⟩
  · exact Or.inl ⟨_, hp⟩
  · exact Or.inr ⟨_, hp⟩

/-- **A batch has no errors** just when every request succeeded. -/
theorem getTransaction_errors {api : HeliusApi} {reply : Nat → Replies} {signatures : List String}
    {b : TransactionBatch} (h : getTransaction api reply signatures = some b) :
    b.errors = [] ↔ ∀ p ∈ signatures.zipIdx, ∃ tx,
      fetchTransactionBySignature api p.1 (reply p.2) = some (.success p.1 tx) := by
  have hfailed := (getTransaction_aligned h).2
  constructor
  · rintro he ⟨s, i⟩ hp
    rcases getTransaction_outcome h hp with hok | herr
    · exact hok
    · have := (getTransaction_split h hp).2 herr
      rw [hfailed, he] at this
      exact absurd this List.not_mem_nil
  · intro hall
    by_contra hne
    obtain ⟨e, he⟩ := List.exists_mem_of_ne_nil _ hne
    have hmem : e.signature ∈ b.failedSignatures := hfailed ▸ List.mem_map_of_mem he
    obtain ⟨i, e', hi, hf⟩ := (getTransaction_mem h).2 hmem
    obtain ⟨tx, htx⟩ := hall _ hi
    rw [hf] at htx
    exact absurd (Option.some.inj htx) (by simp)

/-- Without errors every signature of the request is processed. -/
theorem mem_processed_iff {api : HeliusApi} {reply : Nat → Replies} {signatures : List String}
    {b : TransactionBatch} (h : getTransaction api reply signatures = some b) (he : b.errors = [])
    {s : String} : s ∈ b.processedSignatures ↔ s ∈ signatures := by
  constructor
  · intro hs
    obtain ⟨i, tx, hi, -⟩ := (getTransaction_mem h).1 hs
    exact List.mem_of_getElem? (List.mem_zipIdx_iff_getElem?.mp hi)
  · intro hs
    obtain ⟨i, hi⟩ := List.getElem?_of_mem hs
    have hzip : (s, i) ∈ signatures.zipIdx := List.mem_zipIdx_iff_getElem?.mpr hi
    obtain ⟨tx, htx⟩ := (getTransaction_errors h).mp he _ hzip
    exact ((getTransaction_split h hzip).1 tx htx).1

/-- **A batch whose requests succeed comes back**: no warning is written, so none panics. -/
theorem getTransaction_some {api : HeliusApi} {reply : Nat → Replies} {signatures : List String}
    (h : ∀ p ∈ signatures.zipIdx, ∃ tx,
      fetchTransactionBySignature api p.1 (reply p.2) = some (.success p.1 tx)) :
    ∃ b, getTransaction api reply signatures = some b := by
  have hloop : ∀ (css : List (List (String × Nat))) (total : TransactionBatch),
      (∀ p ∈ css.flatten, ∃ tx,
        fetchTransactionBySignature api p.1 (reply p.2) = some (.success p.1 tx)) →
      total.errors = [] →
      ∃ b, getTransactionLoop api reply total css = some b ∧ b.errors = [] := by
    intro css
    induction css with
    | nil => exact fun total _ ht => ⟨total, rfl, ht⟩
    | cons cs css ih =>
      intro total hok ht
      rw [List.flatten_cons] at hok
      obtain ⟨os, hos, he⟩ := fetchAll_some fun p hp => hok p (List.mem_append_left _ hp)
      have hnone : (os.foldl TransactionFetchOutcome.push .empty).errors = [] := by
        rw [foldl_push]
        simp only [he, TransactionBatch.empty, List.append_nil]
      have hchunk : fetchTransactionChunk api reply cs =
          some (os.foldl TransactionFetchOutcome.push .empty) := by
        unfold fetchAll at hos
        unfold fetchTransactionChunk
        rw [hos]
        simp [TransactionBatch.warnFirstError, hnone]
      simp only [getTransactionLoop, hchunk, Option.bind_some]
      refine ih _ (fun p hp => hok p (List.mem_append_right _ hp)) ?_
      simp only [ht, hnone, List.append_nil]
  obtain ⟨b, hb, he⟩ := hloop (chunks 10 signatures.length signatures.zipIdx) .empty
    (by rw [chunks_flatten]; exact h) rfl
  refine ⟨b, ?_⟩
  unfold getTransaction
  rw [hb]
  simp [TransactionBatch.warnFirstError, he]

end Network

/-! ## A small network

Decoders for a given list of pages and of transactions, each a JSON text, on which they do what
the real ones do; other texts are not JSON to them. The sample runs of the development use them. -/

/-- The body of a page. -/
def pageText (result : List Signature) : String :=
  let entry (s : Signature) := "\x7b\"blockTime\":" ++
    (match s.blockTime with | some ts => toString ts | none => "null") ++
    ",\"signature\":\"" ++ s.signature ++ "\"\x7d"
  "\x7b\"result\":[" ++ String.intercalate "," (result.map entry) ++ "]\x7d"

/-- The body of a transaction in which 1.5 SOL go from `"A"` to `"B"`. -/
def transactionText (signature : String) : String :=
  "\x7b\"result\":\x7b\"blockTime\":100,\"meta\":\x7b\"computeUnitsConsumed\":150,\"fee\":5000," ++
  "\"err\":null,\"preTokenBalances\":[],\"postTokenBalances\":[]\x7d,\"transaction\":\x7b" ++
  "\"signatures\":[\"" ++ signature ++ "\"],\"message\":\x7b\"accountKeys\":[\"A\",\"B\"]," ++
  "\"instructions\":[\x7b\"program\":\"system\",\"parsed\":\x7b\"type\":\"transfer\",\"info\":" ++
  "\x7b\"lamports\":1500000000,\"source\":\"A\",\"destination\":\"B\"\x7d\x7d\x7d]\x7d\x7d," ++
  "\"slot\":7\x7d\x7d"

/-- The `result` of `transactionText`. -/
def transactionValue (signature : String) : Value :=
  .object [("blockTime", .number (.posInt 100)),
    ("meta", .object [("computeUnitsConsumed", .number (.posInt 150)),
      ("fee", .number (.posInt 5000)), ("err", .null), ("preTokenBalances", .array []),
      ("postTokenBalances", .array [])]),
    ("transaction", .object [("signatures", .array [.string signature]),
      ("message", .object [("accountKeys", .array [.string "A", .string "B"]),
        ("instructions", .array [.object [("program", .string "system"),
          ("parsed", .object [("type", .string "transfer"),
            ("info", .object [("lamports", .number (.posInt 1500000000)),
              ("source", .string "A"), ("destination", .string "B")])])]])])]),
    ("slot", .number (.posInt 7))]

/-- `transactionText`, decoded. -/
def transactionInfo (signature : String) : TransactionInfo :=
  { blockTime := 100
    «meta» :=
      { computeUnitsConsumed := 150, fee := 5000, preTokenBalances := [], postTokenBalances := [] }
    transaction :=
      { signatures := [signature]
        message :=
          { keys := [.pubkey "A", .pubkey "B"]
            instructions :=
              [{ program := some "system"
                 parsed := some
                   { instructionType := "transfer"
                     info :=
                       { lamports := some 1500000000
                         source := some "A"
                         destination := some "B" } } }] } }
    slot := 7 }

/-- The decoders of a network that serves `pages` and the transactions of `signatures`. -/
@[reducible]
def smallNetwork (pages : List (List Signature)) (signatures : List String) : External where
  decodeSignatures body :=
    match pages.find? fun l => pageText l = body with
    | some l => .ok ⟨.value l, none⟩
    | none => .error "expected value at line 1 column 1"
  decodeEnvelope body :=
    match signatures.find? fun s => transactionText s = body with
    | some s => .ok ⟨.value (transactionValue s), none⟩
    | none => .error "expected value at line 1 column 1"
  decodeTransactionInfo
    | .object [_, _, ("transaction", .object [("signatures", .array [.string s]), _]), _] =>
      .ok (transactionInfo s)
    | _ => .error "invalid type"
  powi10 n := if n = 9 then 1000000000.0 else 1.0
  bigDecimalFromF64 x := if x = 1.5 then some (3 / 2) else none
  statusText status := if status = 200 then "200 OK" else "429 Too Many Requests"
  withinSizes _ := true

/-- The page with status 200, whatever the attempt. -/
def servePage (result : List Signature) : Replies := fun _ => .ok ⟨200, none, pageText result⟩

/-- The transaction with status 200, whatever the attempt. -/
def serveTransaction (signature : String) : Replies := fun _ =>
  .ok ⟨200, none, transactionText signature⟩

/-- No response. -/
def serveNothing : Replies := fun _ => .error "connection closed before message completed"

/-- Where texts differ, a text finds what it was made from. -/
theorem find?_text {τ : Type} {text : τ → String} {l : List τ} {x : τ} (hx : x ∈ l)
    (hinj : ∀ y ∈ l, text y = text x → y = x) : (l.find? fun y => text y = text x) = some x := by
  cases hf : l.find? fun y => text y = text x with
  | none => exact absurd (List.find?_eq_none.mp hf x hx) (by simp)
  | some y =>
    have htext := List.find?_some hf
    rw [hinj y (List.mem_of_find?_eq_some hf) (of_decide_eq_true htext)]

/-- The pages of a small network arrive, if their bodies differ. -/
theorem signaturesOf_servePage_of_mem {pages : List (List Signature)} {signatures : List String}
    (hinj : ∀ l ∈ pages, ∀ l' ∈ pages, pageText l = pageText l' → l = l') {result : List Signature}
    (hr : result ∈ pages) (k : Nat) :
    letI : External := smallNetwork pages signatures
    signaturesOf (servePage result k) = some result := by
  let : External := smallNetwork pages signatures
  have hfind := find?_text hr fun l hl => hinj l hl result hr
  have hdec : (smallNetwork pages signatures).decodeSignatures (pageText result) =
      .ok ⟨.value result, none⟩ := by
    unfold External.decodeSignatures smallNetwork
    simp only [hfind]
  unfold signaturesOf servePage
  simp only [hdec]

/-- The only page of a small network arrives. -/
theorem signaturesOf_servePage (result : List Signature) (signatures : List String) (k : Nat) :
    letI : External := smallNetwork [result] signatures
    signaturesOf (servePage result k) = some result :=
  signaturesOf_servePage_of_mem (fun _ hl _ hl' _ =>
    (List.mem_singleton.mp hl).trans (List.mem_singleton.mp hl').symm) (List.mem_singleton_self _) k

theorem transactionText_injective {s s' : String} (h : transactionText s = transactionText s') :
    s = s' := by
  unfold transactionText at h
  simpa only [String.append_left_inj, String.append_right_inj] using h

/-- A transaction the small network serves arrives, whatever it was asked for. -/
theorem tryFetch_serve (pages : List (List Signature)) {signatures : List String} {s' : String}
    (hs : s' ∈ signatures) (s : String) (k : Nat) :
    letI : External := smallNetwork pages signatures
    tryFetchTransactionOnce s (serveTransaction s' k) = .success (transactionInfo s') 200 := by
  let : External := smallNetwork pages signatures
  have hfind := find?_text hs fun _ _ => transactionText_injective
  have hdec : (smallNetwork pages signatures).decodeEnvelope (transactionText s') =
      .ok ⟨.value (transactionValue s'), none⟩ := by
    unfold External.decodeEnvelope smallNetwork
    simp only [hfind]
  unfold tryFetchTransactionOnce serveTransaction
  simp only [hdec]
  rfl

theorem tryFetch_serveTransaction (pages : List (List Signature)) {signatures : List String}
    {s : String} (hs : s ∈ signatures) (k : Nat) :
    letI : External := smallNetwork pages signatures
    tryFetchTransactionOnce s (serveTransaction s k) = .success (transactionInfo s) 200 :=
  tryFetch_serve pages hs s k

end OnChainEventIndexer
