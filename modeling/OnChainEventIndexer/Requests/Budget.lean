import OnChainEventIndexer.Lib.Retry
import OnChainEventIndexer.Requests.Retries

/-!
# The retry budget

The two request loops as instances of `Retry.Loop`: which replies they take for a rate limit, and
what they return for a reply when no budget is left. `RequestRun` is a call as it happens, with the
requests and registrations of `Requests.Retries` and the way it ends; a warning, or the span of
`get_signatures`, masks an address or a signature and may panic.

* `getSignaturesRun_record`, `fetchTransactionRun_record`: the runs are those of the two loops.
* `getSignatures_of_returned`, `fetchTransaction_of_returned`: what they return is what the client's
  functions return.
* **`retryBudget_iff`**: the budget is kept by both if and only if what they mask can be masked.
-/

namespace OnChainEventIndexer

open Retry

/-! ## A call as it happens -/

/-- The call is `register_rate_limit`. -/
def Call.isRegistration : Call → Bool
  | .registerRateLimit _ => true
  | _ => false

/-- The calls of a loop, and how it ended. -/
structure RequestRun (ρ : Type) where
  calls : List Call
  ending : Ending ρ

/-- ...as a record of the library. -/
def RequestRun.record {ρ : Type} (r : RequestRun ρ) : Record ρ :=
  ⟨r.calls.count .sendRpcRequest, r.calls.countP (·.isRegistration), r.ending⟩

/-- A retry in the record. -/
theorem RequestRun.record_retry {ρ : Type} (retryAfter : Option Nat) (calls : List Call)
    (ending : Ending ρ) :
    RequestRun.record ⟨.sendRpcRequest :: .registerRateLimit retryAfter :: calls, ending⟩ =
      ⟨(RequestRun.record ⟨calls, ending⟩).sent + 1,
        (RequestRun.record ⟨calls, ending⟩).registered + 1, ending⟩ := by
  simp [RequestRun.record, Call.isRegistration]

section Network

variable [External]

/-- How the loop of `get_signatures` ends. -/
def getSignaturesEnding (api : HeliusApi) (address : String) (reply : Replies)
    (requestedHours : Int16) (nowTs : Int) : List Nat → Ending (Except String SignaturesPage)
  | [] => .exhausted
  | attempt :: rest =>
    match getSignaturesAttempt api attempt (reply attempt) requestedHours nowTs with
    | none =>
      match api.warnMasked address with
      | some _ => getSignaturesEnding api address reply requestedHours nowTs rest
      | none => .crashed
    | some r => .returned r

/-- How the loop of `fetch_transaction_by_signature` ends. -/
def fetchTransactionEnding (api : HeliusApi) (signature : String) (reply : Replies) :
    List Nat → Ending TransactionFetchOutcome
  | [] => .exhausted
  | attempt :: rest =>
    match tryFetchTransactionOnce signature (reply attempt) with
    | .success txInfo _ => .returned (.success signature ⟨txInfo, []⟩)
    | .rateLimited fetchError _ =>
      if attempt ≤ api.maxRateLimitRetries then
        match api.warnMasked signature with
        | some _ => fetchTransactionEnding api signature reply rest
        | none => .crashed
      else .returned (.failed fetchError)
    | .fatal fetchError => .returned (.failed fetchError)

/-- `get_signatures`; an enabled span masks the address before anything else happens. -/
def getSignaturesRun (api : HeliusApi) (spanEnabled : Bool) (address : String) (reply : Replies)
    (requestedHours : Int16) (nowTs : Int) : RequestRun (Except String SignaturesPage) :=
  if spanEnabled = true ∧ maskAddr address = none then ⟨[], .crashed⟩
  else
    ⟨getSignaturesCalls api address reply requestedHours nowTs api.attempts,
      getSignaturesEnding api address reply requestedHours nowTs api.attempts⟩

/-- `fetch_transaction_by_signature` -/
def fetchTransactionRun (api : HeliusApi) (signature : String) (reply : Replies) :
    RequestRun TransactionFetchOutcome :=
  ⟨fetchTransactionCalls api signature reply api.attempts,
    fetchTransactionEnding api signature reply api.attempts⟩

/-! ## What a reply determines -/

/-- What `get_signatures` returns for a reply when no budget is left. -/
def signaturesOutcome (requestedHours : Int16) (nowTs : Int)
    (response : Except String RpcHttpResponse) : Except String SignaturesPage :=
  (getSignaturesAttempt ⟨0, false⟩ 1 response requestedHours nowTs).getD (.error "")

/-- What `fetch_transaction_by_signature` returns for it. -/
def transactionOutcome (signature : String) (response : Except String RpcHttpResponse) :
    TransactionFetchOutcome :=
  match tryFetchTransactionOnce signature response with
  | .success txInfo _ => .success signature ⟨txInfo, []⟩
  | .rateLimited fetchError _ => .failed fetchError
  | .fatal fetchError => .failed fetchError

/-- A reply is limited if a response arrived that is. -/
def Limited (limited : RpcHttpResponse → Prop) : Except String RpcHttpResponse → Prop
  | .error _ => False
  | .ok response => limited response

/-- The loop of `get_signatures`. -/
def signaturesLoop (api : HeliusApi) (address : String) (requestedHours : Int16) (nowTs : Int) :
    Loop (Except String RpcHttpResponse) (Except String SignaturesPage) where
  retries := api.maxRateLimitRetries
  limited := Limited SignaturesLimited
  outcome := signaturesOutcome requestedHours nowTs
  warns := api.warnMasked address ≠ none

/-- The loop of `fetch_transaction_by_signature`. -/
def transactionLoop (api : HeliusApi) (signature : String) :
    Loop (Except String RpcHttpResponse) TransactionFetchOutcome where
  retries := api.maxRateLimitRetries
  limited := Limited TransactionLimited
  outcome := transactionOutcome signature
  warns := api.warnMasked signature ≠ none

variable {api : HeliusApi} {address signature : String} {reply reply' : Replies} {hours : Int16}
  {nowTs : Int} {attempt : Nat}

/-! ## The runs of the loops -/

theorem getSignaturesAttempt_none :
    getSignaturesAttempt api attempt (reply attempt) hours nowTs = none ↔
      (signaturesLoop api address hours nowTs).Retries reply attempt := by
  unfold Loop.Retries signaturesLoop Limited
  cases hr : reply attempt with
  | error error => simp [getSignaturesAttempt]
  | ok response => exact getSignaturesAttempt_eq_none

/-- An attempt that ends the loop ends it with what its reply determines. -/
theorem getSignaturesAttempt_some {response : Except String RpcHttpResponse}
    {r : Except String SignaturesPage}
    (h : getSignaturesAttempt api attempt response hours nowTs = some r) :
    r = signaturesOutcome hours nowTs response := by
  unfold signaturesOutcome
  unfold getSignaturesAttempt at h ⊢
  cases response with
  | error error => exact (Option.some.inj h).symm
  | ok response =>
    cases hd : External.decodeSignatures response.bodyText with
    | error error =>
      simp only [hd] at h ⊢
      split at h
      · exact absurd h (by simp)
      · simpa using h.symm
    | ok rpcResponse =>
      obtain ⟨field, err⟩ := rpcResponse
      simp only [hd] at h ⊢
      cases err with
      | some e =>
        simp only at h ⊢
        split at h
        · exact absurd h (by simp)
        · simpa using h.symm
      | none =>
        cases field with
        | missing => simpa using h.symm
        | null => simpa using h.symm
        | value result => simpa using h.symm

/-- **The run of `get_signatures`**, once its span is open. -/
theorem getSignaturesRun_record (l : List Nat) :
    RequestRun.record ⟨getSignaturesCalls api address reply hours nowTs l,
      getSignaturesEnding api address reply hours nowTs l⟩ =
        (signaturesLoop api address hours nowTs).run reply l := by
  induction l with
  | nil => rfl
  | cons attempt rest ih =>
    cases hr : getSignaturesAttempt api attempt (reply attempt) hours nowTs with
    | none =>
      have hretries : (signaturesLoop api address hours nowTs).Retries reply attempt :=
        getSignaturesAttempt_none.mp hr
      cases hw : api.warnMasked address with
      | none =>
        rw [Loop.run_crash hretries (fun h => h hw), getSignaturesCalls, getSignaturesEnding, hr, hw]
        rfl
      | some u =>
        rw [Loop.run_go hretries (show api.warnMasked address ≠ none by rw [hw]; simp), ← ih,
          getSignaturesCalls, getSignaturesEnding, hr, hw]
        exact RequestRun.record_retry _ _ _
    | some r =>
      have hstop : ¬(signaturesLoop api address hours nowTs).Retries reply attempt := fun h =>
        absurd (hr.symm.trans (getSignaturesAttempt_none.mpr h)) (by simp)
      have hout : (signaturesLoop api address hours nowTs).outcome (reply attempt) = r :=
        (getSignaturesAttempt_some hr).symm
      rw [Loop.run_stop hstop, hout, getSignaturesCalls, getSignaturesEnding, hr]
      cases r <;> rfl

theorem tryFetch_limited {error : TransactionFetchError} {retryAfter : Option Nat}
    (h : tryFetchTransactionOnce signature (reply attempt) = .rateLimited error retryAfter) :
    Limited TransactionLimited (reply attempt) := by
  cases hr : reply attempt with
  | error e =>
    rw [hr] at h
    exact absurd h (by simp [tryFetchTransactionOnce])
  | ok response => exact (tryFetch_rateLimited (hr ▸ h)).1

/-- A reply that is no rate limit is not limited. -/
theorem not_limited (signature : String) (h : ∀ error retryAfter,
    tryFetchTransactionOnce signature (reply attempt) ≠ .rateLimited error retryAfter) :
    ¬Limited TransactionLimited (reply attempt) := by
  intro hlimited
  cases hr : reply attempt with
  | error e => rw [hr] at hlimited; exact hlimited
  | ok response =>
    rw [hr] at hlimited
    obtain ⟨error, herror⟩ := tryFetch_of_limited signature hlimited
    exact h error _ (hr ▸ herror)

/-- **The run of `fetch_transaction_by_signature`.** -/
theorem fetchTransactionRun_record (l : List Nat) :
    RequestRun.record ⟨fetchTransactionCalls api signature reply l,
      fetchTransactionEnding api signature reply l⟩ =
        (transactionLoop api signature).run reply l := by
  induction l with
  | nil => rfl
  | cons attempt rest ih =>
    cases hr : tryFetchTransactionOnce signature (reply attempt) with
    | success txInfo status =>
      have hstop : ¬(transactionLoop api signature).Retries reply attempt := fun h =>
        not_limited signature (by rw [hr]; simp) h.1
      rw [Loop.run_stop hstop, fetchTransactionCalls, fetchTransactionEnding]
      simp only [transactionLoop, transactionOutcome, hr]
      rfl
    | fatal error =>
      have hstop : ¬(transactionLoop api signature).Retries reply attempt := fun h =>
        not_limited signature (by rw [hr]; simp) h.1
      rw [Loop.run_stop hstop, fetchTransactionCalls, fetchTransactionEnding]
      simp only [transactionLoop, transactionOutcome, hr]
      rfl
    | rateLimited error retryAfter =>
      have hlimited := tryFetch_limited hr
      by_cases hle : attempt ≤ api.maxRateLimitRetries
      · have hretries : (transactionLoop api signature).Retries reply attempt := ⟨hlimited, hle⟩
        cases hw : api.warnMasked signature with
        | none =>
          rw [Loop.run_crash hretries (fun h => h hw), fetchTransactionCalls, fetchTransactionEnding]
          simp only [hr, hw, if_pos hle]
          rfl
        | some u =>
          rw [Loop.run_go hretries (show api.warnMasked signature ≠ none by rw [hw]; simp), ← ih,
            fetchTransactionCalls, fetchTransactionEnding]
          simp only [hr, hw, if_pos hle]
          exact RequestRun.record_retry _ _ _
      · have hstop : ¬(transactionLoop api signature).Retries reply attempt := fun h => hle h.2
        rw [Loop.run_stop hstop, fetchTransactionCalls, fetchTransactionEnding]
        simp only [transactionLoop, transactionOutcome, hr, if_neg hle]
        rfl

/-! ## What is returned -/

theorem getSignaturesLoop_of_returned {r : Except String SignaturesPage} {l : List Nat}
    (h : getSignaturesEnding api address reply hours nowTs l = .returned r) :
    getSignaturesLoop api reply hours nowTs l = r := by
  induction l with
  | nil => exact absurd h (by simp [getSignaturesEnding])
  | cons attempt rest ih =>
    simp only [getSignaturesEnding] at h
    simp only [getSignaturesLoop]
    cases hr : getSignaturesAttempt api attempt (reply attempt) hours nowTs with
    | none =>
      rw [hr] at h
      cases hw : api.warnMasked address with
      | none => rw [hw] at h; exact absurd h (by simp)
      | some u => rw [hw] at h; exact ih h
    | some r' =>
      rw [hr] at h
      exact Ending.returned.inj h

/-- **What the run of `get_signatures` returns** is what `getSignatures` says. -/
theorem getSignatures_of_returned {spanEnabled : Bool} {r : Except String SignaturesPage}
    (h : (getSignaturesRun api spanEnabled address reply hours nowTs).ending = .returned r) :
    getSignatures api reply hours nowTs = r := by
  unfold getSignaturesRun at h
  split at h
  · exact absurd h (by simp)
  · exact getSignaturesLoop_of_returned h

/-- **What the run of `fetch_transaction_by_signature` returns**, likewise. -/
theorem fetchTransaction_of_returned {o : TransactionFetchOutcome}
    (h : (fetchTransactionRun api signature reply).ending = .returned o) :
    fetchTransactionBySignature api signature reply = some o := by
  unfold fetchTransactionRun at h
  unfold fetchTransactionBySignature
  simp only at h
  generalize (none : Option TransactionFetchError) = last
  generalize api.attempts = l at h
  induction l generalizing last with
  | nil => exact absurd h (by simp [fetchTransactionEnding])
  | cons attempt rest ih =>
    simp only [fetchTransactionEnding] at h
    simp only [fetchTransactionLoop]
    cases hr : tryFetchTransactionOnce signature (reply attempt) with
    | success txInfo status =>
      simp only [hr] at h
      exact congrArg some (Ending.returned.inj h)
    | fatal error =>
      simp only [hr] at h
      exact congrArg some (Ending.returned.inj h)
    | rateLimited error retryAfter =>
      simp only [hr] at h ⊢
      by_cases hle : attempt ≤ api.maxRateLimitRetries
      · rw [if_pos hle] at h ⊢
        cases hw : api.warnMasked signature with
        | none => rw [hw] at h; exact absurd h (by simp)
        | some u => rw [hw] at h; exact ih _ h
      · rw [if_neg hle] at h ⊢
        exact congrArg some (Ending.returned.inj h)

/-! ## The budget -/

theorem getSignaturesRun_keepsBudget {spanEnabled : Bool} :
    KeepsBudget (signaturesLoop api address hours nowTs) reply
        (getSignaturesRun api spanEnabled address reply hours nowTs).record ↔
      (spanEnabled = true → Maskable address) ∧
      (1 ≤ api.maxRateLimitRetries → Limited SignaturesLimited (reply 1) →
        api.warnEnabled = true → Maskable address) := by
  rw [← HeliusApi.warnMasked_ne_none]
  unfold getSignaturesRun
  split
  · rename_i h
    refine iff_of_false (fun hk => ?_) fun hm => maskAddr_ne_none.mpr (hm.1 h.1) h.2
    exact absurd hk.ending (by simp [RequestRun.record])
  · rename_i h
    have hspan : spanEnabled = true → Maskable address := fun hs =>
      maskAddr_ne_none.mp fun hn => h ⟨hs, hn⟩
    rw [getSignaturesRun_record]
    exact ⟨fun hk => ⟨hspan, Loop.keepsBudget_iff.mp hk⟩, fun hm => Loop.keepsBudget_iff.mpr hm.2⟩

/-- **The retry budget is kept** by both loops if and only if the span can mask the address, and
each loop whose first reply is limited, with a retry left, can mask what its warning names. -/
theorem retryBudget_iff {spanEnabled : Bool} :
    (KeepsBudget (signaturesLoop api address hours nowTs) reply
        (getSignaturesRun api spanEnabled address reply hours nowTs).record ∧
      KeepsBudget (transactionLoop api signature) reply'
        (fetchTransactionRun api signature reply').record) ↔
    ((spanEnabled = true → Maskable address) ∧
      (1 ≤ api.maxRateLimitRetries → Limited SignaturesLimited (reply 1) →
        api.warnEnabled = true → Maskable address)) ∧
    (1 ≤ api.maxRateLimitRetries → Limited TransactionLimited (reply' 1) →
      api.warnEnabled = true → Maskable signature) := by
  refine and_congr getSignaturesRun_keepsBudget ?_
  unfold fetchTransactionRun
  rw [← HeliusApi.warnMasked_ne_none, fetchTransactionRun_record]
  exact Loop.keepsBudget_iff

end Network

/-- **A budget that is not kept**: one retry, and a signature of seven two-byte characters. -/
theorem not_keepsBudget_accents : letI : External := smallNetwork [] []
    ¬KeepsBudget (transactionLoop ⟨1, true⟩ "ééééééé") (fun _ => .ok tooMany)
      (fetchTransactionRun ⟨1, true⟩ "ééééééé" fun _ => .ok tooMany).record := by
  let : External := smallNetwork [] []
  intro h
  unfold fetchTransactionRun at h
  rw [fetchTransactionRun_record] at h
  have hlimited : Limited TransactionLimited (.ok tooMany) :=
    (transactionLimited_429 rfl).mpr (Or.inl ⟨_, rfl⟩)
  exact Loop.keepsBudget_iff.mp h (Nat.le_refl 1) hlimited (by decide)

end OnChainEventIndexer
