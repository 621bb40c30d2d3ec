import OnChainEventIndexer.Requests.Client

/-!
# When the loops retry

The two request loops once more, with the calls they make of the rest of the client: each attempt
sends a request, a retry registers the rate limit before the next one, a success lets the backoff
be reset. `Retried response calls`: the response is followed by a registration and a request.

Which responses are retried is coded twice. `getSignaturesCalls_retried` and
`fetchTransactionCalls_retried` read it off each loop; `tooManyRequests_retried_iff` says for which
bodies a status 429 is retried by both, `retries_alike_iff` for which failures they agree.
-/

namespace OnChainEventIndexer

/-- What a loop calls. -/
inductive Call
  | sendRpcRequest
  | registerRateLimit (retryAfter : Option Nat)
  | resetRateLimitBackoffIfIdle
deriving DecidableEq

/-- The attempts from one on. -/
def HeliusApi.attemptsFrom (api : HeliusApi) (attempt : Nat) : List Nat :=
  List.range' attempt (api.maxRateLimitRetries + 2 - attempt)

/-- The retry header of a response. -/
def retryAfterOf : Except String RpcHttpResponse → Option Nat
  | .ok response => response.retryAfter
  | .error _ => none

section Attempts

variable {api : HeliusApi} {attempt : Nat} {response : RpcHttpResponse}

theorem attemptsFrom_of_le (h : attempt ≤ api.maxRateLimitRetries) :
    ∃ rest, api.attemptsFrom attempt = attempt :: (attempt + 1) :: rest := by
  unfold HeliusApi.attemptsFrom
  obtain ⟨n, hn⟩ : ∃ n, api.maxRateLimitRetries + 2 - attempt = n + 1 + 1 :=
    ⟨api.maxRateLimitRetries - attempt, by omega⟩
  rw [hn, List.range'_succ, List.range'_succ]
  exact ⟨_, rfl⟩

theorem attemptsFrom_of_lt (api : HeliusApi) (h : api.maxRateLimitRetries < attempt) :
    api.attemptsFrom attempt = [] ∨ api.attemptsFrom attempt = [attempt] := by
  unfold HeliusApi.attemptsFrom
  rcases (by omega : api.maxRateLimitRetries + 2 - attempt = 0 ∨
    api.maxRateLimitRetries + 2 - attempt = 1) with h0 | h1
  · exact Or.inl (by rw [h0]; rfl)
  · exact Or.inr (by rw [h1]; rfl)

/-- After the response the loop registers the rate limit and sends another request. -/
def Retried (response : RpcHttpResponse) (calls : List Call) : Prop :=
  [.sendRpcRequest, .registerRateLimit response.retryAfter, .sendRpcRequest] <+: calls

theorem not_retried_of_length {calls : List Call} (h : calls.length ≤ 2) :
    ¬Retried response calls := by
  intro hr
  have hlen : 3 ≤ calls.length := hr.length_le
  omega

/-- A registration is followed by a request as soon as the warning can be written. -/
theorem retried_iff_warned {next : List Call} (hnext : [.sendRpcRequest] <+: next)
    (warned : Option Unit) :
    Retried response (.sendRpcRequest :: .registerRateLimit response.retryAfter ::
      match warned with
      | some _ => next
      | none => []) ↔ warned ≠ none := by
  cases warned with
  | none => exact iff_of_false (not_retried_of_length (Nat.le_refl 2)) fun h => h rfl
  | some u =>
    obtain ⟨tail, rfl⟩ := hnext
    exact iff_of_true ⟨tail, rfl⟩ (by simp)

end Attempts

theorem isRateLimited_429 (rpcCode : Option Int) (message : String) :
    isRateLimited (some 429) rpcCode message = true := rfl

theorem isRateLimited_other {status : Nat} (h : status ≠ 429) (rpcCode : Option Int)
    (message : String) : isRateLimited (some status) rpcCode message =
      isRateLimited none rpcCode message := by
  unfold isRateLimited
  simp [h]

/-- A message that ends in a rate limit is one. -/
theorem isRateLimited_append {statusCode : Option Nat} {rpcCode : Option Int} (s : String)
    {message : String} (h : isRateLimited statusCode rpcCode message = true) :
    isRateLimited statusCode rpcCode (s ++ message) = true := by
  have hcontains : ∀ pat, contains (toAsciiLowercase message) pat = true →
      contains (toAsciiLowercase (s ++ message)) pat = true := by
    intro pat hpat
    unfold contains toAsciiLowercase at hpat ⊢
    simp only [decide_eq_true_eq, String.toList_map, String.toList_append, List.map_append] at hpat ⊢
    exact hpat.trans (List.suffix_append _ _).isInfix
  unfold isRateLimited at h ⊢
  simp only at h ⊢
  split at h
  · rename_i hstatus
    rw [if_pos hstatus]
  · rename_i hstatus
    rw [if_neg hstatus]
    split at h
    · rename_i hcode
      rw [if_pos hcode]
    · rename_i hcode
      rw [if_neg hcode]
      simp only [Bool.or_eq_true] at h ⊢
      exact h.imp (Or.imp (hcontains _) (hcontains _)) (hcontains _)

section Network

variable [External]

/-- The calls of the loop of `get_signatures`; a retry writes a warning with the address. -/
def getSignaturesCalls (api : HeliusApi) (address : String) (reply : Replies)
    (requestedHours : Int16) (nowTs : Int) : List Nat → List Call
  | [] => []
  | attempt :: rest =>
    match getSignaturesAttempt api attempt (reply attempt) requestedHours nowTs with
    | none => .sendRpcRequest :: .registerRateLimit (retryAfterOf (reply attempt)) ::
      match api.warnMasked address with
      | some _ => getSignaturesCalls api address reply requestedHours nowTs rest
      | none => []
    | some (.ok _) => [.sendRpcRequest, .resetRateLimitBackoffIfIdle]
    | some (.error _) => [.sendRpcRequest]

/-- The calls of the loop of `fetch_transaction_by_signature`. -/
def fetchTransactionCalls (api : HeliusApi) (signature : String) (reply : Replies) :
    List Nat → List Call
  | [] => []
  | attempt :: rest =>
    match tryFetchTransactionOnce signature (reply attempt) with
    | .success _ _ => [.sendRpcRequest, .resetRateLimitBackoffIfIdle]
    | .rateLimited _ retryAfter =>
      if attempt ≤ api.maxRateLimitRetries then
        .sendRpcRequest :: .registerRateLimit retryAfter ::
        match api.warnMasked signature with
        | some _ => fetchTransactionCalls api signature reply rest
        | none => []
      else [.sendRpcRequest]
    | .fatal _ => [.sendRpcRequest]

variable {api : HeliusApi} {address signature : String} {reply reply' : Replies} {hours : Int16}
  {nowTs : Int} {attempt : Nat} {response : RpcHttpResponse}

/-! ## What is retried -/

/-- `get_signatures` takes the response for a rate limit. -/
def SignaturesLimited (response : RpcHttpResponse) : Prop :=
  match External.decodeSignatures response.bodyText with
  | .error _ => response.status = 429
  | .ok rpcResponse => ∃ e, rpcResponse.error = some e ∧ e.isRateLimited = true

/-- The message of a response that is not an envelope. -/
def decodeFailure (response : RpcHttpResponse) (error : String) : String :=
  "failed to decode rpc envelope: " ++ error ++ "; body=" ++ bodySnippet response.bodyText

/-- `try_fetch_transaction_once` takes the response for a rate limit. -/
def TransactionLimited (response : RpcHttpResponse) : Prop :=
  match External.decodeEnvelope response.bodyText with
  | .error error => isRateLimited (some response.status) none (decodeFailure response error) = true
  | .ok rpcResponse => ∃ e, rpcResponse.error = some e ∧
      isRateLimited (some response.status) (some e.code) e.message = true

theorem getSignaturesAttempt_eq_none :
    getSignaturesAttempt api attempt (.ok response) hours nowTs = none ↔
      SignaturesLimited response ∧ attempt ≤ api.maxRateLimitRetries := by
  unfold getSignaturesAttempt SignaturesLimited
  cases hd : External.decodeSignatures response.bodyText with
  | error error =>
    simp only [hd]
    split
    · rename_i h
      exact ⟨fun _ => h, fun _ => rfl⟩
    · rename_i h
      exact ⟨fun hn => absurd hn (by simp), fun hn => absurd hn h⟩
  | ok rpcResponse =>
    obtain ⟨field, err⟩ := rpcResponse
    simp only [hd]
    cases err with
    | none => cases field <;> simp
    | some e =>
      simp only [Option.some.injEq, exists_eq_left']
      split
      · rename_i h
        exact ⟨fun _ => h, fun _ => rfl⟩
      · rename_i h
        exact ⟨fun hn => absurd hn (by simp), fun hn => absurd hn h⟩

/-- A rate limit comes with the retry header of its response. -/
theorem tryFetch_rateLimited {error : TransactionFetchError} {retryAfter : Option Nat}
    (h : tryFetchTransactionOnce signature (.ok response) = .rateLimited error retryAfter) :
    TransactionLimited response ∧ retryAfter = response.retryAfter := by
  unfold tryFetchTransactionOnce at h
  unfold TransactionLimited
  cases hd : External.decodeEnvelope response.bodyText with
  | error err =>
    simp only [hd] at h ⊢
    split at h
    · rename_i hlimited
      exact ⟨hlimited, (FetchAttempt.rateLimited.inj h).2.symm⟩
    · exact absurd h (by simp)
  | ok rpcResponse =>
    obtain ⟨field, err⟩ := rpcResponse
    simp only [hd] at h ⊢
    cases err with
    | none =>
      cases field with
      | value v => cases hv : External.decodeTransactionInfo v <;> simp [hv] at h
      | _ => simp at h
    | some e =>
      simp only at h
      split at h
      · rename_i hlimited
        exact ⟨⟨e, rfl, hlimited⟩, (FetchAttempt.rateLimited.inj h).2.symm⟩
      · exact absurd h (by simp)

theorem tryFetch_of_limited (signature : String) (h : TransactionLimited response) :
    ∃ error, tryFetchTransactionOnce signature (.ok response) =
      .rateLimited error response.retryAfter := by
  unfold TransactionLimited at h
  unfold tryFetchTransactionOnce
  cases hd : External.decodeEnvelope response.bodyText with
  | error err =>
    simp only [hd] at h ⊢
    exact ⟨_, if_pos h⟩
  | ok rpcResponse =>
    simp only [hd] at h ⊢
    obtain ⟨e, he, hlimited⟩ := h
    rw [he]
    exact ⟨_, if_pos hlimited⟩

/-! ## The calls of a retry -/

/-- Every attempt starts with a request. -/
theorem getSignaturesCalls_cons (rest : List Nat) :
    [.sendRpcRequest] <+: getSignaturesCalls api address reply hours nowTs (attempt :: rest) := by
  simp only [getSignaturesCalls]
  split <;> exact ⟨_, rfl⟩

theorem fetchTransactionCalls_cons (rest : List Nat) :
    [.sendRpcRequest] <+: fetchTransactionCalls api signature reply (attempt :: rest) := by
  simp only [fetchTransactionCalls]
  split
  · exact ⟨_, rfl⟩
  · split <;> exact ⟨_, rfl⟩
  · exact ⟨_, rfl⟩

/-- **What `get_signatures` retries.** -/
theorem getSignaturesCalls_retried (hr : reply attempt = .ok response) :
    Retried response (getSignaturesCalls api address reply hours nowTs (api.attemptsFrom attempt)) ↔
      attempt ≤ api.maxRateLimitRetries ∧ SignaturesLimited response ∧
        api.warnMasked address ≠ none := by
  by_cases hle : attempt ≤ api.maxRateLimitRetries
  · obtain ⟨rest, hrest⟩ := attemptsFrom_of_le hle
    rw [hrest]
    by_cases hlimited : SignaturesLimited response
    · have hnone : getSignaturesAttempt api attempt (reply attempt) hours nowTs = none := by
        rw [hr]
        exact getSignaturesAttempt_eq_none.mpr ⟨hlimited, hle⟩
      rw [getSignaturesCalls, hnone, hr]
      simp only [retryAfterOf, hle, hlimited, true_and]
      exact retried_iff_warned (getSignaturesCalls_cons rest) _
    · refine iff_of_false ?_ fun h => hlimited h.2.1
      cases hres : getSignaturesAttempt api attempt (reply attempt) hours nowTs with
      | none =>
        rw [hr] at hres
        exact absurd (getSignaturesAttempt_eq_none.mp hres).1 hlimited
      | some r =>
        rw [getSignaturesCalls, hres]
        cases r <;> exact not_retried_of_length (by simp)
  · refine iff_of_false ?_ fun h => hle h.1
    rcases attemptsFrom_of_lt api (Nat.lt_of_not_le hle) with h | h
    · rw [h]
      exact not_retried_of_length (Nat.zero_le _)
    · rw [h, getSignaturesCalls]
      refine not_retried_of_length ?_
      cases hres : getSignaturesAttempt api attempt (reply attempt) hours nowTs with
      | none =>
        rw [hr] at hres
        exact absurd (getSignaturesAttempt_eq_none.mp hres).2 hle
      | some r => cases r <;> simp

/-- **What `fetch_transaction_by_signature` retries.** -/
theorem fetchTransactionCalls_retried (hr : reply attempt = .ok response) :
    Retried response (fetchTransactionCalls api signature reply (api.attemptsFrom attempt)) ↔
      attempt ≤ api.maxRateLimitRetries ∧ TransactionLimited response ∧
        api.warnMasked signature ≠ none := by
  by_cases hle : attempt ≤ api.maxRateLimitRetries
  · obtain ⟨rest, hrest⟩ := attemptsFrom_of_le hle
    rw [hrest]
    by_cases hlimited : TransactionLimited response
    · obtain ⟨error, herror⟩ := tryFetch_of_limited signature hlimited
      rw [fetchTransactionCalls, hr, herror]
      simp only [hle, hlimited, true_and, if_true]
      exact retried_iff_warned (fetchTransactionCalls_cons rest) _
    · refine iff_of_false ?_ fun h => hlimited h.2.1
      rw [fetchTransactionCalls, hr]
      cases hres : tryFetchTransactionOnce signature (.ok response) with
      | rateLimited error retryAfter => exact absurd (tryFetch_rateLimited hres).1 hlimited
      | _ => exact not_retried_of_length (by simp)
  · refine iff_of_false ?_ fun h => hle h.1
    rcases attemptsFrom_of_lt api (Nat.lt_of_not_le hle) with h | h
    · rw [h]
      exact not_retried_of_length (Nat.zero_le _)
    · rw [h, fetchTransactionCalls]
      refine not_retried_of_length ?_
      cases hres : tryFetchTransactionOnce signature (reply attempt) with
      | rateLimited error retryAfter => simp [hle]
      | _ => simp

/-! ## Status 429 -/

/-- The body decodes to an envelope with the error object `e`. -/
def CarriesError {τ : Type} (decoded : Except String (RpcEnvelope τ)) (e : RpcError) : Prop :=
  ∃ rpcResponse, decoded = .ok rpcResponse ∧ rpcResponse.error = some e

/-- The body is no envelope. -/
def NoEnvelope {τ : Type} (decoded : Except String (RpcEnvelope τ)) : Prop :=
  ∃ error, decoded = .error error

/-- With status 429 `get_signatures` looks for no envelope, or a rate limit in the error object. -/
theorem signaturesLimited_429 (h : response.status = 429) : SignaturesLimited response ↔
    NoEnvelope (External.decodeSignatures response.bodyText) ∨
      ∃ e, CarriesError (External.decodeSignatures response.bodyText) e ∧
        e.isRateLimited = true := by
  unfold SignaturesLimited NoEnvelope CarriesError
  cases External.decodeSignatures response.bodyText with
  | error error => simp [h]
  | ok rpcResponse => simp

/-- With status 429 `try_fetch_transaction_once` looks for no envelope, or any error object. -/
theorem transactionLimited_429 (h : response.status = 429) : TransactionLimited response ↔
    NoEnvelope (External.decodeEnvelope response.bodyText) ∨
      ∃ e, CarriesError (External.decodeEnvelope response.bodyText) e := by
  unfold TransactionLimited NoEnvelope CarriesError
  rw [h]
  cases External.decodeEnvelope response.bodyText with
  | error error => simp [isRateLimited_429]
  | ok rpcResponse => simp [isRateLimited_429]

/-- **A status 429 is retried** by both loops, with budget left, if and only if the body is no
envelope or carries an error object that is a rate limit of its own; the second loop takes any
error object. (And the warning can be written.) -/
theorem tooManyRequests_retried_iff (hleft : attempt ≤ api.maxRateLimitRetries)
    (hstatus : response.status = 429) (hr : reply attempt = .ok response)
    (hr' : reply' attempt = .ok response) :
    (Retried response
        (getSignaturesCalls api address reply hours nowTs (api.attemptsFrom attempt)) ∧
      Retried response (fetchTransactionCalls api signature reply' (api.attemptsFrom attempt))) ↔
    (NoEnvelope (External.decodeSignatures response.bodyText) ∨
      ∃ e, CarriesError (External.decodeSignatures response.bodyText) e ∧ e.isRateLimited = true) ∧
    (NoEnvelope (External.decodeEnvelope response.bodyText) ∨
      ∃ e, CarriesError (External.decodeEnvelope response.bodyText) e) ∧
    api.warnMasked address ≠ none ∧ api.warnMasked signature ≠ none := by
  rw [getSignaturesCalls_retried hr, fetchTransactionCalls_retried hr',
    signaturesLimited_429 hstatus, transactionLimited_429 hstatus]
  tauto

end Network

/-- A proxy's page with status 429. -/
def tooMany : RpcHttpResponse := ⟨429, some 1, "Too many requests"⟩

theorem tooManyRequests_retried_iff_page : letI : External := smallNetwork [] []
    Retried tooMany (getSignaturesCalls ⟨1, true⟩ "A" (fun _ => .ok tooMany) 1 0 [1, 2]) ∧
      Retried tooMany (fetchTransactionCalls ⟨1, true⟩ "s1" (fun _ => .ok tooMany) [1, 2]) := by
  let : External := smallNetwork [] []
  exact (@tooManyRequests_retried_iff _ ⟨1, true⟩ "A" "s1" _ _ 1 0 1 tooMany (Nat.le_refl 1) rfl rfl
    rfl).mpr ⟨Or.inl ⟨_, rfl⟩, Or.inl ⟨_, rfl⟩, by decide, by decide⟩

/-- An error object that is no rate limit of its own. -/
def busyError : RpcError := ⟨-32000, "Server is busy"⟩

/-- The body of `busyError`. -/
def busyText : String :=
  "\x7b\"jsonrpc\":\"2.0\",\"error\":\x7b\"code\":-32000,\"message\":\"Server is busy\"\x7d," ++
  "\"id\":\"1\"\x7d"

/-- The decoders of a network that answers with it. -/
@[reducible]
def busyNetwork : External :=
  { smallNetwork [] [] with
    decodeSignatures := fun body =>
      if body = busyText then .ok ⟨.missing, some busyError⟩
      else .error "expected value at line 1 column 1"
    decodeEnvelope := fun body =>
      if body = busyText then .ok ⟨.missing, some busyError⟩
      else .error "expected value at line 1 column 1" }

/-- **A status 429 that is fatal**: `get_signatures` gives up at once on an error object with code
-32000. -/
theorem not_retried_busy : letI : External := busyNetwork
    let response : RpcHttpResponse := ⟨429, some 1, busyText⟩
    ¬Retried response
        (getSignaturesCalls ⟨5, true⟩ "A" (fun _ => .ok response) 1 0 [1, 2, 3, 4, 5, 6]) ∧
      Retried response
        (fetchTransactionCalls ⟨5, true⟩ "s1" (fun _ => .ok response) [1, 2, 3, 4, 5, 6]) := by
  let : External := busyNetwork
  intro response
  have hsignatures : External.decodeSignatures busyText = .ok ⟨.missing, some busyError⟩ :=
    if_pos rfl
  have henvelope : External.decodeEnvelope busyText = .ok ⟨.missing, some busyError⟩ := if_pos rfl
  constructor
  · intro h
    have hlimited := ((@getSignaturesCalls_retried _ ⟨5, true⟩ _ _ _ _ 1 _ rfl).mp h).2.1
    rcases (signaturesLimited_429 rfl).mp hlimited with ⟨error, herror⟩ | ⟨e, ⟨env, henv, he⟩, hrl⟩
    · exact absurd (hsignatures.symm.trans herror) (by simp)
    · obtain rfl := Except.ok.inj (hsignatures.symm.trans henv)
      obtain rfl := Option.some.inj he
      exact absurd hrl (by decide +kernel)
  · exact (@fetchTransactionCalls_retried _ ⟨5, true⟩ "s1" _ 1 _ rfl).mpr
      ⟨by decide, (transactionLimited_429 rfl).mpr (Or.inr ⟨busyError, _, henvelope, rfl⟩), by decide⟩

/-! ## The two loops compared -/

section Compared

variable [External] {api : HeliusApi} {address signature : String} {reply reply' : Replies}
  {hours : Int16} {nowTs : Int} {attempt : Nat} {response : RpcHttpResponse}

/-- The body is no envelope, or one with an error object; for both decoders. -/
def Failure (body : String) : Prop :=
  (NoEnvelope (External.decodeSignatures body) ∨
      ∃ e, CarriesError (External.decodeSignatures body) e) ∧
    (NoEnvelope (External.decodeEnvelope body) ∨ ∃ e, CarriesError (External.decodeEnvelope body) e)

/-- What both loops make of a failure is the same: with status 429 an error object has to be a rate
limit of its own; with any other status, the error object is a rate limit for both, or for none, and
a body that is no envelope must not mention one. -/
def Alike (response : RpcHttpResponse) : Prop :=
  if response.status = 429 then
    ∀ e, CarriesError (External.decodeSignatures response.bodyText) e → e.isRateLimited = true
  else
    (∃ e, CarriesError (External.decodeSignatures response.bodyText) e ∧ e.isRateLimited = true) ↔
      (∃ e, CarriesError (External.decodeEnvelope response.bodyText) e ∧ e.isRateLimited = true) ∨
      ∃ error, External.decodeEnvelope response.bodyText = .error error ∧
        isRateLimited none none (decodeFailure response error) = true

theorem alike_iff (hfail : Failure response.bodyText) :
    (SignaturesLimited response ↔ TransactionLimited response) ↔ Alike response := by
  unfold Alike
  split
  · rename_i h429
    rw [signaturesLimited_429 h429, transactionLimited_429 h429, iff_true_right hfail.2]
    constructor
    · rintro (⟨error, herror⟩ | ⟨e, hcarries, hlimited⟩) e' hcarries'
      · obtain ⟨rpcResponse, hok, -⟩ := hcarries'
        exact absurd (herror.symm.trans hok) (by simp)
      · obtain ⟨rpcResponse, hok, he⟩ := hcarries
        obtain ⟨rpcResponse', hok', he'⟩ := hcarries'
        obtain rfl := Except.ok.inj (hok.symm.trans hok')
        obtain rfl := Option.some.inj (he.symm.trans he')
        exact hlimited
    · exact fun h => hfail.1.imp_right fun ⟨e, he⟩ => ⟨e, he, h e he⟩
  · rename_i hother
    refine iff_congr ?_ ?_
    · unfold SignaturesLimited CarriesError
      cases External.decodeSignatures response.bodyText with
      | error error => simp [hother]
      | ok rpcResponse => simp
    · unfold TransactionLimited CarriesError
      cases External.decodeEnvelope response.bodyText with
      | error error => simp [isRateLimited_other hother]
      | ok rpcResponse => simp [isRateLimited_other hother, RpcError.isRateLimited]

/-- **The two loops agree** on a failed response, with the same budget left, if and only if none is
left, or the two classifications do (or, where one of the warnings cannot be written, the other
loop does not retry). -/
theorem retries_alike_iff (hfail : Failure response.bodyText) (hr : reply attempt = .ok response)
    (hr' : reply' attempt = .ok response) :
    (Retried response
        (getSignaturesCalls api address reply hours nowTs (api.attemptsFrom attempt)) ↔
      Retried response (fetchTransactionCalls api signature reply' (api.attemptsFrom attempt))) ↔
    (attempt ≤ api.maxRateLimitRetries →
      if api.warnMasked address ≠ none ∧ api.warnMasked signature ≠ none then Alike response
      else (api.warnMasked address ≠ none → ¬SignaturesLimited response) ∧
        (api.warnMasked signature ≠ none → ¬TransactionLimited response)) := by
  rw [getSignaturesCalls_retried hr, fetchTransactionCalls_retried hr', ← alike_iff hfail]
  split <;> tauto

end Compared

/-- `tooMany` once more: the loops agree on it. -/
theorem retries_alike_iff_page : letI : External := smallNetwork [] []
    Retried tooMany (getSignaturesCalls ⟨1, true⟩ "A" (fun _ => .ok tooMany) 1 0 [1, 2]) ↔
      Retried tooMany (fetchTransactionCalls ⟨1, true⟩ "s1" (fun _ => .ok tooMany) [1, 2]) := by
  let : External := smallNetwork [] []
  refine (@retries_alike_iff _ ⟨1, true⟩ "A" "s1" _ _ 1 0 1 tooMany
    ⟨Or.inl ⟨_, rfl⟩, Or.inl ⟨_, rfl⟩⟩ rfl rfl).mpr fun _ => ?_
  rw [if_pos ⟨by decide, by decide⟩]
  unfold Alike
  rw [if_pos (show tooMany.status = 429 from rfl)]
  rintro e ⟨env, henv, -⟩
  have hdec : External.decodeSignatures tooMany.bodyText =
      .error "expected value at line 1 column 1" := rfl
  exact absurd (hdec.symm.trans henv) (by simp)

/-- A gateway's page with status 503. -/
def gatewayPage : RpcHttpResponse := ⟨503, none, "Rate limit exceeded"⟩

/-- **A failure only one loop retries**: the page is no JSON, and mentions a rate limit. -/
theorem not_retries_alike_gateway : letI : External := smallNetwork [] []
    Failure gatewayPage.bodyText ∧
      ¬(Retried gatewayPage (getSignaturesCalls ⟨5, true⟩ "A" (fun _ => .ok gatewayPage) 1 0
          [1, 2, 3, 4, 5, 6]) ↔
        Retried gatewayPage (fetchTransactionCalls ⟨5, true⟩ "s1" (fun _ => .ok gatewayPage)
          [1, 2, 3, 4, 5, 6])) := by
  let : External := smallNetwork [] []
  have hfail : Failure gatewayPage.bodyText := ⟨Or.inl ⟨_, rfl⟩, Or.inl ⟨_, rfl⟩⟩
  refine ⟨hfail, fun h => ?_⟩
  have hlimited : TransactionLimited gatewayPage := by
    have hmessage : isRateLimited (some 503) none
        (decodeFailure gatewayPage "expected value at line 1 column 1") = true :=
      isRateLimited_append _ (by decide +kernel)
    exact hmessage
  have hnot : ¬SignaturesLimited gatewayPage := by
    intro h503
    exact absurd (show gatewayPage.status = 429 from h503) (by decide)
  have hretried := (@fetchTransactionCalls_retried _ ⟨5, true⟩ "s1" (fun _ => .ok gatewayPage) 1
    gatewayPage rfl).mpr ⟨by decide, hlimited, by decide⟩
  exact hnot ((@getSignaturesCalls_retried _ ⟨5, true⟩ _ _ _ _ 1 _ rfl).mp (h.mpr hretried)).2.1

end OnChainEventIndexer
