import OnChainEventIndexer.Requests.Decode
import OnChainEventIndexer.Requests.Retries

/-!
# Reading an envelope

The `Deserialize` implementations of `RpcEnvelope`, `ResponseField`, `RpcError` and `Signature` on a
JSON value, and what they mean for the retries. `get_signatures` reads `RpcEnvelope<Vec<Signature>>`,
`try_fetch_transaction_once` reads `RpcEnvelope<Value>` and the transaction from its result.

* `RpcEnvelope.decode_eq`: an envelope is read the same way at once and with its result left for
  later.
* **`only_signatures_retry_iff`**: where this leaves the two loops apart.

`ReadsJson` says of the text of a JSON value without repeated keys that `serde_json::from_str` reads
what these implementations read from the value. Texts beyond the limits of `serde_json` (depth, size
of numbers) are left out with the others that `parse` does not take.
-/

namespace OnChainEventIndexer

open Value

/-- `i64` -/
def Value.decodeI64 (v : Value) : Option Int :=
  v.decodeInt (-9223372036854775808) 9223372036854775807

/-- The members that `Signature` names. -/
def Signature.fields : List String := ["blockTime", "signature"]

/-- `Signature` -/
def Signature.decode (v : Value) : Option Signature := do
  let r ← v.fields Signature.fields
  return {
    blockTime := ← r.optional "blockTime" decodeI64
    signature := ← r.required "signature" decodeString }

/-- The members that `RpcError` names. -/
def RpcError.fields : List String := ["code", "message"]

/-- `RpcError` -/
def RpcError.decode (v : Value) : Option RpcError := do
  let r ← v.fields RpcError.fields
  return {
    code := ← r.required "code" decodeI64
    message := ← r.required "message" decodeString }

/-- `ResponseField::deserialize` -/
def ResponseField.decode {τ : Type} (decode : Value → Option τ) (v : Value) :
    Option (ResponseField τ) :=
  (decodeOption decode v).map fun
    | none => .null
    | some x => .value x

/-- The members that `RpcEnvelope` names. -/
def RpcEnvelope.fields : List String := ["result", "error"]

/-- `RpcEnvelope<T>` -/
def RpcEnvelope.decode {τ : Type} (decode : Value → Option τ) (v : Value) :
    Option (RpcEnvelope τ) := do
  let r ← v.fields RpcEnvelope.fields
  return {
    result := ← r.orDefault "result" .missing (ResponseField.decode decode)
    error := ← r.orDefault "error" none (decodeOption RpcError.decode) }

/-- The value in the result read later. -/
def ResponseField.read {τ : Type} (decode : Value → Option τ) :
    ResponseField Value → Option (ResponseField τ)
  | .missing => some .missing
  | .null => some .null
  | .value v => (decode v).map .value

/-- `Vec<Signature>` -/
abbrev decodeEntries : Value → Option (List Signature) := decodeVec Signature.decode

/-! ## One envelope, two readings -/

section Readings

variable {τ : Type} (decode : Value → Option τ)

theorem ResponseField.decode_eq (v : Value) :
    ResponseField.decode decode v =
      (ResponseField.decode some v).bind (ResponseField.read decode) := by
  unfold ResponseField.decode
  cases v with
  | null => rfl
  | _ => exact Option.map_map ..

theorem ResponseField.orDefault_eq (r : Fields) (name : String) :
    r.orDefault name .missing (ResponseField.decode decode) =
      (r.orDefault name .missing (ResponseField.decode some)).bind (ResponseField.read decode) := by
  unfold Fields.orDefault
  split
  · exact ResponseField.decode_eq decode _
  · rfl

/-- **The result may be read later.** -/
theorem RpcEnvelope.decode_eq (v : Value) : RpcEnvelope.decode decode v =
    (RpcEnvelope.decode some v).bind fun e =>
      (e.result.read decode).map fun result => ⟨result, e.error⟩ := by
  unfold RpcEnvelope.decode
  cases v.fields RpcEnvelope.fields with
  | none => rfl
  | some r =>
    simp only [Option.bind_eq_bind, Option.bind_some, Option.pure_def]
    rw [ResponseField.orDefault_eq decode r "result"]
    cases r.orDefault "result" .missing (ResponseField.decode some) with
    | none => rfl
    | some field =>
      simp only [Option.bind_some]
      cases r.orDefault "error" none (decodeOption RpcError.decode) with
      | none => cases field.read decode <;> rfl
      | some error =>
        simp only [Option.bind_some]
        cases field.read decode <;> rfl

end Readings

/-! ## The retries of the two loops -/

/-- `parse` reads the text of a JSON value; from such a text the two decoders read what the
implementations read from the value. -/
structure ReadsJson [External] (parse : String → Option Value) : Prop where
  signatures : ∀ body v, parse body = some v →
    (External.decodeSignatures body).toOption = RpcEnvelope.decode decodeEntries v
  envelope : ∀ body v, parse body = some v →
    (External.decodeEnvelope body).toOption = RpcEnvelope.decode some v

/-- The value is an envelope without an error, whose result is there and is not a list of entries. -/
def UnreadableResult (v : Value) : Prop :=
  ∃ e, RpcEnvelope.decode some v = some e ∧ e.error = none ∧ e.result.read decodeEntries = none

/-- The status can only add a rate limit. -/
theorem isRateLimited_of_none {status : Nat} {rpcCode : Option Int} {message : String}
    (h : isRateLimited none rpcCode message = true) :
    isRateLimited (some status) rpcCode message = true := by
  by_cases h429 : status = 429
  · rw [h429]
    exact isRateLimited_429 rpcCode message
  · rw [isRateLimited_other h429]
    exact h

/-- How far the two decoders come with a value. -/
inductive Readings [External] (body : String) (v : Value) : Prop
  | noEnvelope {error error' : String} (hv : RpcEnvelope.decode some v = none)
      (henvelope : External.decodeEnvelope body = .error error)
      (hsignatures : External.decodeSignatures body = .error error')
  | unreadable {e : RpcEnvelope Value} {error : String} (hv : RpcEnvelope.decode some v = some e)
      (hread : e.result.read decodeEntries = none) (henvelope : External.decodeEnvelope body = .ok e)
      (hsignatures : External.decodeSignatures body = .error error)
  | readable {e : RpcEnvelope Value} {result : ResponseField (List Signature)}
      (hv : RpcEnvelope.decode some v = some e) (hread : e.result.read decodeEntries = some result)
      (henvelope : External.decodeEnvelope body = .ok e)
      (hsignatures : External.decodeSignatures body = .ok ⟨result, e.error⟩)

theorem toOption_eq_some {α : Type} {x : Except String α} {a : α} (h : x.toOption = some a) :
    x = .ok a := by
  cases x with
  | error e => exact absurd h (by simp [Except.toOption])
  | ok b => rw [Option.some.inj h]

theorem toOption_eq_none {α : Type} {x : Except String α} (h : x.toOption = none) :
    ∃ error, x = .error error := by
  cases x with
  | error e => exact ⟨e, rfl⟩
  | ok b => exact absurd h (by simp [Except.toOption])

section Network

variable [External] {parse : String → Option Value} {response : RpcHttpResponse} {v : Value}

theorem ReadsJson.readings (hjson : ReadsJson parse) {body : String} (hbody : parse body = some v) :
    Readings body v := by
  have hsignatures := hjson.signatures body v hbody
  have henvelope := hjson.envelope body v hbody
  rw [RpcEnvelope.decode_eq] at hsignatures
  cases hv : RpcEnvelope.decode some v with
  | none =>
    rw [hv] at hsignatures henvelope
    obtain ⟨error, herror⟩ := toOption_eq_none henvelope
    obtain ⟨error', herror'⟩ := toOption_eq_none hsignatures
    exact .noEnvelope hv herror herror'
  | some e =>
    rw [hv] at hsignatures henvelope
    cases hread : e.result.read decodeEntries with
    | none =>
      rw [Option.bind_some, hread] at hsignatures
      obtain ⟨error, herror⟩ := toOption_eq_none hsignatures
      exact .unreadable hv hread (toOption_eq_some henvelope) herror
    | some result =>
      rw [Option.bind_some, hread] at hsignatures
      exact .readable hv hread (toOption_eq_some henvelope) (toOption_eq_some hsignatures)

/-- **What only `get_signatures` takes for a rate limit.** -/
theorem only_signaturesLimited_iff (h : Readings response.bodyText v) :
    (SignaturesLimited response ∧ ¬TransactionLimited response) ↔
      response.status = 429 ∧ UnreadableResult v := by
  unfold SignaturesLimited TransactionLimited UnreadableResult
  cases h with
  | noEnvelope hv henvelope hsignatures =>
    -- a status 429 is a rate limit for both
    simp only [hv, henvelope, hsignatures, reduceCtorEq, false_and, exists_false, and_false,
      iff_false]
    rintro ⟨h429, hnot⟩
    rw [h429] at hnot
    exact hnot (isRateLimited_429 _ _)
  | @unreadable e error hv hread henvelope hsignatures =>
    simp only [hv, henvelope, hsignatures, Option.some.injEq, exists_eq_left', hread, and_true]
    refine and_congr_right fun h429 => ?_
    rw [h429]
    cases e.error with
    | none => simp
    | some err => simp [isRateLimited_429]
  | @readable e result hv hread henvelope hsignatures =>
    -- both look at the same error object
    simp only [hv, henvelope, hsignatures, Option.some.injEq, exists_eq_left', hread, reduceCtorEq,
      and_false, iff_false]
    rintro ⟨⟨err, herr, hlimited⟩, hnot⟩
    exact hnot ⟨err, herr, isRateLimited_of_none hlimited⟩

variable {api : HeliusApi} {address signature : String} {reply reply' : Replies} {hours : Int16}
  {nowTs : Int} {attempt : Nat}

/-- **Which JSON responses only `get_signatures` retries**: with budget left, those with status 429
that are envelopes without an error and have something else than entries for a result. Every other
one that it retries is retried for a transaction too. -/
theorem only_signatures_retry_iff (hjson : ReadsJson parse) (hbody : parse response.bodyText = some v)
    (hwarn : api.warnMasked signature ≠ none) (hr : reply attempt = .ok response)
    (hr' : reply' attempt = .ok response) :
    (Retried response
        (getSignaturesCalls api address reply hours nowTs (api.attemptsFrom attempt)) ∧
      ¬Retried response (fetchTransactionCalls api signature reply' (api.attemptsFrom attempt))) ↔
    attempt ≤ api.maxRateLimitRetries ∧ api.warnMasked address ≠ none ∧ response.status = 429 ∧
      UnreadableResult v := by
  rw [getSignaturesCalls_retried hr, fetchTransactionCalls_retried hr',
    ← only_signaturesLimited_iff (hjson.readings hbody)]
  tauto

end Network

/-- The decoders of a network whose texts `parse` reads. -/
@[reducible]
def jsonNetwork (parse : String → Option Value) : External :=
  { smallNetwork [] [] with
    decodeSignatures := fun body =>
      match (parse body).bind (RpcEnvelope.decode decodeEntries) with
      | some rpcResponse => .ok rpcResponse
      | none => .error "invalid type"
    decodeEnvelope := fun body =>
      match (parse body).bind (RpcEnvelope.decode some) with
      | some rpcResponse => .ok rpcResponse
      | none => .error "invalid type" }

theorem readsJson_jsonNetwork (parse : String → Option Value) :
    letI : External := jsonNetwork parse
    ReadsJson parse := by
  let : External := jsonNetwork parse
  constructor
  · intro body v hbody
    show (match (parse body).bind (RpcEnvelope.decode decodeEntries) with
      | some rpcResponse => Except.ok rpcResponse
      | none => Except.error "invalid type").toOption = _
    rw [hbody, Option.bind_some]
    cases RpcEnvelope.decode decodeEntries v <;> rfl
  · intro body v hbody
    show (match (parse body).bind (RpcEnvelope.decode some) with
      | some rpcResponse => Except.ok rpcResponse
      | none => Except.error "invalid type").toOption = _
    rw [hbody, Option.bind_some]
    cases RpcEnvelope.decode some v <;> rfl

/-- A result that is an object. -/
def objectText : String := "\x7b\"result\":\x7b\x7d\x7d"

/-- A parser that knows `objectText` only. -/
def parseObject (body : String) : Option Value :=
  if body = objectText then some (.object [("result", .object [])]) else none

theorem only_signatures_retry_object : letI : External := jsonNetwork parseObject
    let response : RpcHttpResponse := ⟨429, some 1, objectText⟩
    Retried response (getSignaturesCalls ⟨1, true⟩ "A" (fun _ => .ok response) 1 0 [1, 2]) ∧
      ¬Retried response (fetchTransactionCalls ⟨1, true⟩ "s1" (fun _ => .ok response) [1, 2]) := by
  let : External := jsonNetwork parseObject
  intro response
  exact (@only_signatures_retry_iff _ parseObject response (.object [("result", .object [])])
    ⟨1, true⟩ "A" "s1" (fun _ => .ok response) (fun _ => .ok response) 1 0 1
    (readsJson_jsonNetwork parseObject) rfl (by decide) rfl rfl).mpr
    ⟨by decide, by decide, rfl, _, rfl, rfl, rfl⟩

end OnChainEventIndexer
