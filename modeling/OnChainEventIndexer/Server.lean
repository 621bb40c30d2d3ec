import OnChainEventIndexer.Indexer.Machine
import OnChainEventIndexer.Requests.Decode

/-!
# The API and the addresses it takes

Model of `server.rs`: the payload of `POST /analyze` and its handler `address_processing`, and the
handler `get_job_info` of `GET /jobs/{id}`. Any string is taken as an address; nothing checks it
before it is stored. With info logging the handler masks it first of all, and a worker that claims
the job masks it at the start of `fetch_signatures`. A panic is `none`, or the state `panicked`.

* `accepted_any`: every string is accepted.
* `handler_safe_iff`, `fetch_safe_iff`: where the handler and the worker do not panic.
* **`addressSafe_iff`**: both are safe for the maskable addresses only.
-/

namespace OnChainEventIndexer

open Value

/-- The payload of `POST /analyze`. -/
structure AddressProcessing where
  address : String
  requestedHours : Int16
  txLimit : Int16
deriving DecidableEq

/-- Its members. -/
def AddressProcessing.fields : List String := ["address", "requested_hours", "txLimit"]

/-- The payload of `POST /analyze`. -/
def AddressProcessing.decode (v : Value) : Option AddressProcessing := do
  let r ← v.fields AddressProcessing.fields
  return {
    address := ← r.required "address" decodeString
    requestedHours := ← r.required "requested_hours" decodeI16
    txLimit := ← r.required "txLimit" decodeI16 }

/-- `address = %mask_addr(address)` in an `info!`. -/
def infoMasked (infoEnabled : Bool) (address : String) : Option Unit :=
  if infoEnabled then (maskAddr address).map fun _ => () else some ()

/-- `address_processing`, given what `create_processing_job` returned: the body of the response. -/
def addressProcessing (infoEnabled : Bool) (payload : AddressProcessing)
    (result : Except String (Option Nat)) : Option Value :=
  (infoMasked infoEnabled payload.address).bind fun _ =>
    match result with
    | .ok (some id) =>
      some (.object [("status", .string "ok"), ("job_id", .number (.posInt id))])
    | .ok none =>
      (infoMasked infoEnabled payload.address).map fun _ =>
        .object [("status", .string "ok"), ("message", .string "address already exists")]
    | .error e => some (.object [("status", .string "error"), ("message", .string e)])

/-- What `GET /jobs/{id}` answers. -/
inductive Body
  | jobInfo (info : JobInfo)
  /-- `{"error": message}` -/
  | error (message : String)
deriving DecidableEq

/-- A status code with its body. -/
structure Response where
  statusCode : Nat
  body : Body
deriving DecidableEq

/-- `get_job_info`, given what the database returned. -/
def Server.getJobInfo : Except String (Option JobInfo) → Response
  | .ok (some jobInfo) => ⟨200, .jobInfo jobInfo⟩
  | .ok none => ⟨404, .error "Job not found"⟩
  | .error e => ⟨500, .error e⟩

/-- The string is the address of a payload that is accepted. -/
def Accepted.address (address : String) (payload : AddressProcessing) : Prop :=
  payload.address = address ∧ ∃ v, AddressProcessing.decode v = some payload

/-- No handler of a payload with this address panics, and no worker at a job with it. -/
structure AddressSafe (address : String) : Prop where
  handler : ∀ payload, Accepted.address address payload →
    ∀ result, addressProcessing true payload result ≠ none
  fetch : ∀ job : ClaimedJob, job.address = address → Pc.start job ≠ .panicked

variable {address : String}

/-- **Any string is accepted.** -/
theorem accepted_any (address : String) : Accepted.address address ⟨address, 1, 10⟩ :=
  ⟨rfl, .object [("address", .string address), ("requested_hours", .number (.posInt 1)),
    ("txLimit", .number (.posInt 10))], rfl⟩

theorem infoMasked_ne_none : infoMasked true address ≠ none ↔ Maskable address := by
  rw [← maskAddr_ne_none]
  unfold infoMasked
  simp

/-- The handler answers if the address can be masked, whatever the database says. -/
theorem addressProcessing_ne_none {payload : AddressProcessing}
    {result : Except String (Option Nat)} :
    addressProcessing true payload result ≠ none ↔ Maskable payload.address := by
  rw [← infoMasked_ne_none]
  unfold addressProcessing
  cases infoMasked true payload.address with
  | none => simp
  | some u =>
    cases result with
    | error e => simp
    | ok id => cases id <;> simp

theorem handler_safe_iff : (∀ payload, Accepted.address address payload →
    ∀ result, addressProcessing true payload result ≠ none) ↔ Maskable address := by
  constructor
  · exact fun h => addressProcessing_ne_none.mp (h _ (accepted_any address) (.ok none))
  · rintro h payload ⟨rfl, -⟩ result
    exact addressProcessing_ne_none.mpr h

theorem fetch_safe_iff : (∀ job : ClaimedJob, job.address = address → Pc.start job ≠ .panicked) ↔
    Maskable address := by
  rw [← maskAddr_ne_none]
  have hstart : ∀ job : ClaimedJob, Pc.start job ≠ .panicked ↔ maskAddr job.address ≠ none := by
    intro job
    unfold Pc.start
    cases maskAddr job.address <;> simp
  constructor
  · exact fun h => (hstart ⟨1, address, 1, 10⟩).mp (h _ rfl)
  · rintro h job rfl
    exact (hstart job).mpr h

/-- **No address crashes the service** if and only if it can be masked: it has at most 13 bytes, or
whole characters in its first five and its last five. -/
theorem addressSafe_iff : AddressSafe address ↔ Maskable address :=
  ⟨fun h => fetch_safe_iff.mp h.fetch, fun h => ⟨handler_safe_iff.mpr h, fetch_safe_iff.mpr h⟩⟩

/-- **An address that crashes both**: seven letters `é`, two bytes each. -/
theorem not_addressSafe_accents :
    Accepted.address "ééééééé" ⟨"ééééééé", 1, 10⟩ ∧
      addressProcessing true ⟨"ééééééé", 1, 10⟩ (.ok (some 1)) = none ∧
      Pc.start ⟨1, "ééééééé", 1, 10⟩ = .panicked := by
  have hnone : maskAddr "ééééééé" = none := by decide
  refine ⟨accepted_any _, ?_, ?_⟩
  · unfold addressProcessing infoMasked
    simp [hnone]
  · unfold Pc.start
    simp [hnone]

end OnChainEventIndexer
