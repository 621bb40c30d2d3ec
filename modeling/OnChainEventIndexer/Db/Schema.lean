import OnChainEventIndexer.Lib.Table
import Mathlib.Data.Rat.Defs
import OnChainEventIndexer.Requests.Types

/-!
# The database

The four tables as the migrations leave them. `processing_data` has its primary key and no unique
index on `address` (the second migration drops it); `signatures` and `transactions` are keyed by
owner and signature; `token_transfers` by the nineteen columns of the natural unique index, NULLs
equal (`NULLS NOT DISTINCT`), which are all its columns but the generated `id` and `created_at`.
The latter two are left out, so a transfer row is its own key.

* A `timestamptz` is an `Int` of microseconds since the epoch. Columns of four or eight bytes that
  hold a decoded value are `Int`.
* `EXTRACT(EPOCH FROM t)::bigint` rounds the `numeric` seconds to the nearest integer, halves away
  from zero (`epochSeconds`).
* `id` comes from a sequence: `Db.seq` says no row has an id it has yet to hand out.

`Db.Le` is what every statement preserves: rows stay, with the columns nobody assigns.
-/

namespace OnChainEventIndexer

open Keyed

/-- `INTERVAL '1 hour'` -/
def hour : Int := 3600 * 1000000

/-- `INTERVAL '5 minutes'` -/
def fiveMinutes : Int := 300 * 1000000

/-- `EXTRACT(EPOCH FROM t)::bigint` -/
def epochSeconds (t : Int) : Int :=
  if 0 ≤ t then (t + 500000) / 1000000 else -((-t + 500000) / 1000000)

/-- The values of `processing_data.status`. -/
inductive Status
  | pending
  | indexing
  | ready
  | error
deriving DecidableEq, Repr

/-- A row of `processing_data`: a job. -/
structure ProcessingData where
  id : Nat
  address : String
  status : Status
  createdAt : Int
  updatedAt : Int
  workerId : Option Int
  txLimit : Int16
  requestedHours : Int16
deriving DecidableEq, Repr

/-- A row of `signatures`: a signature of an address, and how far its transaction is. -/
structure SignatureRow where
  ownerAddress : String
  signature : String
  blockTime : Option Int
  isProcessed : Bool
  isProcessing : Bool
  processingStartedAt : Option Int
deriving DecidableEq, Repr

/-- `PRIMARY KEY (owner_address, signature)` -/
def SignatureRow.key (r : SignatureRow) : String × String := (r.ownerAddress, r.signature)

/-- A row of `transactions`. -/
structure TransactionRow where
  ownerAddress : String
  signature : String
  slot : Int
  blockTime : Int
  err : Value
  fee : Int
  computeUnits : Int
  numSigners : Int
  numInstructions : Int

/-- `PRIMARY KEY (owner_address, signature)` -/
def TransactionRow.key (r : TransactionRow) : String × String := (r.ownerAddress, r.signature)

/-- A row of `token_transfers`. -/
structure TokenTransferRow where
  trackedOwner : String
  signature : String
  sourceOwner : Option String
  destinationOwner : Option String
  sourceTokenAccount : Option String
  destinationTokenAccount : Option String
  tokenMint : Option String
  tokenProgram : Option String
  amountRaw : Int
  amountUi : Option Rat
  decimals : Option Int
  assetType : String
  transferType : String
  direction : String
  instructionIdx : Option Int
  innerIdx : Option Int
  authority : Option String
  slot : Int
  blockTime : Int
deriving DecidableEq

/-- The natural unique index covers the whole row. -/
def TokenTransferRow.key (r : TokenTransferRow) : TokenTransferRow := r

/-- What the database holds. -/
structure Db where
  processingData : Table ProcessingData.id
  /-- The next value of `processing_data_id_seq`. -/
  nextId : Nat
  signatures : Table SignatureRow.key
  transactions : Table TransactionRow.key
  tokenTransfers : Table TokenTransferRow.key
  seq : ∀ k ∈ processingData.keys, k < nextId

/-- The database the migrations create. -/
def Db.empty : Db :=
  ⟨Table.empty, 1, Table.empty, Table.empty, Table.empty, fun _ h => absurd h List.not_mem_nil⟩

/-! ## The window of a job -/

namespace ProcessingData

/-- `EXTRACT(EPOCH FROM (created_at - requested_hours * INTERVAL '1 hour'))::bigint` -/
def windowStart (j : ProcessingData) : Int :=
  epochSeconds (j.createdAt - j.requestedHours.toInt * hour)

/-- `EXTRACT(EPOCH FROM created_at)::bigint` -/
def windowEnd (j : ProcessingData) : Int := epochSeconds j.createdAt

/-- `block_time` lies in the job's window; a comparison with NULL does not hold. -/
def InWindow (j : ProcessingData) (blockTime : Option Int) : Prop :=
  ∃ t ∈ blockTime, j.windowStart ≤ t ∧ t ≤ j.windowEnd

instance (j : ProcessingData) (blockTime : Option Int) : Decidable (j.InWindow blockTime) :=
  match blockTime with
  | none => isFalse fun ⟨_, h, _⟩ => absurd h (by simp)
  | some t =>
    if h : j.windowStart ≤ t ∧ t ≤ j.windowEnd then isTrue ⟨t, rfl, h⟩
    else isFalse fun ⟨_, ht, hw⟩ => h (Option.some.inj ht ▸ hw)

/-- The columns no statement assigns. -/
def SameJob (j j' : ProcessingData) : Prop :=
  j'.id = j.id ∧ j'.address = j.address ∧ j'.createdAt = j.createdAt ∧ j'.txLimit = j.txLimit ∧
    j'.requestedHours = j.requestedHours

theorem SameJob.refl (j : ProcessingData) : j.SameJob j := ⟨rfl, rfl, rfl, rfl, rfl⟩

theorem SameJob.trans {j j' j'' : ProcessingData} (h : j.SameJob j') (h' : j'.SameJob j'') :
    j.SameJob j'' :=
  ⟨h'.1.trans h.1, h'.2.1.trans h.2.1, h'.2.2.1.trans h.2.2.1, h'.2.2.2.1.trans h.2.2.2.1,
    h'.2.2.2.2.trans h.2.2.2.2⟩

theorem SameJob.inWindow {j j' : ProcessingData} (h : j.SameJob j') (bt : Option Int) :
    j'.InWindow bt ↔ j.InWindow bt := by
  unfold InWindow windowStart windowEnd
  rw [h.2.2.1, h.2.2.2.2]

end ProcessingData

/-! ## What every statement preserves -/

/-- A signatures row may be claimed and processed; the rest of it stays. -/
def SignatureRow.Later (r r' : SignatureRow) : Prop :=
  r'.key = r.key ∧ r'.blockTime = r.blockTime ∧ (r.isProcessed = true → r'.isProcessed = true)

theorem SignatureRow.Later.refl (r : SignatureRow) : r.Later r := ⟨rfl, rfl, id⟩

/-- Rows stay. -/
structure Db.Le (db db' : Db) : Prop where
  jobs : ∀ j ∈ db.processingData, ∃ j' ∈ db'.processingData, j.SameJob j'
  sigs : ∀ r ∈ db.signatures, ∃ r' ∈ db'.signatures, r.Later r'
  txs : ∀ r ∈ db.transactions, r ∈ db'.transactions
  transfers : ∀ r ∈ db.tokenTransfers, r ∈ db'.tokenTransfers

theorem Db.Le.refl (db : Db) : db.Le db :=
  ⟨fun j h => ⟨j, h, .refl j⟩, fun r h => ⟨r, h, .refl r⟩, fun _ h => h, fun _ h => h⟩

theorem Db.Le.trans {db db' db'' : Db} (h : db.Le db') (h' : db'.Le db'') : db.Le db'' := by
  refine ⟨fun j hj => ?_, fun r hr => ?_, fun r hr => h'.txs r (h.txs r hr), fun r hr =>
    h'.transfers r (h.transfers r hr)⟩
  · obtain ⟨j', hj', hs⟩ := h.jobs j hj
    obtain ⟨j'', hj'', hs'⟩ := h'.jobs j' hj'
    exact ⟨j'', hj'', hs.trans hs'⟩
  · obtain ⟨r', hr', hk, hb, hp⟩ := h.sigs r hr
    obtain ⟨r'', hr'', hk', hb', hp'⟩ := h'.sigs r' hr'
    exact ⟨r'', hr'', hk'.trans hk, hb'.trans hb, fun h => hp' (hp h)⟩

end OnChainEventIndexer
