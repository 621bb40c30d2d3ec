import OnChainEventIndexer.Db.Schema
import OnChainEventIndexer.Requests.Client

/-!
# Transactions and transfers

The two INSERTs of `db/transactions.rs`, executed. What PostgreSQL refuses, and
`save_transaction_data`, which is both of them, are in `Db/Statements.lean`.
-/

namespace OnChainEventIndexer

open Keyed

/-! ## Transactions -/

/-- The row `write_transaction_info` binds. -/
def transactionRow (trackedOwner : String) (tx : TransactionResult) : TransactionRow :=
  { ownerAddress := trackedOwner
    signature := TransactionResult.firstSignature tx.result
    slot := tx.result.slot.toInt
    blockTime := tx.result.blockTime.toInt
    err := tx.result.meta.err
    fee := tx.result.meta.fee.toInt
    computeUnits := tx.result.meta.computeUnitsConsumed.toInt
    numSigners := tx.numSigners
    numInstructions := tx.numInstructions }

namespace Db

/-- `write_transaction_info`, executed: the rows inserted and the new state. -/
def writeTransactionInfo (db : Db) (transactionInfo : List TransactionResult)
    (trackedOwner : String) : Nat × Db :=
  if transactionInfo.isEmpty then (0, db)
  else
    let values := transactionInfo.map (transactionRow trackedOwner)
    (db.transactions.inserted values, { db with transactions := db.transactions.insertAll values })

/-- The early return makes no difference. -/
theorem writeTransactionInfo_eq (db : Db) (txs : List TransactionResult) (address : String) :
    db.writeTransactionInfo txs address =
      (db.transactions.inserted (txs.map (transactionRow address)),
        { db with
          transactions := db.transactions.insertAll (txs.map (transactionRow address)) }) := by
  unfold writeTransactionInfo
  split
  · rename_i he
    rw [List.isEmpty_iff.mp he]
    simp [Table.inserted]
  · rfl

theorem writeTransactionInfo_transactions (db : Db) (txs : List TransactionResult)
    (address : String) : (db.writeTransactionInfo txs address).2.transactions =
      db.transactions.insertAll (txs.map (transactionRow address)) := by
  rw [writeTransactionInfo_eq]

@[simp] theorem writeTransactionInfo_tokenTransfers (db : Db) (txs : List TransactionResult)
    (address : String) : (db.writeTransactionInfo txs address).2.tokenTransfers =
      db.tokenTransfers := by
  rw [writeTransactionInfo_eq]

@[simp] theorem writeTransactionInfo_signatures (db : Db) (txs : List TransactionResult)
    (address : String) : (db.writeTransactionInfo txs address).2.signatures = db.signatures := by
  rw [writeTransactionInfo_eq]

@[simp] theorem writeTransactionInfo_processingData (db : Db) (txs : List TransactionResult)
    (address : String) : (db.writeTransactionInfo txs address).2.processingData =
      db.processingData := by
  rw [writeTransactionInfo_eq]

theorem le_writeTransactionInfo (db : Db) (txs : List TransactionResult) (address : String) :
    db.Le (db.writeTransactionInfo txs address).2 := by
  refine ⟨fun j hj => ⟨j, by simpa using hj, .refl j⟩, fun r hr => ⟨r, by simpa using hr, .refl r⟩,
    fun r hr => ?_, fun _ h => by simpa using h⟩
  rw [writeTransactionInfo_transactions]
  exact Table.mem_insertAll_of_mem _ hr

end Db

/-! ## Transfers -/

variable [External]

/-- The row `write_token_transfers` binds. -/
def tokenTransferRow (trackedOwner : String) (tx : TransactionInfo)
    (transfer : TokenTransferChange) : TokenTransferRow :=
  { trackedOwner
    signature := TransactionResult.firstSignature tx
    sourceOwner := transfer.sourceOwner
    destinationOwner := transfer.destinationOwner
    sourceTokenAccount := transfer.sourceTokenAccount
    destinationTokenAccount := transfer.destinationTokenAccount
    tokenMint := transfer.tokenMint
    tokenProgram := transfer.tokenProgram
    amountRaw := transfer.amountRaw
    amountUi := transfer.amountUi.bind External.bigDecimalFromF64
    decimals := transfer.decimals.map fun d => d.toNat
    assetType := transfer.assetType
    transferType := transfer.transferType
    direction := transfer.direction
    instructionIdx := transfer.instructionIdx
    innerIdx := transfer.innerIdx
    authority := transfer.authority
    slot := tx.slot.toInt
    blockTime := tx.blockTime.toInt }

/-- What becomes of a decoded transaction in `get_transaction`. -/
def computed (txInfo : TransactionInfo) : TransactionResult :=
  (⟨txInfo, []⟩ : TransactionResult).calculateTokenTransfer

/-- The transfer rows of one transaction. -/
def transferRows (trackedOwner : String) (tx : TransactionResult) : List TokenTransferRow :=
  tx.tokenTransferChanges.map (tokenTransferRow trackedOwner tx.result)

/-- The rows a save inserts. -/
structure SaveStats where
  transactions : Nat
  tokenTransfers : Nat
deriving DecidableEq

namespace Db

/-- `write_token_transfers`, executed: the rows inserted and the new state. -/
def writeTokenTransfers (db : Db) (transactions : List TransactionResult) (trackedOwner : String) :
    Nat × Db :=
  let rows := transactions.flatMap (transferRows trackedOwner)
  if rows.isEmpty then (0, db)
  else (db.tokenTransfers.inserted rows,
    { db with tokenTransfers := db.tokenTransfers.insertAll rows })

theorem writeTokenTransfers_eq (db : Db) (txs : List TransactionResult) (address : String) :
    db.writeTokenTransfers txs address =
      (db.tokenTransfers.inserted (txs.flatMap (transferRows address)),
        { db with
          tokenTransfers := db.tokenTransfers.insertAll (txs.flatMap (transferRows address)) }) := by
  unfold writeTokenTransfers
  simp only
  split
  · rename_i he
    rw [List.isEmpty_iff.mp he]
    simp [Table.inserted]
  · rfl

theorem writeTokenTransfers_tokenTransfers (db : Db) (txs : List TransactionResult)
    (address : String) : (db.writeTokenTransfers txs address).2.tokenTransfers =
      db.tokenTransfers.insertAll (txs.flatMap (transferRows address)) := by
  rw [writeTokenTransfers_eq]

@[simp] theorem writeTokenTransfers_transactions (db : Db) (txs : List TransactionResult)
    (address : String) : (db.writeTokenTransfers txs address).2.transactions = db.transactions := by
  rw [writeTokenTransfers_eq]

@[simp] theorem writeTokenTransfers_signatures (db : Db) (txs : List TransactionResult)
    (address : String) : (db.writeTokenTransfers txs address).2.signatures = db.signatures := by
  rw [writeTokenTransfers_eq]

@[simp] theorem writeTokenTransfers_processingData (db : Db) (txs : List TransactionResult)
    (address : String) : (db.writeTokenTransfers txs address).2.processingData =
      db.processingData := by
  rw [writeTokenTransfers_eq]

theorem le_writeTokenTransfers (db : Db) (txs : List TransactionResult) (address : String) :
    db.Le (db.writeTokenTransfers txs address).2 := by
  refine ⟨fun j hj => ⟨j, by simpa using hj, .refl j⟩, fun r hr => ⟨r, by simpa using hr, .refl r⟩,
    fun _ h => by simpa using h, fun r hr => ?_⟩
  rw [writeTokenTransfers_tokenTransfers]
  exact Table.mem_insertAll_of_mem _ hr

end Db

end OnChainEventIndexer
