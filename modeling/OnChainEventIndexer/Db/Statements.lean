import OnChainEventIndexer.Db.Jobs
import OnChainEventIndexer.Db.Signatures
import OnChainEventIndexer.Db.Transactions

/-!
# What becomes of a call

The calls of `db/signatures.rs` and `db/transactions.rs`, the ready update and `get_job_info`, with
all that makes a call fail because of its arguments:

* its span masks the address, and `mask_addr` panics for some addresses;
* an INSERT binds every column of every row, 3, 9 and 19 of them, and a statement takes 65535
  parameters at most;
* `LIMIT` takes no negative number;
* neither a `text` nor a `jsonb` takes a U+0000, and sizes are limited.

`DbCall.refused` says when. `Db.exec` executes a call; `Db.saveTransactionData` is two of them, and
the first one may have taken effect when the second fails. What an executed statement does to the
rows is in the modules of the tables.
-/

namespace OnChainEventIndexer

open Keyed

/-! ## The parameters -/

/-- The columns `write_signatures` binds. -/
def signatureColumns : List String := ["owner_address", "signature", "block_time"]

/-- The columns `write_transaction_info` binds. -/
def transactionColumns : List String :=
  ["owner_address", "signature", "slot", "block_time", "err", "fee", "compute_units", "num_signers",
    "num_instructions"]

/-- The columns `write_token_transfers` binds. -/
def tokenTransferColumns : List String :=
  ["tracked_owner", "signature", "source_owner", "destination_owner", "source_token_account",
    "destination_token_account", "token_mint", "token_program", "amount_raw", "amount_ui", "decimals",
    "asset_type", "transfer_type", "direction", "instruction_idx", "inner_idx", "authority", "slot",
    "block_time"]

/-- The parameters of an INSERT built by `push_values`: one for each column of each row. No rows,
no statement. -/
def insertParameters {ρ : Type} (columns : List String) (rows : List ρ) : Option Nat :=
  if rows.isEmpty then none else some (rows.length * columns.length)

/-- The most parameters PostgreSQL takes in a statement. -/
def maxParameters : Nat := 65535

theorem insertParameters_le {ρ : Type} {columns : List String} {rows : List ρ} {limit : Nat} :
    (∀ n ∈ insertParameters columns rows, n ≤ limit) ↔ rows.length * columns.length ≤ limit := by
  unfold insertParameters
  split
  · rename_i he
    simp [List.isEmpty_iff.mp he]
  · simp

/-- What is bound for a row of `signatures`. -/
def SignatureRow.bound (r : SignatureRow) : List Parameter :=
  [.text r.ownerAddress, .text r.signature, .number (r.blockTime.map fun t => (t : Rat))]

/-- What is bound for a row of `transactions`. -/
def TransactionRow.bound (r : TransactionRow) : List Parameter :=
  [.text r.ownerAddress, .text r.signature, .number (some r.slot), .number (some r.blockTime),
    .json r.err, .number (some r.fee), .number (some r.computeUnits), .number (some r.numSigners),
    .number (some r.numInstructions)]

/-- What is bound for a row of `token_transfers`. -/
def TokenTransferRow.bound (r : TokenTransferRow) : List Parameter :=
  [.text r.trackedOwner, .text r.signature, .text r.sourceOwner, .text r.destinationOwner,
    .text r.sourceTokenAccount, .text r.destinationTokenAccount, .text r.tokenMint,
    .text r.tokenProgram, .number (some r.amountRaw), .number r.amountUi,
    .number (r.decimals.map fun d => (d : Rat)), .text r.assetType, .text r.transferType,
    .text r.direction, .number (r.instructionIdx.map fun i => (i : Rat)),
    .number (r.innerIdx.map fun i => (i : Rat)), .text r.authority, .number (some r.slot),
    .number (some r.blockTime)]

/-! ## The calls -/

/-- `now` is the statement's `NOW()`. -/
inductive DbCall
  | writeSignatures (signatures : RpcResponse) (address : String)
  | getUnprocessedSignatures (address : String) (limit now : Int)
  | markSignaturesProcessed (address : String) (signatures : List String)
  | writeTransactionInfo (transactionInfo : List TransactionResult) (trackedOwner : String)
  | writeTokenTransfers (transactions : List TransactionResult) (trackedOwner : String)
  | updateReady (jobId : Nat) (now : Int)
  | getJobInfo (jobId : Nat)

/-- What a call returns: the rows it affected, the signatures it claimed, a report; or it failed. -/
inductive DbAnswer
  | count (n : Nat)
  | signatures (signatures : List String)
  | info (info : Option JobInfo)
  | failed

namespace DbCall

/-- The address a call is for. -/
def address : DbCall → Option String
  | .writeSignatures _ address => some address
  | .getUnprocessedSignatures address _ _ => some address
  | .markSignaturesProcessed address _ => some address
  | .writeTransactionInfo _ trackedOwner => some trackedOwner
  | .writeTokenTransfers _ trackedOwner => some trackedOwner
  | .updateReady _ _ => none
  | .getJobInfo _ => none

/-- The job a call is for. -/
def jobId : DbCall → Option Nat
  | .updateReady jobId _ => some jobId
  | .getJobInfo jobId => some jobId
  | _ => none

/-- The LIMIT of the locking select. -/
def limit : DbCall → Option Int
  | .getUnprocessedSignatures _ limit _ => some limit
  | _ => none

variable [External]

/-- The parameters of an INSERT. -/
def parameters : DbCall → Option Nat
  | .writeSignatures signatures _ => insertParameters signatureColumns signatures.result
  | .writeTransactionInfo transactionInfo _ => insertParameters transactionColumns transactionInfo
  | .writeTokenTransfers transactions trackedOwner =>
    insertParameters tokenTransferColumns (transactions.flatMap (transferRows trackedOwner))
  | _ => none

/-- What a statement that binds texts binds, row by row. No rows, no statement. -/
def bound : DbCall → List (List Parameter)
  | .writeSignatures signatures address =>
    (signatures.result.map (Db.signatureRow address)).map (·.bound)
  | .getUnprocessedSignatures address limit _ => [[.text address, .number (some limit)]]
  | .markSignaturesProcessed address signatures =>
    if signatures.isEmpty then [] else [.text address :: signatures.map fun s => .text s]
  | .writeTransactionInfo transactionInfo trackedOwner =>
    (transactionInfo.map (transactionRow trackedOwner)).map (·.bound)
  | .writeTokenTransfers transactions trackedOwner =>
    (transactions.flatMap (transferRows trackedOwner)).map (·.bound)
  | _ => []

/-- PostgreSQL does not take the statement. -/
def rejected (call : DbCall) : Bool :=
  call.parameters.any (fun n => maxParameters < n) || call.limit.any (fun n => n < 0) ||
    call.bound.any (·.any (·.hasNul)) || (!call.bound.isEmpty && !External.withinSizes call.bound)

/-- The address cannot be masked, or PostgreSQL does not take the statement. -/
def refused (spanEnabled : Bool) (call : DbCall) : Bool :=
  (spanEnabled && call.address.any fun address => (maskAddr address).isNone) || call.rejected

end DbCall

/-! ## Executing them -/

namespace Db

/-- A statement that reports the rows it affects. -/
def counted (p : Nat × Db) : DbAnswer × Db := (.count p.1, p.2)

variable [External]

/-- A call that is executed: the answer and the new state. `chosen` are the rows the locking select
picks. -/
def exec (spanEnabled : Bool) (db : Db) (chosen : List String) (call : DbCall) :
    Option (DbAnswer × Db) :=
  if call.refused spanEnabled then none
  else
    match call with
    | .writeSignatures signatures address => some (counted (db.writeSignatures signatures address))
    | .getUnprocessedSignatures address limit now =>
      if db.IsClaim address limit.toNat now chosen then
        let claimed := db.getUnprocessedSignatures address now chosen
        some (.signatures claimed.1, claimed.2)
      else none
    | .markSignaturesProcessed address signatures =>
      some (counted (db.markSignaturesProcessed address signatures))
    | .writeTransactionInfo transactionInfo trackedOwner =>
      some (counted (db.writeTransactionInfo transactionInfo trackedOwner))
    | .writeTokenTransfers transactions trackedOwner =>
      some (counted (db.writeTokenTransfers transactions trackedOwner))
    | .updateReady jobId now => some (counted (db.updateProcessingStatusByJobId jobId .ready now))
    | .getJobInfo jobId => some (.info (db.getJobInfo jobId), db)

/-- `write_transaction_info`: the rows inserted and the new state, or an error or a panic. -/
def runTransactionInfo (spanEnabled : Bool) (db : Db) (transactionInfo : List TransactionResult)
    (trackedOwner : String) : Option (Nat × Db) :=
  if (DbCall.writeTransactionInfo transactionInfo trackedOwner).refused spanEnabled then none
  else some (db.writeTransactionInfo transactionInfo trackedOwner)

/-- `write_token_transfers`, likewise. -/
def runTokenTransfers (spanEnabled : Bool) (db : Db) (transactions : List TransactionResult)
    (trackedOwner : String) : Option (Nat × Db) :=
  if (DbCall.writeTokenTransfers transactions trackedOwner).refused spanEnabled then none
  else some (db.writeTokenTransfers transactions trackedOwner)

/-- `save_transaction_data`: what it returns, `none` for an error or a panic, and the state it
leaves. -/
def saveTransactionData (spanEnabled : Bool) (db : Db) (transactionInfo : List TransactionResult)
    (address : String) : Option SaveStats × Db :=
  if spanEnabled && (maskAddr address).isNone then (none, db)
  else if transactionInfo.isEmpty then (some ⟨0, 0⟩, db)
  else
    match db.runTransactionInfo spanEnabled transactionInfo address with
    | none => (none, db)
    | some (transactions, db) =>
      match db.runTokenTransfers spanEnabled transactionInfo address with
      | none => (none, db)
      | some (tokenTransfers, db) => (some ⟨transactions, tokenTransfers⟩, db)

end Db

/-! ## Which INSERTs are taken -/

variable [External] {spanEnabled : Bool} {owner : String}

/-- PostgreSQL takes the values of the rows. -/
def Storable (rows : List (List Parameter)) : Prop :=
  (∀ row ∈ rows, ∀ p ∈ row, p.hasNul = false) ∧ (rows ≠ [] → External.withinSizes rows = true)

theorem DbCall.refused_insert {call : DbCall} (columns : List String) {ρ : Type} {rows : List ρ}
    (haddress : call.address = some owner) (hlimit : call.limit = none)
    (hparameters : call.parameters = insertParameters columns rows) :
    call.refused spanEnabled = false ↔ (spanEnabled = true → Maskable owner) ∧
      rows.length * columns.length ≤ maxParameters ∧ Storable call.bound := by
  have hmask : (maskAddr owner).isNone = false ↔ Maskable owner := by
    rw [← maskAddr_ne_none, Option.isNone_eq_false_iff, Option.isSome_iff_ne_none]
  have hcount : call.parameters.any (fun n => decide (maxParameters < n)) = false ↔
      rows.length * columns.length ≤ maxParameters := by
    rw [hparameters, ← insertParameters_le, Option.any_eq_false]
    simp
  have hsizes : (!call.bound.isEmpty && !External.withinSizes call.bound) = false ↔
      (call.bound ≠ [] → External.withinSizes call.bound = true) := by
    cases call.bound with
    | nil => simp
    | cons row rows => simp
  have hnul : call.bound.any (·.any (·.hasNul)) = false ↔
      ∀ row ∈ call.bound, ∀ p ∈ row, p.hasNul = false := by
    simp
  unfold refused rejected Storable
  rw [Bool.or_eq_false_iff, Bool.or_eq_false_iff, Bool.or_eq_false_iff, Bool.or_eq_false_iff, hcount,
    hsizes, hnul, haddress, hlimit, Option.any_some, Bool.and_eq_false_imp, hmask]
  simp [and_assoc]

namespace Db

/-- `write_transaction_info` is executed. -/
def takesInfo (spanEnabled : Bool) (transactionInfo : List TransactionResult) (address : String) :
    Bool :=
  !(DbCall.writeTransactionInfo transactionInfo address).refused spanEnabled

/-- `write_token_transfers` is executed. -/
def takesTransfers (spanEnabled : Bool) (transactions : List TransactionResult) (address : String) :
    Bool :=
  !(DbCall.writeTokenTransfers transactions address).refused spanEnabled

/-- **Which INSERT into `transactions` is executed**: nine columns a row. -/
theorem takesInfo_iff {txs : List TransactionResult} : takesInfo spanEnabled txs owner = true ↔
    (spanEnabled = true → Maskable owner) ∧ txs.length * 9 ≤ 65535 ∧
      Storable ((txs.map (transactionRow owner)).map (·.bound)) := by
  unfold takesInfo
  rw [Bool.not_eq_true']
  exact DbCall.refused_insert transactionColumns rfl rfl rfl

/-- **Which INSERT into `token_transfers` is executed**: nineteen columns a row. -/
theorem takesTransfers_iff {txs : List TransactionResult} :
    takesTransfers spanEnabled txs owner = true ↔ (spanEnabled = true → Maskable owner) ∧
      (txs.flatMap (transferRows owner)).length * 19 ≤ 65535 ∧
      Storable ((txs.flatMap (transferRows owner)).map (·.bound)) := by
  unfold takesTransfers
  rw [Bool.not_eq_true']
  exact DbCall.refused_insert tokenTransferColumns rfl rfl rfl

/-! ## What a save leaves -/

variable {db : Db} {txs : List TransactionResult} {address : String}

/-- The mask and the early return of `save_transaction_data` itself make no difference. -/
theorem saveTransactionData_eq : db.saveTransactionData spanEnabled txs address =
    if takesInfo spanEnabled txs address then
      let (transactions, db) := db.writeTransactionInfo txs address
      if takesTransfers spanEnabled txs address then
        let (tokenTransfers, db) := db.writeTokenTransfers txs address
        (some ⟨transactions, tokenTransfers⟩, db)
      else (none, db)
    else (none, db) := by
  unfold saveTransactionData
  split
  · rename_i hmask
    have hinfo : takesInfo spanEnabled txs address = false := by
      simp only [takesInfo, DbCall.refused, DbCall.address, Option.any_some, hmask, Bool.true_or,
        Bool.not_true]
    rw [hinfo]
    rfl
  · rename_i hmask
    split
    · rename_i he
      obtain rfl := List.isEmpty_iff.mp he
      have htakes : takesInfo spanEnabled [] address = true ∧
        takesTransfers spanEnabled [] address = true := by
        rw [Bool.not_eq_true] at hmask
        simp [takesInfo, takesTransfers, DbCall.refused, DbCall.rejected, DbCall.address,
          DbCall.parameters, DbCall.limit, DbCall.bound, insertParameters, hmask]
      rw [htakes.1, htakes.2]
      rfl
    · unfold runTransactionInfo runTokenTransfers takesInfo takesTransfers
      cases (DbCall.writeTransactionInfo txs address).refused spanEnabled with
      | true => rfl
      | false => cases (DbCall.writeTokenTransfers txs address).refused spanEnabled <;> rfl

/-- The rows of `transactions` after a save. -/
theorem saveTransactionData_transactions :
    (db.saveTransactionData spanEnabled txs address).2.transactions = db.transactions.insertAll
      ((if takesInfo spanEnabled txs address then txs else []).map (transactionRow address)) := by
  rw [saveTransactionData_eq]
  cases takesInfo spanEnabled txs address with
  | false => rfl
  | true =>
    cases takesTransfers spanEnabled txs address with
    | false => exact writeTransactionInfo_transactions db txs address
    | true =>
      simp only [if_true]
      rw [writeTokenTransfers_transactions, writeTransactionInfo_transactions]

/-- The rows of `token_transfers` after a save. -/
theorem saveTransactionData_tokenTransfers :
    (db.saveTransactionData spanEnabled txs address).2.tokenTransfers =
      db.tokenTransfers.insertAll ((if takesInfo spanEnabled txs address &&
        takesTransfers spanEnabled txs address then txs else []).flatMap (transferRows address)) := by
  rw [saveTransactionData_eq]
  cases takesInfo spanEnabled txs address with
  | false => rfl
  | true =>
    cases takesTransfers spanEnabled txs address with
    | false => exact writeTransactionInfo_tokenTransfers db txs address
    | true =>
      simp only [if_true, Bool.and_self]
      rw [writeTokenTransfers_tokenTransfers, writeTransactionInfo_tokenTransfers]

end Db

end OnChainEventIndexer
