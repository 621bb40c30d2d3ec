import Mathlib.Algebra.Ring.Nat
import Mathlib.Data.List.Infix
import Mathlib.Data.Rat.Defs

/-!
# The RPC's data and the extraction of transfers

Model of `requests/types.rs`: the JSON-RPC envelope, the classification of rate-limit errors, the
decoded `getTransaction` result and `TransactionResult::calculate_token_transfer` with everything
it calls.

* Fixed-width fields keep their width (`Int32`, `UInt8`, `UInt16`, `UInt64`); `i64` times and RPC
  codes and the `i128` amounts are `Int` (`parseI128` checks the range). `f64` is `Float`.
* A `HashMap` filled by `insert` is an association list with the newest entry first, read by
  `lookup`: the last insertion under a key wins.
* What is not under `src/` is the class `External`: the JSON decoders that `serde` derives,
  `f64::powi`, `BigDecimal::from_f64`, the text of an HTTP status, and which sizes of rows
  PostgreSQL takes.
-/

namespace OnChainEventIndexer

/-! ## The envelope -/

/-- An entry of `getSignaturesForAddress`. -/
structure Signature where
  blockTime : Option Int
  signature : String
deriving DecidableEq, Repr

/-- The entries of a page, as `write_signatures` takes them. -/
structure RpcResponse where
  result : List Signature
deriving DecidableEq, Repr

/-- The `result` member of an envelope: absent, `null`, or a value. -/
inductive ResponseField (τ : Type)
  | missing
  | null
  | value (v : τ)
deriving DecidableEq, Repr

/-- The `error` member of an envelope. -/
structure RpcError where
  code : Int
  message : String
deriving DecidableEq, Repr

/-- A JSON-RPC response. -/
structure RpcEnvelope (τ : Type) where
  result : ResponseField τ
  error : Option RpcError
deriving DecidableEq, Repr

/-- `str::contains`. -/
def contains (s pat : String) : Bool := decide (pat.toList <:+: s.toList)

/-- `str::to_ascii_lowercase`. -/
def toAsciiLowercase (s : String) : String := s.map Char.toLower

/-- `is_rate_limited(status_code, rpc_code, message)`. -/
def isRateLimited (statusCode : Option Nat) (rpcCode : Option Int) (message : String) : Bool :=
  let httpTooManyRequests : Nat := 429
  let rpcRateLimitedCode : Int := -32429
  if statusCode = some httpTooManyRequests then true
  else if rpcCode = some rpcRateLimitedCode then true
  else
    let normalized := toAsciiLowercase message
    contains normalized "rate limit" || contains normalized "rate-limited" ||
      contains normalized "too many requests"

/-- `RpcError::is_rate_limited` -/
def RpcError.isRateLimited (e : RpcError) : Bool :=
  OnChainEventIndexer.isRateLimited none (some e.code) e.message

/-- Why a transaction was not fetched. -/
structure TransactionFetchError where
  signature : String
  statusCode : Option Nat
  rpcCode : Option Int
  message : String
deriving DecidableEq, Repr

/-- `TransactionFetchError::is_rate_limited` -/
def TransactionFetchError.isRateLimited (e : TransactionFetchError) : Bool :=
  OnChainEventIndexer.isRateLimited e.statusCode e.rpcCode e.message

/-! ## The decoded transaction -/

/-- `serde_json::Number`. -/
inductive Number
  | posInt (n : Nat)
  | negInt (n : Int)
  | float (x : Float)

/-- `serde_json::Value`. -/
inductive Value
  | null
  | bool (b : Bool)
  | number (n : Number)
  | string (s : String)
  | array (items : List Value)
  | object (members : List (String × Value))

/-- An amount of tokens, as the RPC shows it. -/
structure UiTokenAmount where
  amount : String
  decimals : UInt8
  uiAmount : Option Float
deriving DecidableEq

/-- A token account of the transaction, before or after it. -/
structure TokenBalance where
  accountIndex : UInt8
  mint : String
  owner : String
  uiTokenAmount : UiTokenAmount
deriving DecidableEq

/-- What a parsed instruction says; which members are there depends on its type. -/
structure ParsedInfo where
  tokenAmount : Option UiTokenAmount := none
  amount : Option String := none
  decimals : Option UInt8 := none
  uiAmount : Option Float := none
  mint : Option String := none
  authority : Option String := none
  lamports : Option UInt64 := none
  source : Option String := none
  destination : Option String := none
  account : Option String := none
deriving DecidableEq

/-- The `parsed` member of an instruction. -/
structure ParsedInstruction where
  info : ParsedInfo
  instructionType : String
deriving DecidableEq

/-- An instruction, top-level or inner. -/
structure Instruction where
  parsed : Option ParsedInstruction := none
  program : Option String := none
  programId : Option String := none
deriving DecidableEq

/-- The inner instructions of the top-level one at `index`. -/
structure InnerInstructions where
  index : UInt16
  instructions : List Instruction
deriving DecidableEq

/-- The accounts loaded from lookup tables. -/
structure LoadedAddresses where
  writable : List String
  readonly : List String
deriving DecidableEq

/-- The `meta` member: how the transaction went. -/
structure Meta where
  computeUnitsConsumed : Int32
  fee : Int32
  err : Value := .null
  loadedAddresses : Option LoadedAddresses := none
  innerInstructions : List InnerInstructions := []
  preTokenBalances : List TokenBalance
  postTokenBalances : List TokenBalance

/-- The header of a message, of which only the number of signatures is read. -/
structure MessageHeader where
  requiredSignatures : UInt8
deriving DecidableEq

/-- An account key with its flags. -/
structure AccountKeyInfo where
  pubkey : String
  signer : Option Bool
deriving DecidableEq

/-- An account key, in one of the two forms the RPC has for it. -/
inductive AccountKey
  | pubkey (s : String)
  | info (info : AccountKeyInfo)
deriving DecidableEq

/-- The message of a transaction. -/
structure AccountKeys where
  keys : List AccountKey
  instructions : List Instruction := []
  header : Option MessageHeader := none
deriving DecidableEq

/-- The `transaction` member. -/
structure Transaction where
  signatures : List String
  message : AccountKeys
deriving DecidableEq

/-- The decoded `result` of `getTransaction`. -/
structure TransactionInfo where
  blockTime : Int32
  «meta» : Meta
  transaction : Transaction
  slot : Int32

/-- An extracted transfer. -/
structure TokenTransferChange where
  tokenMint : Option String
  tokenProgram : Option String
  sourceOwner : Option String
  destinationOwner : Option String
  sourceTokenAccount : Option String
  destinationTokenAccount : Option String
  amountRaw : Int
  amountUi : Option Float
  decimals : Option UInt8
  transferType : String
  assetType : String
  direction : String
  authority : Option String
  instructionIdx : Option Int
  innerIdx : Option Int

/-- A transaction with the transfers extracted from it. -/
structure TransactionResult where
  result : TransactionInfo
  tokenTransferChanges : List TokenTransferChange

/-- What `get_transaction` returns for a list of signatures. -/
structure TransactionBatch where
  transactions : List TransactionResult
  processedSignatures : List String
  failedSignatures : List String
  errors : List TransactionFetchError

/-! ## What a statement binds -/

/-- A value bound to a statement: `text`, `jsonb`, or a number. -/
inductive Parameter
  | text (s : Option String)
  | json (v : Value)
  | number (n : Option Rat)

/-- The text has a U+0000. -/
def hasNul (s : String) : Bool := s.toList.contains (Char.ofNat 0)

mutual

/-- Some string of the value, or the key of some member, has a U+0000. -/
def Value.hasNul : Value → Bool
  | .string s => OnChainEventIndexer.hasNul s
  | .array items => Value.itemsHaveNul items
  | .object members => Value.membersHaveNul members
  | _ => false

/-- `Value.hasNul` of some item. -/
def Value.itemsHaveNul : List Value → Bool
  | [] => false
  | v :: items => v.hasNul || Value.itemsHaveNul items

/-- `Value.hasNul` of some member, or in a key. -/
def Value.membersHaveNul : List (String × Value) → Bool
  | [] => false
  | (key, v) :: members => OnChainEventIndexer.hasNul key || v.hasNul || Value.membersHaveNul members

end

/-- A U+0000, which PostgreSQL takes neither in a `text` nor in a `jsonb`. -/
def Parameter.hasNul : Parameter → Bool
  | .text s => s.any OnChainEventIndexer.hasNul
  | .json v => v.hasNul
  | .number _ => false

/-! ## What is not under `src/` -/

/-- Code outside the repository that the model calls. -/
class External where
  /-- `serde_json::from_str::<RpcEnvelope<Vec<Signature>>>` -/
  decodeSignatures : String → Except String (RpcEnvelope (List Signature))
  /-- `serde_json::from_str::<RpcEnvelope<Value>>` -/
  decodeEnvelope : String → Except String (RpcEnvelope Value)
  /-- `serde_json::from_value::<TransactionInfo>` -/
  decodeTransactionInfo : Value → Except String TransactionInfo
  /-- `10f64.powi(n)` -/
  powi10 : Int → Float
  /-- `BigDecimal::from_f64` -/
  bigDecimalFromF64 : Float → Option Rat
  /-- `Display` of `StatusCode` -/
  statusText : Nat → String
  /-- The rows a statement binds are within PostgreSQL's limits on sizes: of a message, of a `jsonb`,
  of an entry of an index. -/
  withinSizes : List (List Parameter) → Bool

/-! ## Numbers -/

/-- `i32::try_from(n).unwrap_or(0)` of a `usize`. -/
def i32OfUsize (n : Nat) : Int := if n ≤ 2147483647 then n else 0

/-- `str::parse::<i128>`: an optional sign, then decimal digits only, within the range. -/
def parseI128 (s : String) : Option Int :=
  let digits (cs : List Char) : Option Nat :=
    if cs.isEmpty || !cs.all Char.isDigit then none
    else some (cs.foldl (fun acc c => acc * 10 + (c.toNat - '0'.toNat)) 0)
  match s.toList with
  | '-' :: cs => (digits cs).bind fun n => if n ≤ 2 ^ 127 then some (-n : Int) else none
  | '+' :: cs => (digits cs).bind fun n => if n < 2 ^ 127 then some (n : Int) else none
  | cs => (digits cs).bind fun n => if n < 2 ^ 127 then some (n : Int) else none

/-- `n as f64` for an `i128`: the nearest float, ties to the even mantissa. The rounding to 53
bits is done on the integer, so the conversion of the rounded number is exact. -/
def i128AsF64 (n : Int) : Float :=
  let m := n.natAbs
  let shift := m.log2 - 52
  let kept := m >>> shift
  let rest := m % 2 ^ shift
  let half := 2 ^ (shift - 1)
  let rounded :=
    if shift = 0 then m
    else if half < rest ∨ (rest = half ∧ kept % 2 = 1) then (kept + 1) <<< shift
    else kept <<< shift
  if n < 0 then -Float.ofNat rounded else Float.ofNat rounded

/-! ## Accounts -/

/-- `AccountKeys::pubkeys` -/
def AccountKeys.pubkeys (m : AccountKeys) : List String :=
  m.keys.map fun
    | .pubkey s => s
    | .info i => i.pubkey

/-- `AccountKeys::count_signers` -/
def AccountKeys.countSigners (m : AccountKeys) : Nat :=
  m.keys.countP fun
    | .info i => i.signer.getD false
    | .pubkey _ => false

/-- What the balances say of a token account. -/
structure TokenAccountMeta where
  owner : String
  mint : String
  decimals : UInt8
deriving DecidableEq

/-- `HashMap<String, TokenAccountMeta>`, newest entry first. -/
abbrev TokenAccountMetaMap := List (String × TokenAccountMeta)

namespace TransactionResult

/-- `num_signers`: the header's count, else the signatures, else the keys that signed. -/
def numSigners (tx : TransactionResult) : Int :=
  match tx.result.transaction.message.header with
  | some header => header.requiredSignatures.toNat
  | none =>
    let signaturesLen := tx.result.transaction.signatures.length
    if 0 < signaturesLen then i32OfUsize signaturesLen
    else i32OfUsize tx.result.transaction.message.countSigners

/-- `num_instructions` -/
def numInstructions (tx : TransactionResult) : Int :=
  i32OfUsize tx.result.transaction.message.instructions.length

/-- `all_account_keys`: the message's keys, then the loaded ones. -/
def allAccountKeys (tx : TransactionResult) : List String :=
  let keys := tx.result.transaction.message.pubkeys
  match tx.result.meta.loadedAddresses with
  | some loaded => keys ++ loaded.writable ++ loaded.readonly
  | none => keys

/-- `token_account_meta_map`: a later balance of an account replaces an earlier one. -/
def tokenAccountMetaMap (tx : TransactionResult) : TokenAccountMetaMap :=
  let keys := tx.allAccountKeys
  (tx.result.meta.preTokenBalances ++ tx.result.meta.postTokenBalances).foldl
    (fun map balance =>
      match keys[balance.accountIndex.toNat]? with
      | some tokenAccount =>
        (tokenAccount, ⟨balance.owner, balance.mint, balance.uiTokenAmount.decimals⟩) :: map
      | none => map) []

/-! ## Transfers -/

/-- `parse_native_transfer`: nothing without `lamports`. -/
def parseNativeTransfer (info : ParsedInfo) (transferType : String) (instructionIdx : Int)
    (innerIdx : Option Int) : Option TokenTransferChange :=
  info.lamports.map fun lamports =>
    let high := lamports.toNat >>> 32
    let low := lamports.toNat % 2 ^ 32
    let asF64 := Float.ofNat high * 4294967296.0 + Float.ofNat low
    { tokenMint := none
      tokenProgram := none
      sourceOwner := info.source
      destinationOwner := info.destination
      sourceTokenAccount := none
      destinationTokenAccount := none
      amountRaw := lamports.toNat
      amountUi := some (asF64 / 1000000000.0)
      decimals := some 9
      transferType
      assetType := "native"
      direction := "unknown"
      authority := info.authority
      instructionIdx := some instructionIdx
      innerIdx }

/-- The amount columns of an SPL transfer: `tokenAmount` goes before `amount`; neither, or an
amount that does not parse, gives no transfer. -/
def splAmount (info : ParsedInfo) : Option (Int × Option Float × Option UInt8 × Option String) :=
  match info.tokenAmount with
  | some tokenAmount =>
    (parseI128 tokenAmount.amount).map fun amountRaw =>
      (amountRaw, tokenAmount.uiAmount, some tokenAmount.decimals, info.mint)
  | none =>
    match info.amount with
    | some amountStr =>
      (parseI128 amountStr).map fun amountRaw => (amountRaw, info.uiAmount, info.decimals, info.mint)
    | none => none

/-- `parse_spl_transfer`: what the instruction does not say is taken from the balances, the source
before the destination. -/
def parseSplTransfer [External] (info : ParsedInfo) (transferType : String)
    (programId : Option String) (tokenAccountMeta : TokenAccountMetaMap) (instructionIdx : Int)
    (innerIdx : Option Int) : Option TokenTransferChange :=
  (splAmount info).map fun (amountRaw, amountUi, decimals, tokenMint) =>
    let destination :=
      if transferType = "mint" then info.account.or info.destination else info.destination
    let source := if transferType = "burn" then info.account.or info.source else info.source
    let metaOf (addr : Option String) := addr.bind fun a => tokenAccountMeta.lookup a
    let sourceOwner := (metaOf source).map (·.owner)
    let destinationOwner := (metaOf destination).map (·.owner)
    let tokenMint :=
      tokenMint.or (((metaOf source).map (·.mint)).or ((metaOf destination).map (·.mint)))
    let decimals :=
      decimals.or (((metaOf source).map (·.decimals)).or ((metaOf destination).map (·.decimals)))
    let amountUi :=
      amountUi.or (decimals.map fun d => i128AsF64 amountRaw / External.powi10 d.toNat)
    { tokenMint
      tokenProgram := programId
      sourceOwner
      destinationOwner
      sourceTokenAccount := source
      destinationTokenAccount := destination
      amountRaw
      amountUi
      decimals
      transferType
      assetType := "spl"
      direction := "unknown"
      authority := info.authority
      instructionIdx := some instructionIdx
      innerIdx }

/-- `matches!(transfer_type_raw, …)` -/
def isRelevantTransfer (raw : String) : Bool :=
  raw ∈ ["transfer", "transferChecked", "mintTo", "mintToChecked", "burn", "burnChecked"]

/-- `transfer_type`, of the types that are relevant. -/
def normalizedTransferType (raw : String) : String :=
  if raw = "transfer" ∨ raw = "transferChecked" then "transfer"
  else if raw = "mintTo" ∨ raw = "mintToChecked" then "mint"
  else if raw = "burn" ∨ raw = "burnChecked" then "burn"
  else "unknown"

/-- `collect_token_transfer`, the change it pushes (if any) instead of the vector it pushes to. -/
def collectTokenTransfer [External] (instruction : Instruction) (instructionIdx : Int)
    (innerIdx : Option Int) (tokenAccountMeta : TokenAccountMetaMap) :
    Option TokenTransferChange :=
  let systemProgram := "11111111111111111111111111111111"
  let tokenProgram := "TokenkegQfeZyiNwAJbNbGKPFXCWuBvf9Ss623VQ5DA"
  match instruction.parsed with
  | none => none
  | some parsed =>
    if !isRelevantTransfer parsed.instructionType then none
    else
      let isSystem :=
        instruction.programId = some systemProgram ∨ instruction.program = some "system"
      let isSpl := instruction.programId = some tokenProgram ∨
        instruction.program = some "spl-token" ∨ instruction.program = some "spl-token-2022"
      let transferType := normalizedTransferType parsed.instructionType
      if isSpl then
        parseSplTransfer parsed.info transferType instruction.programId tokenAccountMeta
          instructionIdx innerIdx
      else if isSystem then
        parseNativeTransfer parsed.info transferType instructionIdx innerIdx
      else none

/-- `calculate_token_transfer`: the top-level instructions in order, then the inner ones. -/
def calculateTokenTransfer [External] (tx : TransactionResult) : TransactionResult :=
  let tokenAccountMeta := tx.tokenAccountMetaMap
  let outer := tx.result.transaction.message.instructions.zipIdx.filterMap
    fun (instruction, idx) =>
      collectTokenTransfer instruction (i32OfUsize idx) none tokenAccountMeta
  let inner := tx.result.meta.innerInstructions.flatMap fun inner =>
    inner.instructions.zipIdx.filterMap fun (instruction, innerIdx) =>
      collectTokenTransfer instruction inner.index.toNat (some (i32OfUsize innerIdx))
        tokenAccountMeta
  { tx with tokenTransferChanges := outer ++ inner }

@[simp] theorem calculateTokenTransfer_result [External] (tx : TransactionResult) :
    tx.calculateTokenTransfer.result = tx.result := rfl

/-- `transaction.signatures.first().map(String::as_str).unwrap_or_default()`, the signature a
transaction is stored under. -/
def firstSignature (info : TransactionInfo) : String := info.transaction.signatures.head?.getD ""

end TransactionResult

end OnChainEventIndexer
