import OnChainEventIndexer.Db.Transactions
import OnChainEventIndexer.Requests.Extraction
import Mathlib.Algebra.Ring.Int.Defs

/-!
# Every number fits its column

PostgreSQL refuses a number that does not fit the type of its column, and with it the whole
statement. Nothing `save_transaction_data` binds is refused for that, whatever the response was: the
decoded fields have 32 bits at most, an index that does not fit is bound as 0, and the widest number,
an `amount_raw` of type `i128`, fits `numeric(40,0)`.

`TokenTransferRow.WellFormed` says more of a transfer: which values its text columns have, and which
columns are set for a native and for an SPL transfer.
-/

namespace OnChainEventIndexer

/-- `integer` -/
def FitsInteger (n : Int) : Prop := -2147483648 ≤ n ∧ n ≤ 2147483647

/-- `bigint` -/
def FitsBigint (n : Int) : Prop := -9223372036854775808 ≤ n ∧ n ≤ 9223372036854775807

/-- `numeric(40,0)` -/
def FitsNumeric40 (n : Int) : Prop := -10 ^ 40 < n ∧ n < 10 ^ 40

/-- The numeric columns of `transactions`. -/
structure TransactionRow.Fits (x : TransactionRow) : Prop where
  slot : FitsBigint x.slot
  blockTime : FitsBigint x.blockTime
  fee : FitsBigint x.fee
  computeUnits : FitsInteger x.computeUnits
  numSigners : FitsInteger x.numSigners
  numInstructions : FitsInteger x.numInstructions

/-- The numeric columns of `token_transfers` but `amount_ui`, whose type is unbounded. -/
structure TokenTransferRow.Fits (x : TokenTransferRow) : Prop where
  amountRaw : FitsNumeric40 x.amountRaw
  decimals : ∀ d ∈ x.decimals, FitsInteger d
  instructionIdx : ∀ i ∈ x.instructionIdx, FitsInteger i
  innerIdx : ∀ i ∈ x.innerIdx, FitsInteger i
  slot : FitsBigint x.slot
  blockTime : FitsBigint x.blockTime

/-- A transfer of lamports: no token, no token accounts. -/
structure TokenTransferRow.Native (x : TokenTransferRow) : Prop where
  assetType : x.assetType = "native"
  lamports : 0 ≤ x.amountRaw ∧ x.amountRaw < 2 ^ 64
  decimals : x.decimals = some 9
  noToken : x.tokenMint = none ∧ x.tokenProgram = none
  noAccounts : x.sourceTokenAccount = none ∧ x.destinationTokenAccount = none

/-- A transfer of tokens: an owner is known through its token account only. -/
structure TokenTransferRow.Spl (x : TokenTransferRow) : Prop where
  assetType : x.assetType = "spl"
  source : x.sourceOwner.isSome → x.sourceTokenAccount.isSome
  destination : x.destinationOwner.isSome → x.destinationTokenAccount.isSome

/-- A transfer as it is derived from an instruction. -/
structure TokenTransferRow.WellFormed (x : TokenTransferRow) : Prop extends x.Fits where
  transferType : x.transferType ∈ ["transfer", "mint", "burn"]
  direction : x.direction = "unknown"
  position : ∃ i, x.instructionIdx = some i ∧ 0 ≤ i
  inner : ∀ i ∈ x.innerIdx, 0 ≤ i
  asset : x.Native ∨ x.Spl

/-! ## Ranges -/

theorem FitsInteger.toBigint {n : Int} (h : FitsInteger n) : FitsBigint n := by
  unfold FitsInteger at h
  unfold FitsBigint
  omega

theorem fitsInteger_toInt (n : Int32) : FitsInteger n.toInt := by
  have hlow := n.le_toInt
  have hhigh := n.toInt_le
  exact ⟨hlow, hhigh⟩

theorem i32OfUsize_range (n : Nat) : 0 ≤ i32OfUsize n ∧ i32OfUsize n ≤ 2147483647 := by
  unfold i32OfUsize
  split <;> omega

/-- What `str::parse::<i128>` accepts is in range. -/
theorem parseI128_range {s : String} {n : Int} (h : parseI128 s = some n) :
    -2 ^ 127 ≤ n ∧ n < 2 ^ 127 := by
  unfold parseI128 at h
  simp only at h
  split at h
  all_goals
    obtain ⟨m, -, h⟩ := Option.bind_eq_some_iff.mp h
    obtain ⟨hm, he⟩ := Option.ite_none_right_eq_some.mp h
    have hn := Option.some.inj he
    omega

theorem splAmount_range {info : ParsedInfo} {amountRaw : Int} {amountUi : Option Float}
    {decimals : Option UInt8} {mint : Option String}
    (h : TransactionResult.splAmount info = some (amountRaw, amountUi, decimals, mint)) :
    -2 ^ 127 ≤ amountRaw ∧ amountRaw < 2 ^ 127 := by
  unfold TransactionResult.splAmount at h
  cases ht : info.tokenAmount with
  | some tokenAmount =>
    simp only [ht] at h
    obtain ⟨n, hn, he⟩ := Option.map_eq_some_iff.mp h
    obtain ⟨rfl, -⟩ := Prod.mk.inj he
    exact parseI128_range hn
  | none =>
    simp only [ht] at h
    cases ha : info.amount with
    | none => exact absurd h (by simp [ha])
    | some amountStr =>
      simp only [ha] at h
      obtain ⟨n, hn, he⟩ := Option.map_eq_some_iff.mp h
      obtain ⟨rfl, -⟩ := Prod.mk.inj he
      exact parseI128_range hn

theorem fitsInteger_toNat (n : UInt8) : FitsInteger n.toNat := by
  have hn := n.toNat_lt
  unfold FitsInteger
  omega

/-- The kinds of transfer a relevant instruction is normalized to. -/
theorem normalizedTransferType_of_relevant {raw : String}
    (h : TransactionResult.isRelevantTransfer raw = true) :
    TransactionResult.normalizedTransferType raw ∈ ["transfer", "mint", "burn"] := by
  unfold TransactionResult.isRelevantTransfer at h
  simp only [List.mem_cons, List.not_mem_nil, or_false, decide_eq_true_eq] at h
  rcases h with rfl | rfl | rfl | rfl | rfl | rfl <;> decide

theorem fitsInteger_of_index {i : Int} (h : 0 ≤ i ∧ i ≤ 2147483647) : FitsInteger i :=
  ⟨by omega, h.2⟩

/-! ## What the statements bind -/

/-- What `write_transaction_info` binds for it. -/
theorem transactionRow_fits (owner : String) (tx : TransactionResult) :
    (transactionRow owner tx).Fits := by
  refine ⟨(fitsInteger_toInt _).toBigint, (fitsInteger_toInt _).toBigint,
    (fitsInteger_toInt _).toBigint, fitsInteger_toInt _, ?_,
    fitsInteger_of_index (i32OfUsize_range _)⟩
  show FitsInteger tx.numSigners
  unfold TransactionResult.numSigners
  split
  · exact fitsInteger_toNat _
  · simp only
    split <;> exact fitsInteger_of_index (i32OfUsize_range _)

variable [External]

section Changes

variable {info : ParsedInfo} {transferType : String} {instructionIdx : Int} {innerIdx : Option Int}
  {c : TokenTransferChange}

/-- The row of a native transfer. -/
theorem nativeRow_wellFormed (hkind : transferType ∈ ["transfer", "mint", "burn"])
    (hidx : 0 ≤ instructionIdx ∧ instructionIdx ≤ 2147483647)
    (hinner : ∀ i ∈ innerIdx, 0 ≤ i ∧ i ≤ 2147483647)
    (h : TransactionResult.parseNativeTransfer info transferType instructionIdx innerIdx = some c)
    (owner : String) (tx : TransactionInfo) : (tokenTransferRow owner tx c).WellFormed := by
  obtain ⟨lamports, -, rfl⟩ := Option.map_eq_some_iff.mp h
  have hlamports := lamports.toNat_lt
  refine
    { amountRaw := ⟨?_, ?_⟩
      decimals := fun d hd => ?_
      instructionIdx := fun i hi => Option.some.inj hi ▸ fitsInteger_of_index hidx
      innerIdx := fun i hi => fitsInteger_of_index (hinner i hi)
      slot := (fitsInteger_toInt tx.slot).toBigint
      blockTime := (fitsInteger_toInt tx.blockTime).toBigint
      transferType := hkind
      direction := rfl
      position := ⟨instructionIdx, rfl, hidx.1⟩
      inner := fun i hi => (hinner i hi).1
      asset := Or.inl ⟨rfl, ⟨?_, ?_⟩, rfl, ⟨rfl, rfl⟩, ⟨rfl, rfl⟩⟩ }
  · show -10 ^ 40 < (lamports.toNat : Int)
    omega
  · show (lamports.toNat : Int) < 10 ^ 40
    omega
  · obtain rfl : (9 : Int) = d := Option.some.inj hd
    exact fitsInteger_of_index ⟨by decide, by decide⟩
  · exact Int.natCast_nonneg _
  · show (lamports.toNat : Int) < 2 ^ 64
    omega

/-- The row of an SPL transfer. -/
theorem splRow_wellFormed {programId : Option String} {tokenAccountMeta : TokenAccountMetaMap}
    (hkind : transferType ∈ ["transfer", "mint", "burn"])
    (hidx : 0 ≤ instructionIdx ∧ instructionIdx ≤ 2147483647)
    (hinner : ∀ i ∈ innerIdx, 0 ≤ i ∧ i ≤ 2147483647)
    (h : TransactionResult.parseSplTransfer info transferType programId tokenAccountMeta
      instructionIdx innerIdx = some c)
    (owner : String) (tx : TransactionInfo) : (tokenTransferRow owner tx c).WellFormed := by
  obtain ⟨⟨amountRaw, amountUi, decimals, mint⟩, hamount, rfl⟩ := Option.map_eq_some_iff.mp h
  obtain ⟨hlow, hhigh⟩ := splAmount_range hamount
  -- an owner is looked up under its account
  have howner : ∀ account : Option String,
      ((account.bind fun a => tokenAccountMeta.lookup a).map (·.owner)).isSome → account.isSome := by
    rintro (_ | account) h
    · exact absurd h (by simp)
    · rfl
  refine
    { amountRaw := ⟨?_, ?_⟩
      decimals := fun d hd => ?_
      instructionIdx := fun i hi => Option.some.inj hi ▸ fitsInteger_of_index hidx
      innerIdx := fun i hi => fitsInteger_of_index (hinner i hi)
      slot := (fitsInteger_toInt tx.slot).toBigint
      blockTime := (fitsInteger_toInt tx.blockTime).toBigint
      transferType := hkind
      direction := rfl
      position := ⟨instructionIdx, rfl, hidx.1⟩
      inner := fun i hi => (hinner i hi).1
      asset := Or.inr ⟨rfl, howner _, howner _⟩ }
  · show -10 ^ 40 < amountRaw
    omega
  · show amountRaw < 10 ^ 40
    omega
  · obtain ⟨n, -, rfl⟩ := Option.map_eq_some_iff.mp hd
    exact fitsInteger_toNat n

end Changes

/-- **The row of a change** extracted from an instruction. -/
theorem changeRow_wellFormed {tokenAccountMeta : TokenAccountMetaMap} {l : Located}
    {c : TokenTransferChange} (h : changeAt tokenAccountMeta l = some c) (owner : String)
    (tx : TransactionInfo) : (tokenTransferRow owner tx c).WellFormed := by
  have hidx := i32OfUsize_range l.index
  have hinner : ∀ i ∈ l.innerIdx.map i32OfUsize, 0 ≤ i ∧ i ≤ 2147483647 := by
    intro i hi
    obtain ⟨n, -, rfl⟩ := Option.map_eq_some_iff.mp hi
    exact i32OfUsize_range n
  unfold changeAt TransactionResult.collectTokenTransfer at h
  cases hp : l.instruction.parsed with
  | none => exact absurd h (by simp [hp])
  | some parsed =>
    simp only [hp] at h
    split at h
    · exact absurd h (by simp)
    · rename_i hrelevant
      have hkind := normalizedTransferType_of_relevant (by simpa using hrelevant)
      split at h
      · exact splRow_wellFormed hkind hidx hinner h owner tx
      · split at h
        · exact nativeRow_wellFormed hkind hidx hinner h owner tx
        · exact absurd h (by simp)

/-- What `write_token_transfers` binds for a transaction. -/
theorem transferRows_wellFormed {owner : String} {info : TransactionInfo} {x : TokenTransferRow}
    (hx : x ∈ transferRows owner (⟨info, []⟩ : TransactionResult).calculateTokenTransfer) :
    x.WellFormed := by
  obtain ⟨c, hc, rfl⟩ := List.mem_map.mp hx
  rw [changes_eq] at hc
  obtain ⟨l, -, hl⟩ := List.mem_filterMap.mp hc
  exact changeRow_wellFormed hl owner _

end OnChainEventIndexer
