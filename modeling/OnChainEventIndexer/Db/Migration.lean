import OnChainEventIndexer.Db.Transactions
import OnChainEventIndexer.Lib.RowNumber
import Mathlib.Data.Int.ConditionallyCompleteOrder
import Mathlib.Order.Lattice.Nat
import Mathlib.Data.Prod.Lex
import Mathlib.Data.Set.List
import Mathlib.Order.WithBot

/-!
# The unique index of `token_transfers`

Model of the migration `add_token_transfers_natural_unique_index`. It deletes the duplicates among
the rows of earlier versions, and creates the index on what is left.

* A row has all its columns here (`StoredTransfer`), nullable where the initial schema has no
  `NOT NULL`. A `NULL` is `none`. A `uuid` is the number its 16 bytes spell; uuids compare like
  these. A `numeric` is its value: the display scale is left out, no comparison sees it.
* `PARTITION BY`, and an index with `NULLS NOT DISTINCT`, take NULLs for equal; `ORDER BY` puts them
  last. Creating the index fails if two rows are equal on its columns; the limit on the size of an
  index entry is left out.

Results:
* **`deduplicated`**: of each class of equal rows the first one stays, and the index is created.
* `sameColumns_stored`: for the rows the program inserts, equal on the columns is equal;
  `exists_table`: under the index they form a table with the key of the schema.
-/

namespace OnChainEventIndexer

open Keyed

/-- The values of a `numeric`. -/
inductive Numeric
  | finite (q : Rat)
  | nan
  | infinity
  | negInfinity
deriving DecidableEq

/-- A row of `token_transfers` before the migration, with all its columns. -/
structure StoredTransfer where
  id : Nat
  createdAt : Option Int
  trackedOwner : String
  signature : String
  sourceOwner : Option String
  destinationOwner : Option String
  sourceTokenAccount : Option String
  destinationTokenAccount : Option String
  tokenMint : Option String
  tokenProgram : Option String
  amountRaw : Numeric
  amountUi : Option Numeric
  decimals : Option Int
  assetType : String
  transferType : String
  direction : String
  instructionIdx : Option Int
  innerIdx : Option Int
  authority : Option String
  slot : Int
  blockTime : Option Int
deriving DecidableEq

/-- The columns but `id` and `created_at`. -/
inductive Column
  | trackedOwner
  | signature
  | sourceOwner
  | destinationOwner
  | sourceTokenAccount
  | destinationTokenAccount
  | tokenMint
  | tokenProgram
  | amountRaw
  | amountUi
  | decimals
  | assetType
  | transferType
  | direction
  | instructionIdx
  | innerIdx
  | authority
  | slot
  | blockTime
deriving DecidableEq

/-- The value of a key column. -/
inductive SqlValue
  | text (s : String)
  | integer (n : Int)
  | numeric (x : Numeric)
deriving DecidableEq

namespace StoredTransfer

/-- The value of a column, `none` for NULL. -/
def column (r : StoredTransfer) : Column → Option SqlValue
  | .trackedOwner => some (.text r.trackedOwner)
  | .signature => some (.text r.signature)
  | .sourceOwner => r.sourceOwner.map .text
  | .destinationOwner => r.destinationOwner.map .text
  | .sourceTokenAccount => r.sourceTokenAccount.map .text
  | .destinationTokenAccount => r.destinationTokenAccount.map .text
  | .tokenMint => r.tokenMint.map .text
  | .tokenProgram => r.tokenProgram.map .text
  | .amountRaw => some (.numeric r.amountRaw)
  | .amountUi => r.amountUi.map .numeric
  | .decimals => r.decimals.map .integer
  | .assetType => some (.text r.assetType)
  | .transferType => some (.text r.transferType)
  | .direction => some (.text r.direction)
  | .instructionIdx => r.instructionIdx.map .integer
  | .innerIdx => r.innerIdx.map .integer
  | .authority => r.authority.map .text
  | .slot => some (.integer r.slot)
  | .blockTime => r.blockTime.map .integer

/-- `ORDER BY created_at, id` -/
def orderBy (r : StoredTransfer) : WithTop Int ×ₗ Nat :=
  toLex (match r.createdAt with | some t => (t : WithTop Int) | none => ⊤, r.id)

/-- Equal on all 19 columns, NULLs equal. -/
def SameColumns (r x : StoredTransfer) : Prop := ∀ c, r.column c = x.column c

/-- Before in the order by `created_at`, NULLs last, and `id`. -/
def Before (r x : StoredTransfer) : Prop :=
  match r.createdAt, x.createdAt with
  | some t, some u => t < u ∨ (t = u ∧ r.id < x.id)
  | some _, none => True
  | none, some _ => False
  | none, none => r.id < x.id

end StoredTransfer

/-! ## The migration -/

/-- The columns of `PARTITION BY`. -/
def partitionColumns : List Column :=
  [.trackedOwner, .signature, .sourceOwner, .destinationOwner, .sourceTokenAccount,
    .destinationTokenAccount, .tokenMint, .tokenProgram, .amountRaw, .amountUi, .decimals,
    .assetType, .transferType, .direction, .instructionIdx, .innerIdx, .authority, .slot, .blockTime]

/-- The columns of the index. -/
def indexColumns : List Column :=
  [.trackedOwner, .signature, .sourceOwner, .destinationOwner, .sourceTokenAccount,
    .destinationTokenAccount, .tokenMint, .tokenProgram, .amountRaw, .amountUi, .decimals,
    .assetType, .transferType, .direction, .instructionIdx, .innerIdx, .authority, .slot, .blockTime]

/-- `ranked_duplicates`: the ids, each with its `row_number`. -/
def rankedDuplicates (t : Table StoredTransfer.id) : List (Nat × Nat) :=
  t.rows.map fun r => (r.id, rowNumber (fun r => partitionColumns.map r.column)
    StoredTransfer.orderBy t.rows r)

/-- The DELETE: `id IN (SELECT id FROM ranked_duplicates WHERE row_number > 1)`. -/
def deleteDuplicates (t : Table StoredTransfer.id) : Table StoredTransfer.id :=
  t.delete fun r => r.id ∈ ((rankedDuplicates t).filter fun p => p.2 > 1).map Prod.fst

/-- Two rows a unique index on the columns does not admit together. -/
def Conflict (columns : List Column) (nullsNotDistinct : Bool) (r x : StoredTransfer) : Prop :=
  ∀ c ∈ columns, r.column c = x.column c ∧ (nullsNotDistinct = true ∨ r.column c ≠ none)

instance (columns : List Column) (nullsNotDistinct : Bool) (r x : StoredTransfer) :
    Decidable (Conflict columns nullsNotDistinct r x) :=
  inferInstanceAs (Decidable (∀ c ∈ columns, _ ∧ _))

/-- `CREATE UNIQUE INDEX` finds no conflict. -/
def IndexCreated (columns : List Column) (nullsNotDistinct : Bool) (t : Table StoredTransfer.id) :
    Prop :=
  t.rows.Pairwise fun r x => ¬Conflict columns nullsNotDistinct r x

instance (columns : List Column) (nullsNotDistinct : Bool) (t : Table StoredTransfer.id) :
    Decidable (IndexCreated columns nullsNotDistinct t) :=
  inferInstanceAs (Decidable (List.Pairwise _ _))

/-- The migration; `none` when the index cannot be created. -/
def migrate (t : Table StoredTransfer.id) : Option (Table StoredTransfer.id) :=
  let t := deleteDuplicates t
  if IndexCreated indexColumns true t then some t else none

/-! ## The classes of equal rows -/

theorem mem_partitionColumns (c : Column) : c ∈ partitionColumns := by
  cases c <;> decide

theorem mem_indexColumns (c : Column) : c ∈ indexColumns := by
  cases c <;> decide

/-- The partitions are the classes. -/
theorem partition_eq {r x : StoredTransfer} :
    partitionColumns.map r.column = partitionColumns.map x.column ↔ r.SameColumns x := by
  rw [List.map_inj_left]
  exact ⟨fun h c => h c (mem_partitionColumns c), fun h c _ => h c⟩

/-- With `NULLS NOT DISTINCT` the index admits one row of a class. -/
theorem conflict_iff {r x : StoredTransfer} : Conflict indexColumns true r x ↔ r.SameColumns x := by
  constructor
  · exact fun h c => (h c (mem_indexColumns c)).1
  · exact fun h c _ => ⟨h c, Or.inl rfl⟩

theorem orderBy_lt {r x : StoredTransfer} : r.orderBy < x.orderBy ↔ r.Before x := by
  unfold StoredTransfer.orderBy StoredTransfer.Before
  rw [Prod.Lex.toLex_lt_toLex]
  cases r.createdAt <;> cases x.createdAt <;> simp

/-- The order is total on the rows of a table. -/
theorem orderBy_inj {t : Table StoredTransfer.id} :
    ∀ r ∈ t, ∀ x ∈ t, r.orderBy = x.orderBy → r = x := by
  intro r hr x hx h
  exact Table.eq_of_key hr hx (congrArg Prod.snd (toLex.injective h))

/-- A row is deleted if its own number is above 1. -/
theorem deleteDuplicates_eq (t : Table StoredTransfer.id) : deleteDuplicates t =
    t.keepFirst (fun r => partitionColumns.map r.column) StoredTransfer.orderBy := by
  refine Table.eq_of_rows (List.filter_congr fun r hr => ?_)
  refine congrArg _ (decide_eq_decide.mpr ?_)
  unfold rankedDuplicates
  simp only [List.mem_map, List.mem_filter, decide_eq_true_eq]
  constructor
  · rintro ⟨_, ⟨⟨x, hx, rfl⟩, hnum⟩, hid⟩
    rwa [Table.eq_of_key hx hr hid] at hnum
  · exact fun hnum => ⟨_, ⟨⟨r, hr, rfl⟩, hnum⟩, rfl⟩

/-! ## What the migration leaves -/

/-- One row of each class, the first one, and an index. -/
structure Deduplicates (t t' : Table StoredTransfer.id) : Prop where
  representative : ∀ r ∈ t, ∃! x, x ∈ t' ∧ x.SameColumns r
  first : ∀ x ∈ t', x ∈ t ∧ ∀ r ∈ t, r.SameColumns x → r = x ∨ x.Before r
  alone : ∀ r ∈ t, (∀ x ∈ t, x.SameColumns r → x = r) → r ∈ t'
  index : IndexCreated indexColumns true t' ∧ migrate t = some t'
  again : deleteDuplicates t' = t'

theorem mem_deleteDuplicates {t : Table StoredTransfer.id} {x : StoredTransfer} :
    x ∈ deleteDuplicates t ↔ x ∈ t ∧ ∀ r ∈ t, r.SameColumns x → r = x ∨ x.Before r := by
  rw [deleteDuplicates_eq, Table.mem_keepFirst orderBy_inj]
  refine and_congr_right fun hx => forall₂_congr fun r hr => ?_
  rw [partition_eq, le_iff_eq_or_lt, orderBy_lt]
  refine imp_congr_right fun _ => or_congr_left ⟨fun h => ?_, fun h => h ▸ rfl⟩
  exact orderBy_inj r hr x hx h.symm

theorem indexCreated_deleteDuplicates (t : Table StoredTransfer.id) :
    IndexCreated indexColumns true (deleteDuplicates t) := by
  have hnodup : ((deleteDuplicates t).rows.map fun r => partitionColumns.map r.column).Nodup := by
    rw [deleteDuplicates_eq]
    exact Table.nodup_keepFirst orderBy_inj
  refine (List.pairwise_map.mp hnodup).imp fun hne hconflict => ?_
  exact hne (partition_eq.mpr (conflict_iff.mp hconflict))

/-- **The migration keeps one representative of each class.** -/
theorem deduplicated (t : Table StoredTransfer.id) : Deduplicates t (deleteDuplicates t) where
  representative r hr := by
    simp only [deleteDuplicates_eq, ← partition_eq]
    exact Table.existsUnique_keepFirst orderBy_inj hr
  first x hx := mem_deleteDuplicates.mp hx
  alone r hr halone := mem_deleteDuplicates.mpr ⟨hr, fun x hx hsame => Or.inl (halone x hx hsame)⟩
  index := ⟨indexCreated_deleteDuplicates t, if_pos (indexCreated_deleteDuplicates t)⟩
  again := by
    rw [deleteDuplicates_eq, deleteDuplicates_eq]
    exact Table.keepFirst_keepFirst orderBy_inj

example :
    let row (id : Nat) (createdAt : Option Int) (tokenMint : Option String) : StoredTransfer :=
      ⟨id, createdAt, "owner", "sig", none, none, none, none, tokenMint, none, .finite 1, none, none,
        "token", "transfer", "in", none, none, none, 7, none⟩
    (deleteDuplicates ⟨[row 1 none none, row 4 (some 5) none, row 2 (some 5) none,
      row 3 none (some "mint")], by decide⟩).rows.map StoredTransfer.id = [2, 3] := by
  decide

/-! ## The index and the rows of the program -/

/-- The row an INSERT stores. -/
def TokenTransferRow.stored (r : TokenTransferRow) (id : Nat) (createdAt : Option Int) :
    StoredTransfer where
  id := id
  createdAt := createdAt
  trackedOwner := r.trackedOwner
  signature := r.signature
  sourceOwner := r.sourceOwner
  destinationOwner := r.destinationOwner
  sourceTokenAccount := r.sourceTokenAccount
  destinationTokenAccount := r.destinationTokenAccount
  tokenMint := r.tokenMint
  tokenProgram := r.tokenProgram
  amountRaw := .finite r.amountRaw
  amountUi := r.amountUi.map .finite
  decimals := r.decimals
  assetType := r.assetType
  transferType := r.transferType
  direction := r.direction
  instructionIdx := r.instructionIdx
  innerIdx := r.innerIdx
  authority := r.authority
  slot := r.slot
  blockTime := some r.blockTime

/-- The columns determine the row. -/
theorem sameColumns_stored {r r' : TokenTransferRow} {id id' : Nat}
    {createdAt createdAt' : Option Int} :
    (r.stored id createdAt).SameColumns (r'.stored id' createdAt') ↔ r = r' := by
  refine ⟨fun h => ?_, fun h c => by subst h; cases c <;> rfl⟩
  have text : ∀ {a b : Option String}, a.map SqlValue.text = b.map .text → a = b := fun h =>
    Option.map_injective (fun _ _ => SqlValue.text.inj) h
  have integer : ∀ {a b : Option Int}, a.map SqlValue.integer = b.map .integer → a = b := fun h =>
    Option.map_injective (fun _ _ => SqlValue.integer.inj) h
  have numeric : ∀ {a b : Option Rat}, (a.map Numeric.finite).map SqlValue.numeric =
      (b.map Numeric.finite).map .numeric → a = b := fun h =>
    Option.map_injective (fun _ _ => Numeric.finite.inj)
      (Option.map_injective (fun _ _ => SqlValue.numeric.inj) h)
  have some_text : ∀ {a b : String}, some (SqlValue.text a) = some (.text b) → a = b := fun h =>
    SqlValue.text.inj (Option.some.inj h)
  have some_integer : ∀ {a b : Int}, some (SqlValue.integer a) = some (.integer b) → a = b :=
    fun h => SqlValue.integer.inj (Option.some.inj h)
  have some_numeric : ∀ {a b : Int}, some (SqlValue.numeric (.finite a)) =
      some (.numeric (.finite b)) → a = b := fun h =>
    Rat.intCast_injective (Numeric.finite.inj (SqlValue.numeric.inj (Option.some.inj h)))
  cases r
  cases r'
  rw [TokenTransferRow.mk.injEq]
  exact ⟨some_text (h .trackedOwner), some_text (h .signature), text (h .sourceOwner),
    text (h .destinationOwner), text (h .sourceTokenAccount), text (h .destinationTokenAccount),
    text (h .tokenMint), text (h .tokenProgram), some_numeric (h .amountRaw),
    numeric (h .amountUi), integer (h .decimals), some_text (h .assetType),
    some_text (h .transferType), some_text (h .direction), integer (h .instructionIdx),
    integer (h .innerIdx), text (h .authority), some_integer (h .slot), some_integer (h .blockTime)⟩

/-- The rows under the index, without `id` and `created_at`. -/
theorem exists_table {t : Table StoredTransfer.id} (hindex : IndexCreated indexColumns true t)
    (hstored : ∀ x ∈ t, ∃ r id createdAt, TokenTransferRow.stored r id createdAt = x) :
    ∃ t' : Table TokenTransferRow.key, ∀ r, r ∈ t' ↔ ∃ id createdAt, r.stored id createdAt ∈ t := by
  obtain ⟨ps, hps⟩ : t.rows ∈ Set.range (List.map fun p : TokenTransferRow × Nat × Option Int =>
      p.1.stored p.2.1 p.2.2) := by
    rw [Set.range_list_map]
    intro x hx
    obtain ⟨r, id, createdAt, rfl⟩ := hstored x hx
    exact ⟨(r, id, createdAt), rfl⟩
  have hnodup : (ps.map Prod.fst).Nodup := by
    unfold IndexCreated at hindex
    rw [← hps, List.pairwise_map] at hindex
    refine List.pairwise_map.mpr (hindex.imp fun hne hsame => ?_)
    exact hne (conflict_iff.mpr (sameColumns_stored.mpr hsame))
  refine ⟨⟨ps.map Prod.fst, by rwa [List.map_map]⟩, fun r => ?_⟩
  rw [← Table.mem_rows, List.mem_map]
  constructor
  · rintro ⟨p, hp, rfl⟩
    refine ⟨p.2.1, p.2.2, ?_⟩
    rw [← Table.mem_rows, ← hps]
    exact List.mem_map_of_mem hp
  · rintro ⟨id, createdAt, hmem⟩
    rw [← Table.mem_rows, ← hps] at hmem
    obtain ⟨p, hp, hrow⟩ := List.mem_map.mp hmem
    exact ⟨p, hp, sameColumns_stored.mp fun c => congrArg (StoredTransfer.column · c) hrow⟩

end OnChainEventIndexer
