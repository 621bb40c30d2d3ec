import OnChainEventIndexer.Db.Schema

/-!
# Signatures

Model of `db/signatures.rs`, each statement executed alone; what PostgreSQL refuses is in
`Db/Statements.lean`.

`get_unprocessed_signatures` claims at most `limit` rows; the select has no `ORDER BY`, so which of
the claimable rows it picks, and in which order `RETURNING` lists them, is open. The choice is the
argument `chosen`, checked by `IsClaim`: `limit` claimable rows, or all of them when there are no
more.
-/

namespace OnChainEventIndexer

open Keyed

/-! ## `get_unprocessed_signatures` -/

/-- The row condition of the locking select: not processed, and not claimed or claimed more than
five minutes ago. -/
def SignatureRow.claimable (address : String) (now : Int) (r : SignatureRow) : Bool :=
  r.ownerAddress = address && !r.isProcessed &&
    (!r.isProcessing ||
      match r.processingStartedAt with
      | none => true
      | some started => decide (started < now - fiveMinutes))

/-- The `SET` clause of the claim. -/
def SignatureRow.claim (now : Int) (r : SignatureRow) : SignatureRow :=
  { r with isProcessing := true, processingStartedAt := some now }

/-- The `SET` clause of `mark_signatures_processed`. -/
def SignatureRow.mark (r : SignatureRow) : SignatureRow :=
  { r with isProcessed := true, isProcessing := false }

theorem SignatureRow.claim_key (now : Int) (r : SignatureRow) : (r.claim now).key = r.key := rfl

theorem SignatureRow.mark_key (r : SignatureRow) : r.mark.key = r.key := rfl

theorem SignatureRow.claimable_eq_true {address : String} {now : Int} {r : SignatureRow} :
    r.claimable address now = true ↔ r.ownerAddress = address ∧ r.isProcessed = false ∧
      (r.isProcessing = false ∨ ∀ started ∈ r.processingStartedAt, started < now - fiveMinutes) := by
  unfold SignatureRow.claimable
  rw [Bool.and_eq_true, Bool.and_eq_true, Bool.or_eq_true, decide_eq_true_eq, Bool.not_eq_true',
    Bool.not_eq_true', and_assoc]
  cases r.processingStartedAt with
  | none => simp
  | some started => simp

namespace Db

/-- The claimable signatures of the address. -/
def claimableSignatures (db : Db) (address : String) (now : Int) : List String :=
  (db.signatures.rows.filter (·.claimable address now)).map (·.signature)

/-- `chosen` is what the locking select with `LIMIT limit` may return. -/
def IsClaim (db : Db) (address : String) (limit : Nat) (now : Int) (chosen : List String) : Prop :=
  chosen.Nodup ∧ (∀ s ∈ chosen, s ∈ db.claimableSignatures address now) ∧
    chosen.length = min limit (db.claimableSignatures address now).length

instance (db : Db) (address : String) (limit : Nat) (now : Int) (chosen : List String) :
    Decidable (db.IsClaim address limit now chosen) := inferInstanceAs (Decidable (_ ∧ _ ∧ _))

/-- The rows `owner_address = address AND signature = ANY (signatures)`. -/
def ownedIn (address : String) (signatures : List String) (r : SignatureRow) : Bool :=
  r.ownerAddress = address && r.signature ∈ signatures

/-- `get_unprocessed_signatures`: the claimed signatures and the new state. -/
def getUnprocessedSignatures (db : Db) (address : String) (now : Int) (chosen : List String) :
    List String × Db :=
  (chosen,
    { db with
      signatures := db.signatures.update (ownedIn address chosen) (SignatureRow.claim now)
        (SignatureRow.claim_key now) })

/-! ## `mark_signatures_processed` and `write_signatures` -/

/-- `mark_signatures_processed`: the rows affected and the new state. -/
def markSignaturesProcessed (db : Db) (address : String) (signatures : List String) : Nat × Db :=
  if signatures.isEmpty then (0, db)
  else
    let where_ := fun r => ownedIn address signatures r && !r.isProcessed
    (db.signatures.affected where_,
      { db with
        signatures := db.signatures.update where_ SignatureRow.mark SignatureRow.mark_key })

/-- The row `write_signatures` inserts; the other columns take their defaults. -/
def signatureRow (address : String) (s : Signature) : SignatureRow :=
  { ownerAddress := address
    signature := s.signature
    blockTime := s.blockTime
    isProcessed := false
    isProcessing := false
    processingStartedAt := none }

/-- `write_signatures`, executed: the rows inserted and the new state. -/
def writeSignatures (db : Db) (signatures : RpcResponse) (address : String) : Nat × Db :=
  if signatures.result.isEmpty then (0, db)
  else
    let values := signatures.result.map (signatureRow address)
    (db.signatures.inserted values, { db with signatures := db.signatures.insertAll values })

/-! ## What the statements do to the rows -/

variable {db : Db}

theorem ownedIn_eq_true {address : String} {signatures : List String} {r : SignatureRow} :
    ownedIn address signatures r = true ↔ r.ownerAddress = address ∧ r.signature ∈ signatures := by
  unfold ownedIn
  rw [Bool.and_eq_true, decide_eq_true_eq, decide_eq_true_eq]

theorem mem_claimableSignatures {address : String} {now : Int} {s : String} :
    s ∈ db.claimableSignatures address now ↔
      ∃ r ∈ db.signatures, r.claimable address now = true ∧ r.signature = s := by
  unfold claimableSignatures
  simp only [List.mem_map, List.mem_filter, Table.mem_rows, and_assoc]

theorem claimableSignatures_nodup (db : Db) (address : String) (now : Int) :
    (db.claimableSignatures address now).Nodup := by
  unfold claimableSignatures
  refine (List.nodup_map_iff_inj_on (List.Nodup.filter _ db.signatures.rows_nodup)).mpr ?_
  intro r hr r' hr' hs
  obtain ⟨hm, hc⟩ := List.mem_filter.mp hr
  obtain ⟨hm', hc'⟩ := List.mem_filter.mp hr'
  refine Table.eq_of_key hm hm' (Prod.ext ?_ hs)
  exact (SignatureRow.claimable_eq_true.mp hc).1.trans (SignatureRow.claimable_eq_true.mp hc').1.symm

/-- When the claim returns nothing, nothing was claimable. -/
theorem IsClaim.nil {address : String} {limit : Nat} {now : Int} (h : db.IsClaim address limit now [])
    (hl : 0 < limit) : db.claimableSignatures address now = [] := by
  have := h.2.2
  rw [List.length_nil] at this
  exact List.length_eq_zero_iff.mp (by omega)

theorem mem_getUnprocessedSignatures {address : String} {now : Int} {chosen : List String}
    {x : SignatureRow} :
    x ∈ (db.getUnprocessedSignatures address now chosen).2.signatures ↔
      ∃ r ∈ db.signatures, x = if ownedIn address chosen r then r.claim now else r :=
  Table.mem_update (SignatureRow.claim_key now)

theorem mem_markSignaturesProcessed {address : String} {signatures : List String}
    {x : SignatureRow} :
    x ∈ (db.markSignaturesProcessed address signatures).2.signatures ↔
      ∃ r ∈ db.signatures, x = if ownedIn address signatures r && !r.isProcessed then r.mark
        else r := by
  unfold markSignaturesProcessed
  split
  · rename_i he
    have hno : ∀ r, (ownedIn address signatures r && !r.isProcessed) = false := by
      intro r
      simp [ownedIn, List.isEmpty_iff.mp he]
    simp [hno]
  · exact Table.mem_update SignatureRow.mark_key

/-- The early return of `write_signatures` makes no difference. -/
theorem writeSignatures_eq (db : Db) (signatures : RpcResponse) (address : String) :
    db.writeSignatures signatures address =
      (db.signatures.inserted (signatures.result.map (signatureRow address)),
        { db with
          signatures := db.signatures.insertAll (signatures.result.map (signatureRow address)) }) := by
  unfold writeSignatures
  split
  · rename_i he
    rw [List.isEmpty_iff.mp he]
    simp [Table.inserted]
  · rfl

theorem writeSignatures_signatures (db : Db) (signatures : RpcResponse) (address : String) :
    (db.writeSignatures signatures address).2.signatures =
      db.signatures.insertAll (signatures.result.map (signatureRow address)) := by
  rw [writeSignatures_eq]

/-- What becomes of a row when signatures are marked: it stays, or it is one of them and is now
processed. -/
theorem mark_cases {address : String} {signatures : List String} {x : SignatureRow}
    (h : x ∈ (db.markSignaturesProcessed address signatures).2.signatures) :
    x ∈ db.signatures ∨ ∃ r ∈ db.signatures, r.ownerAddress = address ∧ r.signature ∈ signatures ∧
      x = r.mark := by
  obtain ⟨r, hr, rfl⟩ := mem_markSignaturesProcessed.mp h
  split
  · rename_i hw
    rw [Bool.and_eq_true] at hw
    obtain ⟨ha, hs⟩ := ownedIn_eq_true.mp hw.1
    exact Or.inr ⟨r, hr, ha, hs, rfl⟩
  · exact Or.inl hr

/-- A row the insert adds is unprocessed. -/
theorem write_cases {signatures : RpcResponse} {address : String} {x : SignatureRow}
    (h : x ∈ (db.writeSignatures signatures address).2.signatures) :
    x ∈ db.signatures ∨ ∃ s ∈ signatures.result, x = signatureRow address s := by
  rw [writeSignatures_signatures] at h
  rcases Table.of_mem_insertAll h with h | ⟨h, -⟩
  · exact Or.inl h
  · obtain ⟨s, hs, rfl⟩ := List.mem_map.mp h
    exact Or.inr ⟨s, hs, rfl⟩

/-! ## Rows stay -/

theorem le_getUnprocessedSignatures (db : Db) (address : String) (now : Int)
    (chosen : List String) : db.Le (db.getUnprocessedSignatures address now chosen).2 := by
  refine ⟨fun j hj => ⟨j, hj, .refl j⟩, fun r hr => ⟨_, mem_getUnprocessedSignatures.mpr ⟨r, hr, rfl⟩,
    ?_⟩, fun _ h => h, fun _ h => h⟩
  split
  · exact ⟨rfl, rfl, id⟩
  · exact .refl r

@[simp] theorem markSignaturesProcessed_processingData (db : Db) (address : String)
    (signatures : List String) :
    (db.markSignaturesProcessed address signatures).2.processingData = db.processingData := by
  unfold markSignaturesProcessed
  split <;> rfl

@[simp] theorem markSignaturesProcessed_transactions (db : Db) (address : String)
    (signatures : List String) :
    (db.markSignaturesProcessed address signatures).2.transactions = db.transactions := by
  unfold markSignaturesProcessed
  split <;> rfl

@[simp] theorem markSignaturesProcessed_tokenTransfers (db : Db) (address : String)
    (signatures : List String) :
    (db.markSignaturesProcessed address signatures).2.tokenTransfers = db.tokenTransfers := by
  unfold markSignaturesProcessed
  split <;> rfl

theorem le_markSignaturesProcessed (db : Db) (address : String) (signatures : List String) :
    db.Le (db.markSignaturesProcessed address signatures).2 := by
  refine ⟨fun j hj => ⟨j, by simpa using hj, .refl j⟩, fun r hr =>
    ⟨_, mem_markSignaturesProcessed.mpr ⟨r, hr, rfl⟩, ?_⟩, fun _ h => by simpa using h,
    fun _ h => by simpa using h⟩
  split
  · exact ⟨rfl, rfl, fun _ => rfl⟩
  · exact .refl r

@[simp] theorem writeSignatures_processingData (db : Db) (signatures : RpcResponse)
    (address : String) : (db.writeSignatures signatures address).2.processingData =
      db.processingData := by
  rw [writeSignatures_eq]

@[simp] theorem writeSignatures_transactions (db : Db) (signatures : RpcResponse)
    (address : String) : (db.writeSignatures signatures address).2.transactions =
      db.transactions := by
  rw [writeSignatures_eq]

@[simp] theorem writeSignatures_tokenTransfers (db : Db) (signatures : RpcResponse)
    (address : String) : (db.writeSignatures signatures address).2.tokenTransfers =
      db.tokenTransfers := by
  rw [writeSignatures_eq]

theorem le_writeSignatures (db : Db) (signatures : RpcResponse) (address : String) :
    db.Le (db.writeSignatures signatures address).2 := by
  refine ⟨fun j hj => ⟨j, by simpa using hj, .refl j⟩, fun r hr => ⟨r, ?_, .refl r⟩,
    fun _ h => by simpa using h, fun _ h => by simpa using h⟩
  rw [writeSignatures_signatures]
  exact Table.mem_insertAll_of_mem _ hr

end Db

end OnChainEventIndexer
