import OnChainEventIndexer.Db.Statements

/-!
# Sequences of saves

Calls of `save_transaction_data` for one owner, each complete or cut off after
`write_transaction_info`. Two sequences that cover the same transactions should leave the same rows,
in any order and grouping. A call that is refused stores nothing of its group, and how many
parameters it binds depends on the group: `saves_same_iff` says for which sequences it is harmless,
`not_saves_same_crowd` is one call of 100 transactions against two of 50.
-/

namespace OnChainEventIndexer

open Keyed

namespace Db

/-- A call of `save_transaction_data`: both statements are executed, unless they are refused, or it
is cut off after `write_transaction_info`. -/
inductive SaveCall
  | full (transactionInfo : List TransactionResult)
  | cut (transactionInfo : List TransactionResult)

/-- What the call is given. -/
def SaveCall.transactionInfo : SaveCall → List TransactionResult
  | .full transactionInfo => transactionInfo
  | .cut transactionInfo => transactionInfo

/-- Nothing cuts the call off. -/
def SaveCall.complete : SaveCall → Bool
  | .full _ => true
  | .cut _ => false

/-- The transactions handed to some call. -/
def given (calls : List SaveCall) : List TransactionResult := calls.flatMap (·.transactionInfo)

/-- The transactions handed to a complete call. -/
def covered (calls : List SaveCall) : List TransactionResult :=
  calls.flatMap fun call => if call.complete then call.transactionInfo else []

variable [External] {spanEnabled : Bool} {db : Db} {address : String}

/-- One call. -/
def save (spanEnabled : Bool) (db : Db) (address : String) : SaveCall → Db
  | .full transactionInfo => (db.saveTransactionData spanEnabled transactionInfo address).2
  | .cut transactionInfo =>
    match db.runTransactionInfo spanEnabled transactionInfo address with
    | none => db
    | some (_, db) => db

/-- Calls in sequence. -/
def saves (spanEnabled : Bool) (db : Db) (address : String) (calls : List SaveCall) : Db :=
  calls.foldl (fun db call => db.save spanEnabled address call) db

/-- The transactions of the calls whose INSERT into `transactions` is taken. -/
def stored (spanEnabled : Bool) (address : String) (calls : List SaveCall) :
    List TransactionResult :=
  calls.flatMap fun call =>
    if takesInfo spanEnabled call.transactionInfo address then call.transactionInfo else []

/-- The transactions of the complete calls of which both INSERTs are taken. -/
def transferred (spanEnabled : Bool) (address : String) (calls : List SaveCall) :
    List TransactionResult :=
  calls.flatMap fun call =>
    if call.complete && (takesInfo spanEnabled call.transactionInfo address &&
      takesTransfers spanEnabled call.transactionInfo address) then call.transactionInfo else []

theorem mem_stored {calls : List SaveCall} {tx : TransactionResult} :
    tx ∈ stored spanEnabled address calls ↔ ∃ call ∈ calls,
      takesInfo spanEnabled call.transactionInfo address = true ∧ tx ∈ call.transactionInfo := by
  unfold stored
  simp only [List.mem_flatMap, List.mem_ite_nil_right]

theorem mem_transferred {calls : List SaveCall} {tx : TransactionResult} :
    tx ∈ transferred spanEnabled address calls ↔ ∃ call ∈ calls, call.complete = true ∧
      takesInfo spanEnabled call.transactionInfo address = true ∧
      takesTransfers spanEnabled call.transactionInfo address = true ∧
      tx ∈ call.transactionInfo := by
  unfold transferred
  simp only [List.mem_flatMap, List.mem_ite_nil_right, Bool.and_eq_true, and_assoc]

/-- Where no call is refused, all that is given is stored. -/
theorem mem_stored_of_taken {calls : List SaveCall}
    (h : ∀ call ∈ calls, takesInfo spanEnabled call.transactionInfo address = true)
    {tx : TransactionResult} : tx ∈ stored spanEnabled address calls ↔ tx ∈ given calls := by
  rw [mem_stored, given, List.mem_flatMap]
  exact exists_congr fun call => and_congr_right fun hc => and_iff_right (h call hc)

theorem mem_transferred_of_taken {calls : List SaveCall}
    (h : ∀ call ∈ calls, takesInfo spanEnabled call.transactionInfo address = true ∧
      takesTransfers spanEnabled call.transactionInfo address = true) {tx : TransactionResult} :
    tx ∈ transferred spanEnabled address calls ↔ tx ∈ covered calls := by
  rw [mem_transferred, covered, List.mem_flatMap]
  refine exists_congr fun call => and_congr_right fun hc => ?_
  rw [List.mem_ite_nil_right, and_iff_right (h call hc).1, and_iff_right (h call hc).2]

/-! ## What a sequence leaves -/

/-- A call cut off leaves what its first statement did. -/
theorem save_cut (db : Db) (txs : List TransactionResult) : db.save spanEnabled address (.cut txs) =
    if takesInfo spanEnabled txs address then (db.writeTransactionInfo txs address).2 else db := by
  by_cases h : (DbCall.writeTransactionInfo txs address).refused spanEnabled = true <;>
    simp [save, runTransactionInfo, takesInfo, h]

/-- The transactions rows after a sequence of calls. -/
theorem saves_transactions (db : Db) (calls : List SaveCall) :
    (db.saves spanEnabled address calls).transactions = db.transactions.insertAll
      ((stored spanEnabled address calls).map (transactionRow address)) := by
  induction calls generalizing db with
  | nil => rfl
  | cons call calls ih =>
    have hcall : (db.save spanEnabled address call).transactions = db.transactions.insertAll
        ((if takesInfo spanEnabled call.transactionInfo address then call.transactionInfo
          else []).map (transactionRow address)) := by
      cases call with
      | full txs => exact saveTransactionData_transactions
      | cut txs =>
        rw [save_cut, SaveCall.transactionInfo]
        split
        · exact writeTransactionInfo_transactions db txs address
        · rfl
    unfold stored at ih ⊢
    rw [saves, List.foldl_cons, List.flatMap_cons, List.map_append, Table.insertAll_append, ← hcall]
    exact ih _

/-- The transfer rows after a sequence of calls. -/
theorem saves_tokenTransfers (db : Db) (calls : List SaveCall) :
    (db.saves spanEnabled address calls).tokenTransfers = db.tokenTransfers.insertAll
      ((transferred spanEnabled address calls).flatMap (transferRows address)) := by
  induction calls generalizing db with
  | nil => rfl
  | cons call calls ih =>
    have hcall : (db.save spanEnabled address call).tokenTransfers = db.tokenTransfers.insertAll
        ((if call.complete && (takesInfo spanEnabled call.transactionInfo address &&
          takesTransfers spanEnabled call.transactionInfo address) then call.transactionInfo
          else []).flatMap (transferRows address)) := by
      cases call with
      | full txs => exact saveTransactionData_tokenTransfers
      | cut txs =>
        rw [save_cut]
        split
        · exact writeTransactionInfo_tokenTransfers db txs address
        · rfl
    unfold transferred at ih ⊢
    rw [saves, List.foldl_cons, List.flatMap_cons, List.flatMap_append, Table.insertAll_append,
      ← hcall]
    exact ih _

/-- A row of two transactions is one of a first signature that both have. -/
theorem firstSignature_eq {tx tx' : TransactionResult} {r : TokenTransferRow}
    (h : r ∈ transferRows address tx) (h' : r ∈ transferRows address tx') :
    TransactionResult.firstSignature tx.result = TransactionResult.firstSignature tx'.result := by
  obtain ⟨transfer, -, rfl⟩ := List.mem_map.mp h
  obtain ⟨transfer', -, he⟩ := List.mem_map.mp h'
  exact (congrArg TokenTransferRow.signature he).symm

/-- **Saving is idempotent and independent of order and grouping**, for two sequences of calls that
cover the same transactions, one payload per first signature, and in which whatever a cut call was
given is also given to a complete one, if and only if each transaction has its row already, or gets
one from both sequences or from neither, and so have its transfers. -/
theorem saves_same_iff (spanEnabled : Bool) (db : Db) (address : String)
    {calls calls' : List SaveCall} (hsame : ∀ tx, tx ∈ covered calls ↔ tx ∈ covered calls')
    (hone : ∀ tx ∈ covered calls, ∀ tx' ∈ covered calls,
      TransactionResult.firstSignature tx.result = TransactionResult.firstSignature tx'.result →
        tx = tx')
    (hcut : ∀ tx ∈ given calls, tx ∈ covered calls)
    (hcut' : ∀ tx ∈ given calls', tx ∈ covered calls') :
    (Table.Same (db.saves spanEnabled address calls).transactions
          (db.saves spanEnabled address calls').transactions ∧
        Table.Same (db.saves spanEnabled address calls).tokenTransfers
          (db.saves spanEnabled address calls').tokenTransfers) ↔
      (∀ tx ∈ covered calls,
        (address, TransactionResult.firstSignature tx.result) ∈ db.transactions.keys ∨
          (tx ∈ stored spanEnabled address calls ↔ tx ∈ stored spanEnabled address calls')) ∧
      ∀ tx ∈ covered calls, (∀ r ∈ transferRows address tx, r ∈ db.tokenTransfers) ∨
        (tx ∈ transferred spanEnabled address calls ↔
          tx ∈ transferred spanEnabled address calls') := by
  have hstored : ∀ tx ∈ stored spanEnabled address calls ++ stored spanEnabled address calls',
      tx ∈ covered calls := by
    intro tx h
    rcases List.mem_append.mp h with h | h
    · obtain ⟨call, hc, -, htx⟩ := mem_stored.mp h
      exact hcut tx (List.mem_flatMap.mpr ⟨call, hc, htx⟩)
    · obtain ⟨call, hc, -, htx⟩ := mem_stored.mp h
      exact (hsame tx).mpr (hcut' tx (List.mem_flatMap.mpr ⟨call, hc, htx⟩))
  have htransferred : ∀ {calls : List SaveCall} {tx}, tx ∈ transferred spanEnabled address calls →
      tx ∈ covered calls := by
    intro calls tx h
    obtain ⟨call, hc, hcomplete, -, -, htx⟩ := mem_transferred.mp h
    exact List.mem_flatMap.mpr ⟨call, hc, List.mem_ite_nil_right.mpr ⟨hcomplete, htx⟩⟩
  have hmap : ∀ txs : List TransactionResult, txs.map (transactionRow address) =
      txs.flatMap fun tx => [transactionRow address tx] := fun txs => List.map_eq_flatMap
  rw [saves_transactions, saves_transactions, saves_tokenTransfers, saves_tokenTransfers, hmap, hmap]
  refine and_congr ?_ ?_
  · rw [Table.insertAll_flatMap_same_iff _ (covered calls)
      (fun tx h => hstored tx (List.mem_append_left _ h))
      fun tx h => hstored tx (List.mem_append_right _ h)]
    · simp only [List.mem_singleton, forall_eq]
      exact Iff.rfl
    · intro tx htx tx' htx' r hr r' hr' hk
      obtain rfl := List.mem_singleton.mp hr
      obtain rfl := List.mem_singleton.mp hr'
      obtain rfl := hone tx htx tx' htx' (Prod.mk.inj hk).2
      exact ⟨rfl, rfl⟩
  · rw [Table.insertAll_flatMap_same_iff _ (covered calls) (fun tx h => htransferred h)
      fun tx h => (hsame tx).mpr (htransferred h)]
    · simp [TokenTransferRow.key, Table.mem_keys]
    · intro tx htx tx' htx' r hr r' hr' hk
      obtain rfl : r = r' := hk
      exact ⟨hone tx htx tx' htx' (firstSignature_eq hr hr'), rfl⟩

/-! ## A crowded batch

100 transactions, each with 35 transfers of 1.5 SOL. -/

end Db

/-- 100 signatures. -/
def crowd : List String := (List.range 100).map fun n => String.ofList (List.replicate n 'x')

/-- A transaction of 35 transfers. -/
def crowdedInfo (signature : String) : TransactionInfo :=
  { transactionInfo signature with
    transaction :=
      { signatures := [signature]
        message :=
          { keys := [.pubkey "A", .pubkey "B"]
            instructions := List.replicate 35
              { program := some "system"
                parsed := some
                  { instructionType := "transfer"
                    info :=
                      { lamports := some 1500000000
                        source := some "A"
                        destination := some "B" } } } } } }

theorem crowd_length : crowd.length = 100 := by
  unfold crowd
  rw [List.length_map, List.length_range]

theorem crowd_nodup : crowd.Nodup := by
  refine List.Nodup.map (fun n m h => ?_) List.nodup_range
  have := congrArg List.length (String.ofList_injective h)
  rwa [List.length_replicate, List.length_replicate] at this

theorem hasNul_crowd {s : String} (h : s ∈ crowd) : hasNul s = false := by
  obtain ⟨n, -, rfl⟩ := List.mem_map.mp h
  unfold hasNul
  rw [String.toList_ofList, ← Bool.not_eq_true, List.contains_iff_mem]
  exact fun h => absurd (List.eq_of_mem_replicate h) (by decide)

section Crowd

variable [External]

/-- The transactions of some of these signatures. -/
def crowdOf (signatures : List String) : List TransactionResult :=
  signatures.map fun s => computed (crowdedInfo s)

theorem eq_of_crowdOf {signatures : List String} {tx tx' : TransactionResult}
    (h : tx ∈ crowdOf signatures) (h' : tx' ∈ crowdOf signatures)
    (he : TransactionResult.firstSignature tx.result = TransactionResult.firstSignature tx'.result) :
    tx = tx' := by
  obtain ⟨s, -, rfl⟩ := List.mem_map.mp h
  obtain ⟨s', -, rfl⟩ := List.mem_map.mp h'
  obtain rfl : s = s' := he
  rfl

theorem length_crowdedTransfers (s : String) :
    (computed (crowdedInfo s)).tokenTransferChanges.length = 35 := rfl

/-- What is bound for such a transfer. -/
theorem hasNul_crowdedRow {address s : String} (haddress : hasNul address = false)
    (hs : hasNul s = false) {r : TokenTransferRow}
    (hr : r ∈ transferRows address (computed (crowdedInfo s))) : ∀ p ∈ r.bound, p.hasNul = false := by
  obtain ⟨transfer, ht, rfl⟩ := List.mem_map.mp hr
  obtain ⟨⟨instruction, idx⟩, hi, hc⟩ : ∃ p ∈ (crowdedInfo s).transaction.message.instructions.zipIdx,
      TransactionResult.collectTokenTransfer p.1 (i32OfUsize p.2) none
        (⟨crowdedInfo s, []⟩ : TransactionResult).tokenAccountMetaMap = some transfer := by
    rcases List.mem_append.mp ht with h | h
    · exact List.mem_filterMap.mp h
    · exact absurd h List.not_mem_nil
  obtain rfl := List.eq_of_mem_replicate (List.fst_mem_of_mem_zipIdx hi)
  simp only [TransactionResult.collectTokenTransfer, TransactionResult.isRelevantTransfer,
    TransactionResult.parseNativeTransfer] at hc
  rw [if_neg (by decide), if_neg (by decide), if_pos (Or.inr trivial), Option.map_some] at hc
  obtain rfl := Option.some.inj hc
  have htexts : hasNul "A" = false ∧ hasNul "B" = false ∧ hasNul "native" = false ∧
      hasNul "transfer" = false ∧ hasNul "unknown" = false := by decide
  have hfirst : hasNul (TransactionResult.firstSignature (computed (crowdedInfo s)).result) =
      false := hs
  simp [tokenTransferRow, TokenTransferRow.bound, Parameter.hasNul,
    TransactionResult.normalizedTransferType, haddress, hfirst, htexts]

theorem length_crowdRows (signatures : List String) :
    ((crowdOf signatures).flatMap (transferRows "A")).length = signatures.length * 35 := by
  unfold crowdOf transferRows
  rw [List.flatMap_map, List.length_flatMap]
  simp only [List.length_map, length_crowdedTransfers, List.map_const', List.sum_replicate_nat]

/-- 98 of these transactions, or fewer, are stored. -/
theorem takes_crowdOf {signatures : List String} (h : ∀ s ∈ signatures, s ∈ crowd)
    (hlen : signatures.length ≤ 98) (hsizes : ∀ rows, External.withinSizes rows = true)
    (spanEnabled : Bool) : Db.takesInfo spanEnabled (crowdOf signatures) "A" = true ∧
      Db.takesTransfers spanEnabled (crowdOf signatures) "A" = true := by
  have hmask : spanEnabled = true → Maskable "A" := fun _ => Or.inl (by decide)
  have hA : hasNul "A" = false := by decide
  have hinfo : ∀ row ∈ ((crowdOf signatures).map (transactionRow "A")).map (·.bound),
      ∀ p ∈ row, p.hasNul = false := by
    intro row hrow
    obtain ⟨r, hr, rfl⟩ := List.mem_map.mp hrow
    obtain ⟨tx, htx, rfl⟩ := List.mem_map.mp hr
    obtain ⟨s, hs, rfl⟩ := List.mem_map.mp htx
    have hfirst : hasNul (TransactionResult.firstSignature (computed (crowdedInfo s)).result) =
        false :=
      hasNul_crowd (h s hs)
    have herr : (computed (crowdedInfo s)).result.meta.err.hasNul = false := rfl
    simp [transactionRow, TransactionRow.bound, Parameter.hasNul, hA, hfirst, herr]
  have htransfers : ∀ row ∈ ((crowdOf signatures).flatMap (transferRows "A")).map (·.bound),
      ∀ p ∈ row, p.hasNul = false := by
    intro row hrow
    obtain ⟨r, hr, rfl⟩ := List.mem_map.mp hrow
    obtain ⟨tx, htx, hr⟩ := List.mem_flatMap.mp hr
    obtain ⟨s, hs, rfl⟩ := List.mem_map.mp htx
    exact hasNul_crowdedRow hA (hasNul_crowd (h s hs)) hr
  constructor
  · refine Db.takesInfo_iff.mpr ⟨hmask, ?_, hinfo, fun _ => hsizes _⟩
    unfold crowdOf
    rw [List.length_map]
    omega
  · refine Db.takesTransfers_iff.mpr ⟨hmask, ?_, htransfers, fun _ => hsizes _⟩
    rw [length_crowdRows]
    omega

end Crowd

namespace Db

/-- A call cut off, its second half repeated alone, then everything again and once more within the
batch; against two calls of one transaction each. -/
theorem saves_same_iff_cut : letI : External := smallNetwork [] []
    let db := Db.empty.saves true "A" [.cut (crowdOf ["x", "xx"]), .full (crowdOf ["xx"]),
      .full (crowdOf ["x", "xx", "x"])]
    let db' := Db.empty.saves true "A" [.full (crowdOf ["x"]), .full (crowdOf ["xx"])]
    Table.Same db.transactions db'.transactions ∧
      Table.Same db.tokenTransfers db'.tokenTransfers := by
  let : External := smallNetwork [] []
  have hcrowd : ∀ s ∈ ["x", "xx"], s ∈ crowd := by
    simp only [List.forall_mem_cons, List.not_mem_nil, false_implies, implies_true, and_true]
    exact ⟨List.mem_map.mpr ⟨1, by simp, by decide⟩, List.mem_map.mpr ⟨2, by simp, by decide⟩⟩
  have htaken : ∀ {signatures : List String}, (∀ s ∈ signatures, s ∈ ["x", "xx"]) →
      signatures.length ≤ 3 → takesInfo true (crowdOf signatures) "A" = true ∧
        takesTransfers true (crowdOf signatures) "A" = true := fun hs hlen =>
    takes_crowdOf (fun s h => hcrowd s (hs s h)) (by omega) (fun _ => rfl) true
  have hcalls : ∀ call ∈ [SaveCall.cut (crowdOf ["x", "xx"]), .full (crowdOf ["xx"]),
      .full (crowdOf ["x", "xx", "x"])], takesInfo true call.transactionInfo "A" = true ∧
        takesTransfers true call.transactionInfo "A" = true := by
    simp only [List.forall_mem_cons, List.not_mem_nil, false_implies, implies_true, and_true]
    exact ⟨htaken (by decide) (by decide), htaken (by decide) (by decide),
      htaken (by decide) (by decide)⟩
  have hcalls' : ∀ call ∈ [SaveCall.full (crowdOf ["x"]), .full (crowdOf ["xx"])],
      takesInfo true call.transactionInfo "A" = true ∧
        takesTransfers true call.transactionInfo "A" = true := by
    simp only [List.forall_mem_cons, List.not_mem_nil, false_implies, implies_true, and_true]
    exact ⟨htaken (by decide) (by decide), htaken (by decide) (by decide)⟩
  have hmem : ∀ tx,
      (tx ∈ given [SaveCall.cut (crowdOf ["x", "xx"]), .full (crowdOf ["xx"]),
        .full (crowdOf ["x", "xx", "x"])] ↔ tx ∈ crowdOf ["x", "xx"]) ∧
      (tx ∈ covered [SaveCall.cut (crowdOf ["x", "xx"]), .full (crowdOf ["xx"]),
        .full (crowdOf ["x", "xx", "x"])] ↔ tx ∈ crowdOf ["x", "xx"]) ∧
      (tx ∈ given [SaveCall.full (crowdOf ["x"]), .full (crowdOf ["xx"])] ↔
        tx ∈ crowdOf ["x", "xx"]) ∧
      (tx ∈ covered [SaveCall.full (crowdOf ["x"]), .full (crowdOf ["xx"])] ↔
        tx ∈ crowdOf ["x", "xx"]) := by
    intro tx
    simp [given, covered, crowdOf, SaveCall.complete, SaveCall.transactionInfo]
    tauto
  refine (saves_same_iff true Db.empty "A" (fun tx => ?_) (fun tx htx tx' htx' => ?_)
    (fun tx h => ?_) fun tx h => ?_).mpr ⟨fun tx _ => Or.inr ?_, fun tx _ => Or.inr ?_⟩
  · rw [(hmem tx).2.1, (hmem tx).2.2.2]
  · exact eq_of_crowdOf ((hmem tx).2.1.mp htx) ((hmem tx').2.1.mp htx')
  · exact (hmem tx).2.1.mpr ((hmem tx).1.mp h)
  · exact (hmem tx).2.2.2.mpr ((hmem tx).2.2.1.mp h)
  · rw [mem_stored_of_taken fun call h => (hcalls call h).1,
      mem_stored_of_taken fun call h => (hcalls' call h).1, (hmem tx).1, (hmem tx).2.2.1]
  · rw [mem_transferred_of_taken hcalls, mem_transferred_of_taken hcalls', (hmem tx).2.1,
      (hmem tx).2.2.2]

/-- The INSERT of all the 3500 transfers is refused, that of the first 1750 is not. -/
theorem not_same_crowd [External] (hsizes : ∀ rows, External.withinSizes rows = true)
    (spanEnabled : Bool) :
    ¬Table.Same (Db.empty.saves spanEnabled "A" [.full (crowdOf crowd)]).tokenTransfers
      (Db.empty.saves spanEnabled "A"
        [.full (crowdOf (crowd.take 50)), .full (crowdOf (crowd.drop 50))]).tokenTransfers := by
  intro hsame
  have hrefused : takesTransfers spanEnabled (crowdOf crowd) "A" = false := by
    rw [← Bool.not_eq_true, takesTransfers_iff, length_crowdRows, crowd_length]
    rintro ⟨-, hcount, -⟩
    omega
  have hnone : (Db.empty.saves spanEnabled "A" [.full (crowdOf crowd)]).tokenTransfers =
      Table.empty := by
    rw [saves_tokenTransfers]
    simp [transferred, SaveCall.transactionInfo, hrefused, Db.empty]
  have htaken : takesInfo spanEnabled (crowdOf (crowd.take 50)) "A" = true ∧
      takesTransfers spanEnabled (crowdOf (crowd.take 50)) "A" = true := by
    refine takes_crowdOf (fun s hs => List.mem_of_mem_take hs) ?_ hsizes spanEnabled
    rw [List.length_take]
    omega
  -- some row of the first half is there after the second sequence
  obtain ⟨r, hr⟩ : ∃ r, r ∈ (crowdOf (crowd.take 50)).flatMap (transferRows "A") := by
    refine List.exists_mem_of_length_pos ?_
    rw [length_crowdRows, List.length_take, crowd_length]
    decide
  obtain ⟨tx, htx, hr⟩ := List.mem_flatMap.mp hr
  obtain ⟨x, hx⟩ : ∃ x, x ∈ (Db.empty.saves spanEnabled "A"
      [.full (crowdOf (crowd.take 50)), .full (crowdOf (crowd.drop 50))]).tokenTransfers := by
    have hmem : tx ∈ transferred spanEnabled "A"
        [.full (crowdOf (crowd.take 50)), .full (crowdOf (crowd.drop 50))] :=
      mem_transferred.mpr ⟨_, List.mem_cons_self, rfl, htaken.1, htaken.2, htx⟩
    rw [saves_tokenTransfers]
    exact (Table.exists_mem_insertAll (List.mem_flatMap.mpr ⟨tx, hmem, hr⟩)).imp fun _ => And.left
  have hx' := (hsame x).mpr hx
  rw [hnone] at hx'
  exact Table.not_mem_empty x hx'

/-- **One call of 100 transactions, against two of 50**: the INSERT of 3500 transfers binds 66500
parameters, the others 33250. -/
theorem not_saves_same_crowd : letI : External := smallNetwork [] []
    let calls : List SaveCall := [.full (crowdOf crowd)]
    let calls' : List SaveCall := [.full (crowdOf (crowd.take 50)), .full (crowdOf (crowd.drop 50))]
    (∀ tx, tx ∈ covered calls ↔ tx ∈ covered calls') ∧
      (∀ tx ∈ covered calls, ∀ tx' ∈ covered calls,
        TransactionResult.firstSignature tx.result = TransactionResult.firstSignature tx'.result →
          tx = tx') ∧
      ¬Table.Same (Db.empty.saves true "A" calls).tokenTransfers
        (Db.empty.saves true "A" calls').tokenTransfers := by
  let : External := smallNetwork [] []
  intro calls calls'
  have hcovered : covered calls = crowdOf crowd := List.append_nil _
  have hcovered' : covered calls' = crowdOf crowd := by
    have happ : crowdOf crowd = crowdOf (crowd.take 50) ++ crowdOf (crowd.drop 50) := by
      unfold crowdOf
      rw [← List.map_append, List.take_append_drop]
    rw [happ]
    exact congrArg _ (List.append_nil _)
  rw [hcovered, hcovered']
  exact ⟨fun tx => Iff.rfl, fun tx htx tx' htx' => eq_of_crowdOf htx htx',
    not_same_crowd (fun _ => rfl) true⟩

end Db

end OnChainEventIndexer
