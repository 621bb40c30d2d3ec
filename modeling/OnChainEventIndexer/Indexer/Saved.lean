import OnChainEventIndexer.Db.Saves
import OnChainEventIndexer.Requests.Batch

/-!
# What a batch saves

`save_transaction_data` on the batch of one round of `process_unprocessed_signatures`.

The rows go under the first signature in the response's body, the marking under the signature of
the request; nothing compares the two. `stored_iff` says which responses this is harmless for.

The two INSERT statements bind every column of every row, 9 and 19 of them, and a statement takes
65535 parameters at most. A round has 100 transactions at most, but nothing bounds their transfers:
`statementsFit_iff`.
-/

namespace OnChainEventIndexer

open Keyed

variable {api : HeliusApi} {reply : Nat → Replies} {signatures : List String} {b : TransactionBatch}

section Accepting

variable [External]

/-! ## What the client accepts -/

/-- A request of the batch for `s` is answered with `txInfo`, and the client takes it. -/
def Accepted (api : HeliusApi) (reply : Nat → Replies) (signatures : List String) (s : String)
    (txInfo : TransactionInfo) : Prop :=
  ∃ i, (s, i) ∈ signatures.zipIdx ∧ Outcome api reply (s, i) (.success s ⟨txInfo, []⟩)

/-- **The batch in terms of its responses.** -/
theorem batch_accepted (h : getTransaction api reply signatures = some b) :
    (∀ s, s ∈ b.processedSignatures ↔ ∃ txInfo, Accepted api reply signatures s txInfo) ∧
      ∀ tx, tx ∈ b.transactions ↔
        ∃ s txInfo, Accepted api reply signatures s txInfo ∧ tx = computed txInfo := by
  obtain ⟨outcomes, ho, rfl⟩ := getTransaction_eq h
  obtain ⟨hto, hfrom⟩ := fetchAll_mem ho
  have hmem : ∀ s tx, (s, tx) ∈ outcomes.filterMap (·.transaction?) ↔
      ∃ txInfo, Accepted api reply signatures s txInfo ∧ tx = ⟨txInfo, []⟩ := by
    intro s tx
    constructor
    · intro hs
      obtain ⟨o, homem, he⟩ := List.mem_filterMap.mp hs
      obtain ⟨⟨s', i⟩, hi, hfetch⟩ := hfrom o homem
      rcases fetchTransactionBySignature_spec hfetch with ⟨-, txInfo, -, -, rfl⟩ | ⟨e, -, rfl⟩
      · obtain ⟨rfl, rfl⟩ := Prod.mk.inj (Option.some.inj he)
        exact ⟨txInfo, ⟨i, hi, hfetch⟩, rfl⟩
      · exact absurd he (by simp [TransactionFetchOutcome.transaction?])
    · rintro ⟨txInfo, ⟨i, hi, hfetch⟩, rfl⟩
      obtain ⟨o, homem, ho⟩ := hto (s, i) hi
      obtain rfl := Option.some.inj (hfetch.symm.trans ho)
      exact List.mem_filterMap.mpr ⟨_, homem, rfl⟩
  constructor
  · intro s
    constructor
    · intro hs
      obtain ⟨⟨s', tx⟩, hp, rfl⟩ := List.mem_map.mp hs
      obtain ⟨txInfo, hacc, -⟩ := (hmem s' tx).mp hp
      exact ⟨txInfo, hacc⟩
    · rintro ⟨txInfo, hacc⟩
      exact List.mem_map.mpr ⟨(s, ⟨txInfo, []⟩), (hmem _ _).mpr ⟨txInfo, hacc, rfl⟩, rfl⟩
  · intro tx
    constructor
    · intro htx
      obtain ⟨⟨s, tx'⟩, hp, rfl⟩ := List.mem_map.mp htx
      obtain ⟨txInfo, hacc, rfl⟩ := (hmem s tx').mp hp
      exact ⟨s, txInfo, hacc, rfl⟩
    · rintro ⟨s, txInfo, hacc, rfl⟩
      exact List.mem_map.mpr ⟨(s, ⟨txInfo, []⟩), (hmem _ _).mpr ⟨txInfo, hacc, rfl⟩, rfl⟩

/-- A batch has a transaction for each request at most. -/
theorem length_transactions_le (h : getTransaction api reply signatures = some b) :
    b.transactions.length ≤ signatures.length := by
  obtain ⟨ok, failed, hpart⟩ := batchRun_partition (batchRun_iff.mpr h)
  rw [← hpart.transactions.length_eq, ← List.length_zipIdx (l := signatures)]
  exact hpart.okInOrder.length_le

/-! ## Under which signature -/

/-- Every processed signature has a row, and the save adds rows of the request's signatures only. -/
def StoredAsRequested (spanEnabled : Bool) (db : Db) (address : String) (signatures : List String)
    (b : TransactionBatch) : Prop :=
  let saved := (db.saveTransactionData spanEnabled b.transactions address).2
  (∀ s ∈ b.processedSignatures, (address, s) ∈ saved.transactions.keys) ∧
    (∀ r ∈ saved.transactions, r ∉ db.transactions → r.signature ∈ signatures) ∧
    ∀ r ∈ saved.tokenTransfers, r ∉ db.tokenTransfers → r.signature ∈ signatures

/-- The rows a save adds for a response are there already. -/
def RowsThere (spanEnabled : Bool) (db : Db) (address : String) (b : TransactionBatch)
    (txInfo : TransactionInfo) : Prop :=
  (address, TransactionResult.firstSignature txInfo) ∈ db.transactions.keys ∧
    (Db.takesTransfers spanEnabled b.transactions address = true →
      ∀ r ∈ transferRows address (computed txInfo), r ∈ db.tokenTransfers)

theorem mem_transferRows_signature {address : String} {tx : TransactionResult}
    {r : TokenTransferRow} (h : r ∈ transferRows address tx) :
    r.signature = TransactionResult.firstSignature tx.result := by
  obtain ⟨transfer, -, rfl⟩ := List.mem_map.mp h
  rfl

/-- Which signatures have rows after the save. -/
theorem mem_saved_keys (h : getTransaction api reply signatures = some b) {spanEnabled : Bool}
    {db : Db} {address s : String} :
    (address, s) ∈ (db.saveTransactionData spanEnabled b.transactions address).2.transactions.keys ↔
      (address, s) ∈ db.transactions.keys ∨
        (Db.takesInfo spanEnabled b.transactions address = true ∧ ∃ s' txInfo,
          Accepted api reply signatures s' txInfo ∧ TransactionResult.firstSignature txInfo = s) := by
  have htxs := (batch_accepted h).2
  rw [Db.saveTransactionData_transactions, Table.mem_keys_insertAll]
  refine or_congr_right ⟨?_, ?_⟩
  · rintro ⟨r, hr, hk⟩
    obtain ⟨tx, htx, rfl⟩ := List.mem_map.mp hr
    obtain ⟨htakes, htx⟩ := List.mem_ite_nil_right.mp htx
    obtain ⟨s', txInfo, hacc, rfl⟩ := (htxs tx).mp htx
    exact ⟨htakes, s', txInfo, hacc, (Prod.mk.inj hk).2⟩
  · rintro ⟨htakes, s', txInfo, hacc, rfl⟩
    exact ⟨_, List.mem_map_of_mem (List.mem_ite_nil_right.mpr
      ⟨htakes, (htxs _).mpr ⟨s', txInfo, hacc, rfl⟩⟩), rfl⟩

/-- The save adds rows of the request's signatures only, if and only if its first INSERT is refused,
or each response is of a requested signature or adds nothing. -/
theorem adds_requested_iff (h : getTransaction api reply signatures = some b) {spanEnabled : Bool}
    {db : Db} {address : String} :
    ((∀ r ∈ (db.saveTransactionData spanEnabled b.transactions address).2.transactions,
        r ∉ db.transactions → r.signature ∈ signatures) ∧
      ∀ r ∈ (db.saveTransactionData spanEnabled b.transactions address).2.tokenTransfers,
        r ∉ db.tokenTransfers → r.signature ∈ signatures) ↔
      (Db.takesInfo spanEnabled b.transactions address = true →
        ∀ s txInfo, Accepted api reply signatures s txInfo →
          TransactionResult.firstSignature txInfo ∈ signatures ∨
            RowsThere spanEnabled db address b txInfo) := by
  have htxs := (batch_accepted h).2
  rw [Db.saveTransactionData_transactions, Db.saveTransactionData_tokenTransfers]
  constructor
  · rintro ⟨hnew, hnewTransfers⟩ htakes s txInfo hacc
    have hmem : computed txInfo ∈ b.transactions := (htxs _).mpr ⟨s, txInfo, hacc, rfl⟩
    refine or_iff_not_imp_left.mpr fun hnot => ⟨?_, fun htransfers r hr => ?_⟩
    · -- a response of another signature adds a row under a free key
      by_contra hfree
      rw [if_pos htakes] at hnew
      obtain ⟨x, hx, hk⟩ := Table.exists_mem_insertAll (t := db.transactions)
        (List.mem_map_of_mem (f := transactionRow address) hmem)
      have hxk : x.key = (address, TransactionResult.firstSignature txInfo) := hk
      have hxnew : x ∉ db.transactions := fun hold => hfree (hxk ▸ Table.key_mem_keys hold)
      have hsig : x.signature = TransactionResult.firstSignature txInfo := (Prod.mk.inj hxk).2
      exact hnot (hsig ▸ hnew x hx hxnew)
    · by_contra hrnew
      rw [htakes, htransfers, Bool.and_self, if_pos rfl] at hnewTransfers
      obtain ⟨x, hx, hk⟩ := Table.exists_mem_insertAll (t := db.tokenTransfers)
        (List.mem_flatMap.mpr ⟨_, hmem, hr⟩)
      obtain rfl : x = r := hk
      exact hnot (mem_transferRows_signature hr ▸ hnewTransfers x hx hrnew)
  · intro hnew
    refine ⟨fun r hr hrnew => ?_, fun r hr hrnew => ?_⟩
    · obtain ⟨hr, hfree⟩ := (Table.of_mem_insertAll hr).resolve_left hrnew
      obtain ⟨tx, htx, rfl⟩ := List.mem_map.mp hr
      obtain ⟨htakes, htx⟩ := List.mem_ite_nil_right.mp htx
      obtain ⟨s, txInfo, hacc, rfl⟩ := (htxs tx).mp htx
      exact (hnew htakes s txInfo hacc).resolve_right fun hthere => hfree hthere.1
    · obtain ⟨hr, -⟩ := (Table.of_mem_insertAll hr).resolve_left hrnew
      obtain ⟨tx, htx, hr⟩ := List.mem_flatMap.mp hr
      obtain ⟨htakes, htx⟩ := List.mem_ite_nil_right.mp htx
      rw [Bool.and_eq_true] at htakes
      obtain ⟨s, txInfo, hacc, rfl⟩ := (htxs tx).mp htx
      rw [mem_transferRows_signature hr]
      exact (hnew htakes.1 s txInfo hacc).resolve_right fun hthere => hrnew (hthere.2 htakes.2 r hr)

/-- **Rows are stored under the signature that was asked for** if and only if each request the
client accepts a response to has its row already, or gets it from an INSERT that is taken and a
response of the batch of that signature; and, where it is taken, each response is of a requested
signature, or adds nothing. -/
theorem stored_iff (h : getTransaction api reply signatures = some b) {spanEnabled : Bool} {db : Db}
    {address : String} :
    StoredAsRequested spanEnabled db address signatures b ↔
      (∀ s txInfo, Accepted api reply signatures s txInfo →
        (address, s) ∈ db.transactions.keys ∨
          (Db.takesInfo spanEnabled b.transactions address = true ∧ ∃ s' txInfo',
            Accepted api reply signatures s' txInfo' ∧
              TransactionResult.firstSignature txInfo' = s)) ∧
      (Db.takesInfo spanEnabled b.transactions address = true →
        ∀ s txInfo, Accepted api reply signatures s txInfo →
          TransactionResult.firstSignature txInfo ∈ signatures ∨
            RowsThere spanEnabled db address b txInfo) := by
  have hprocessed := (batch_accepted h).1
  unfold StoredAsRequested
  simp only [mem_saved_keys h]
  refine and_congr ⟨fun hall s txInfo hacc => hall s ((hprocessed s).mpr ⟨txInfo, hacc⟩),
    fun hall s hs => ?_⟩ (adds_requested_iff h)
  obtain ⟨txInfo, hacc⟩ := (hprocessed s).mp hs
  exact hall s txInfo hacc

end Accepting

/-! ### Responses in another order -/

/-- The `i`-th request is answered with the transaction of the `i`-th of these signatures. -/
def serveAs (others : List String) : Nat → Replies := fun i => serveTransaction (others.getD i "")

theorem fetch_serveAs (api : HeliusApi) {others : List String}
    (hlen : signatures.length = others.length) {p : String × Nat} (hp : p ∈ signatures.zipIdx) :
    letI : External := smallNetwork [] others
    ∃ o ∈ others[p.2]?, fetchTransactionBySignature api p.1 (serveAs others p.2) =
      some (.success p.1 ⟨transactionInfo o, []⟩) := by
  let : External := smallNetwork [] others
  obtain ⟨hi, -⟩ := List.getElem?_eq_some_iff.mp (List.mem_zipIdx_iff_getElem?.mp hp)
  have hi' : p.2 < others.length := hlen ▸ hi
  refine ⟨others[p.2], List.getElem?_eq_getElem hi', ?_⟩
  unfold serveAs
  rw [List.getD_eq_getElem?_getD, List.getElem?_eq_getElem hi', Option.getD_some]
  exact fetchTransactionBySignature_of_first (tryFetch_serve [] (List.getElem_mem hi') p.1 1)

theorem getTransaction_serveAs (api : HeliusApi) {others : List String}
    (hlen : signatures.length = others.length) :
    letI : External := smallNetwork [] others
    ∃ b, getTransaction api (serveAs others) signatures = some b := by
  let : External := smallNetwork [] others
  refine getTransaction_some fun p hp => ?_
  obtain ⟨o, -, ho⟩ := fetch_serveAs api hlen hp
  exact ⟨_, ho⟩

theorem accepted_serveAs {others : List String} (hlen : signatures.length = others.length)
    {s : String} {txInfo : TransactionInfo} :
    letI : External := smallNetwork [] others
    Accepted api (serveAs others) signatures s txInfo ↔
      ∃ i : Nat, signatures[i]? = some s ∧ ∃ o ∈ others[i]?, txInfo = transactionInfo o := by
  let : External := smallNetwork [] others
  constructor
  · rintro ⟨i, hi, ho⟩
    obtain ⟨o, hother, hfetch⟩ := fetch_serveAs api hlen hi
    have he := Option.some.inj (hfetch.symm.trans ho)
    have htx := (TransactionFetchOutcome.success.inj he).2
    exact ⟨i, List.mem_zipIdx_iff_getElem?.mp hi, o, hother, (TransactionResult.mk.inj htx).1.symm⟩
  · rintro ⟨i, hi, o, ho, rfl⟩
    have hp : (s, i) ∈ signatures.zipIdx := List.mem_zipIdx_iff_getElem?.mpr hi
    obtain ⟨o', ho', hfetch⟩ := fetch_serveAs api hlen hp
    obtain rfl := Option.some.inj (ho.symm.trans ho')
    exact ⟨i, hp, hfetch⟩

/-- Three responses, the first two of them of each other's signatures. -/
theorem stored_iff_own :
    letI : External := smallNetwork [] ["s2", "s1", "s3"]
    ∃ b, getTransaction ⟨0, true⟩ (serveAs ["s2", "s1", "s3"]) ["s1", "s2", "s3"] = some b ∧
      StoredAsRequested true Db.empty "A" ["s1", "s2", "s3"] b := by
  let : External := smallNetwork [] ["s2", "s1", "s3"]
  have hlen : ["s1", "s2", "s3"].length = ["s2", "s1", "s3"].length := rfl
  obtain ⟨b, hb⟩ := getTransaction_serveAs ⟨0, true⟩ hlen
  have hacc : ∀ {s txInfo}, Accepted ⟨0, true⟩ (serveAs ["s2", "s1", "s3"]) ["s1", "s2", "s3"] s
      txInfo ↔ (s = "s1" ∧ txInfo = transactionInfo "s2") ∨
        (s = "s2" ∧ txInfo = transactionInfo "s1") ∨ (s = "s3" ∧ txInfo = transactionInfo "s3") := by
    intro s txInfo
    rw [accepted_serveAs hlen]
    constructor
    · rintro ⟨i, hi, o, ho, rfl⟩
      match i with
      | 0 => exact Or.inl ⟨(Option.some.inj hi).symm, by rw [← Option.some.inj ho]⟩
      | 1 => exact Or.inr (Or.inl ⟨(Option.some.inj hi).symm, by rw [← Option.some.inj ho]⟩)
      | 2 => exact Or.inr (Or.inr ⟨(Option.some.inj hi).symm, by rw [← Option.some.inj ho]⟩)
      | i + 3 => exact absurd hi (by simp)
    · rintro (⟨rfl, rfl⟩ | ⟨rfl, rfl⟩ | ⟨rfl, rfl⟩)
      · exact ⟨0, rfl, "s2", rfl, rfl⟩
      · exact ⟨1, rfl, "s1", rfl, rfl⟩
      · exact ⟨2, rfl, "s3", rfl, rfl⟩
  have htaken : Db.takesInfo true b.transactions "A" = true := by
    refine Db.takesInfo_iff.mpr ⟨fun _ => Or.inl (by decide), ?_, fun row hrow => ?_, fun _ => rfl⟩
    · have hle : b.transactions.length ≤ 3 := length_transactions_le hb
      omega
    · obtain ⟨r, hr, rfl⟩ := List.mem_map.mp hrow
      obtain ⟨tx, htx, rfl⟩ := List.mem_map.mp hr
      obtain ⟨s, txInfo, h, rfl⟩ := ((batch_accepted hb).2 tx).mp htx
      rcases hacc.mp h with ⟨-, rfl⟩ | ⟨-, rfl⟩ | ⟨-, rfl⟩ <;> decide
  refine ⟨b, hb, (stored_iff hb).mpr ⟨fun s txInfo h => Or.inr ⟨htaken, ?_⟩, fun _ s txInfo h =>
    Or.inl ?_⟩⟩
  · rcases hacc.mp h with ⟨rfl, -⟩ | ⟨rfl, -⟩ | ⟨rfl, -⟩
    · exact ⟨"s2", _, hacc.mpr (Or.inr (Or.inl ⟨rfl, rfl⟩)), rfl⟩
    · exact ⟨"s1", _, hacc.mpr (Or.inl ⟨rfl, rfl⟩), rfl⟩
    · exact ⟨"s3", _, hacc.mpr (Or.inr (Or.inr ⟨rfl, rfl⟩)), rfl⟩
  · rcases hacc.mp h with ⟨-, rfl⟩ | ⟨-, rfl⟩ | ⟨-, rfl⟩ <;> decide

/-- **A request for `s1` answered with the transaction of `s2`**: `s1` counts as processed and has
no row. -/
theorem not_stored_other :
    letI : External := smallNetwork [] ["s2"]
    ∃ b, getTransaction ⟨0, true⟩ (serveAs ["s2"]) ["s1"] = some b ∧
      ¬StoredAsRequested true Db.empty "A" ["s1"] b := by
  let : External := smallNetwork [] ["s2"]
  have hlen : ["s1"].length = ["s2"].length := rfl
  obtain ⟨b, hb⟩ := getTransaction_serveAs ⟨0, true⟩ hlen
  refine ⟨b, hb, fun h => ?_⟩
  have hs1 : "s1" ∈ b.processedSignatures :=
    ((batch_accepted hb).1 "s1").mpr ⟨_, (accepted_serveAs hlen).mpr ⟨0, rfl, "s2", rfl, rfl⟩⟩
  rcases (mem_saved_keys hb).mp (h.1 "s1" hs1) with hold | ⟨-, s', txInfo, hacc, hsig⟩
  · exact absurd hold List.not_mem_nil
  · obtain ⟨i, -, o, ho, rfl⟩ := (accepted_serveAs hlen).mp hacc
    obtain rfl := List.mem_singleton.mp (List.mem_of_getElem? ho)
    exact absurd hsig (by decide)

/-! ## How many parameters -/

section Limits

variable [External]

/-- Both statements of a save stay within the limit. -/
def StatementsFit (transactionInfo : List TransactionResult) (address : String) : Prop :=
  (∀ n ∈ insertParameters transactionColumns transactionInfo, n ≤ maxParameters) ∧
    ∀ n ∈ insertParameters tokenTransferColumns (transactionInfo.flatMap (transferRows address)),
      n ≤ maxParameters

/-- The transfers extracted from a batch. -/
def transferCount (transactionInfo : List TransactionResult) : Nat :=
  (transactionInfo.map (·.tokenTransferChanges.length)).sum

theorem length_transferRows (txs : List TransactionResult) (address : String) :
    (txs.flatMap (transferRows address)).length = transferCount txs := by
  unfold transferCount transferRows
  rw [List.length_flatMap]
  simp only [List.length_map]

/-- With 100 transactions at most, the transfers decide. -/
theorem statementsFit_of_length {txs : List TransactionResult} (hlen : txs.length ≤ 100)
    (address : String) : StatementsFit txs address ↔ transferCount txs ≤ 3449 := by
  have hcolumns : transactionColumns.length = 9 ∧ tokenTransferColumns.length = 19 := ⟨rfl, rfl⟩
  unfold StatementsFit maxParameters
  rw [insertParameters_le, insertParameters_le, hcolumns.1, hcolumns.2, length_transferRows]
  constructor
  · rintro ⟨-, htransfers⟩
    omega
  · intro hcount
    exact ⟨by omega, by omega⟩

/-- **A save stays within the limit** if and only if at most 3449 transfers were extracted from the
batch of the claimed signatures. -/
theorem statementsFit_iff {db : Db} {address : String} {now : Int}
    (hclaim : db.IsClaim address 100 now signatures)
    (h : getTransaction api reply signatures = some b) :
    StatementsFit b.transactions address ↔ transferCount b.transactions ≤ 3449 := by
  refine statementsFit_of_length (Nat.le_trans (length_transactions_le h) ?_) address
  rw [hclaim.2.2]
  exact Nat.min_le_left _ _

/-- A batch without errors has a transaction for each request. -/
theorem length_transactions (h : getTransaction api reply signatures = some b)
    (hok : b.errors = []) : b.transactions.length = signatures.length := by
  obtain ⟨ok, failed, hpart⟩ := batchRun_partition (batchRun_iff.mpr h)
  have hfailed : failed = [] := by
    have := hpart.errors
    rw [hok] at this
    cases this
    rfl
  have hperm := hpart.once.length_eq
  rw [hfailed, List.append_nil, List.length_zipIdx] at hperm
  rw [← hpart.transactions.length_eq, hperm]

end Limits

/-- Two claimed signatures with a transfer each. -/
theorem statementsFit_iff_two :
    letI : External := smallNetwork [] ["s1", "s2"]
    let db := (Db.empty.writeSignatures ⟨[⟨some 9000, "s1"⟩, ⟨some 8999, "s2"⟩]⟩ "A").2
    ∃ b, db.IsClaim "A" 100 0 ["s1", "s2"] ∧
      getTransaction ⟨0, true⟩ (serveAs ["s1", "s2"]) ["s1", "s2"] = some b ∧
      b.transactions.length = 2 ∧
      (StatementsFit b.transactions "A" ↔ transferCount b.transactions ≤ 3449) := by
  let : External := smallNetwork [] ["s1", "s2"]
  intro db
  have hclaim : db.IsClaim "A" 100 0 ["s1", "s2"] := by decide
  have hlen : ["s1", "s2"].length = ["s1", "s2"].length := rfl
  obtain ⟨b, hb⟩ := getTransaction_serveAs ⟨0, true⟩ hlen
  refine ⟨b, hclaim, hb, length_transactions hb ((getTransaction_errors hb).mpr fun p hp => ?_),
    statementsFit_iff hclaim hb⟩
  obtain ⟨o, -, ho⟩ := fetch_serveAs ⟨0, true⟩ hlen hp
  exact ⟨_, ho⟩

/-! ### A crowded batch

100 transactions, each with 35 transfers of 1.5 SOL. -/

/-- The body of such a transaction. -/
def crowdedText (signature : String) : String :=
  "\x7b\"result\":\x7b\"blockTime\":100,\"meta\":\x7b\"computeUnitsConsumed\":150,\"fee\":5000," ++
  "\"err\":null,\"preTokenBalances\":[],\"postTokenBalances\":[]\x7d,\"transaction\":\x7b" ++
  "\"signatures\":[\"" ++ signature ++ "\"],\"message\":\x7b\"accountKeys\":[\"A\",\"B\"]," ++
  "\"instructions\":[" ++ String.intercalate "," (List.replicate 35
    ("\x7b\"program\":\"system\",\"parsed\":\x7b\"type\":\"transfer\",\"info\":" ++
    "\x7b\"lamports\":1500000000,\"source\":\"A\",\"destination\":\"B\"\x7d\x7d\x7d")) ++
  "]\x7d\x7d,\"slot\":7\x7d\x7d"

/-- The `result` of `crowdedText`. -/
def crowdedValue (signature : String) : Value :=
  .object [("blockTime", .number (.posInt 100)),
    ("meta", .object [("computeUnitsConsumed", .number (.posInt 150)),
      ("fee", .number (.posInt 5000)), ("err", .null), ("preTokenBalances", .array []),
      ("postTokenBalances", .array [])]),
    ("transaction", .object [("signatures", .array [.string signature]),
      ("message", .object [("accountKeys", .array [.string "A", .string "B"]),
        ("instructions", .array (List.replicate 35 (.object [("program", .string "system"),
          ("parsed", .object [("type", .string "transfer"),
            ("info", .object [("lamports", .number (.posInt 1500000000)),
              ("source", .string "A"), ("destination", .string "B")])])])))])]),
    ("slot", .number (.posInt 7))]

/-- The decoders of a network that serves these transactions. -/
@[reducible]
def crowdedNetwork : External :=
  { smallNetwork [] [] with
    decodeEnvelope := fun body =>
      match crowd.find? fun s => crowdedText s = body with
      | some s => .ok ⟨.value (crowdedValue s), none⟩
      | none => .error "expected value at line 1 column 1"
    decodeTransactionInfo := fun
      | .object [_, _, ("transaction", .object [("signatures", .array [.string s]), _]), _] =>
        .ok (crowdedInfo s)
      | _ => .error "invalid type" }

/-- Each request is answered with its own transaction. -/
def serveCrowd : Nat → Replies := fun i _ =>
  .ok ⟨200, none, crowdedText (String.ofList (List.replicate i 'x'))⟩

theorem crowdedText_injective {s s' : String} (h : crowdedText s = crowdedText s') : s = s' := by
  unfold crowdedText at h
  simpa only [String.append_left_inj, String.append_right_inj] using h

theorem tryFetch_crowd {p : String × Nat} (hp : p ∈ crowd.zipIdx) :
    letI : External := crowdedNetwork
    tryFetchTransactionOnce p.1 (serveCrowd p.2 1) = .success (crowdedInfo p.1) 200 := by
  let : External := crowdedNetwork
  obtain ⟨s, i⟩ := p
  have hs : String.ofList (List.replicate i 'x') = s := by
    have hget := List.mem_zipIdx_iff_getElem?.mp hp
    unfold crowd at hget
    rw [List.getElem?_map] at hget
    obtain ⟨n, hn, hs⟩ := Option.map_eq_some_iff.mp hget
    obtain ⟨_, hn⟩ := List.getElem?_eq_some_iff.mp hn
    rw [List.getElem_range] at hn
    have hi : i = n := hn
    rw [hi]
    exact hs
  have hmem : s ∈ crowd := List.fst_mem_of_mem_zipIdx hp
  have hfind := find?_text hmem fun _ _ => crowdedText_injective
  have hdec : crowdedNetwork.decodeEnvelope (crowdedText s) =
      .ok ⟨.value (crowdedValue s), none⟩ := by
    unfold External.decodeEnvelope crowdedNetwork
    simp only [hfind]
  unfold tryFetchTransactionOnce serveCrowd
  simp only [hs, hdec]
  rfl

/-- The signatures of the crowd, all of them claimable. -/
def crowdDb : Db := (Db.empty.writeSignatures ⟨crowd.map fun s => ⟨some 0, s⟩⟩ "A").2

theorem crowd_claim : crowdDb.IsClaim "A" 100 0 crowd := by
  have hmem : ∀ s ∈ crowd, s ∈ crowdDb.claimableSignatures "A" 0 := by
    intro s hs
    have hrow : Db.signatureRow "A" ⟨some 0, s⟩ ∈
        (crowd.map fun s => (⟨some 0, s⟩ : Signature)).map (Db.signatureRow "A") :=
      List.mem_map_of_mem (List.mem_map_of_mem hs)
    obtain ⟨r, hr, hk⟩ := Table.exists_mem_insertAll (t := Db.empty.signatures) hrow
    have hvalue := (Table.of_mem_insertAll hr).resolve_left (Table.not_mem_empty r)
    obtain ⟨e, -, rfl⟩ := List.mem_map.mp hvalue.1
    refine Db.mem_claimableSignatures.mpr ⟨_, ?_, ?_, (Prod.mk.inj hk).2⟩
    · unfold crowdDb
      rw [Db.writeSignatures_signatures]
      exact hr
    · exact SignatureRow.claimable_eq_true.mpr ⟨rfl, rfl, Or.inl rfl⟩
  have hlen : crowd.length ≤ (crowdDb.claimableSignatures "A" 0).length :=
    (crowd_nodup.subperm hmem).length_le
  refine ⟨crowd_nodup, hmem, ?_⟩
  rw [crowd_length] at hlen ⊢
  omega

theorem transferCount_of_forall {txs : List TransactionResult} {n : Nat}
    (h : ∀ tx ∈ txs, tx.tokenTransferChanges.length = n) : transferCount txs = txs.length * n := by
  unfold transferCount
  rw [List.map_congr_left h, List.map_const', List.sum_replicate_nat]

/-- **A batch too large to save**: the INSERT of its 3500 transfers binds 66500 parameters. -/
theorem not_statementsFit_crowd :
    letI : External := crowdedNetwork
    ∃ b, crowdDb.IsClaim "A" 100 0 crowd ∧ getTransaction ⟨0, true⟩ serveCrowd crowd = some b ∧
      b.transactions.length = 100 ∧ ¬StatementsFit b.transactions "A" := by
  let : External := crowdedNetwork
  have hok : ∀ p ∈ crowd.zipIdx, ∃ tx,
      fetchTransactionBySignature ⟨0, true⟩ p.1 (serveCrowd p.2) = some (.success p.1 tx) :=
    fun p hp => ⟨_, fetchTransactionBySignature_of_first (tryFetch_crowd hp)⟩
  obtain ⟨b, hb⟩ := getTransaction_some hok
  have hlen : b.transactions.length = 100 := by
    rw [length_transactions hb ((getTransaction_errors hb).mpr hok), crowd_length]
  have hcount : transferCount b.transactions = b.transactions.length * 35 := by
    refine transferCount_of_forall fun tx htx => ?_
    obtain ⟨s, txInfo, ⟨i, hi, ho⟩, rfl⟩ := ((batch_accepted hb).2 tx).mp htx
    have he := Option.some.inj
      ((fetchTransactionBySignature_of_first (tryFetch_crowd hi)).symm.trans ho)
    have hinfo := (TransactionResult.mk.inj (TransactionFetchOutcome.success.inj he).2).1
    rw [← hinfo]
    exact length_crowdedTransfers s
  refine ⟨b, crowd_claim, hb, hlen, fun hfit => ?_⟩
  have := (statementsFit_of_length (Nat.le_of_eq hlen) "A").mp hfit
  omega

end OnChainEventIndexer
