import OnChainEventIndexer.Indexer.Saved
import OnChainEventIndexer.Requests.Decode

/-!
# The numbers of a transaction

Slot, block time and fee go from a JSON number through a field of `TransactionInfo` to a `bigint`
column. The fields are `i32`: a value outside their range is an error of the decoder, and the
client fails for good.

The response is the point of departure: `withNumbers` puts the three numbers into a value that
decodes, and the decoder the client calls is taken to be the derived one (`DerivesTransactionInfo`).
`numbers_stored_iff`: they are stored as they are if and only if they fit into 32 bits, and a row with
them is there already, or the INSERT is taken and no row of the transaction is there with other ones.
-/

namespace OnChainEventIndexer

open Keyed Value

/-- The values of an `i32`. -/
def InI32 (n : Int) : Prop := -2147483648 ≤ n ∧ n ≤ 2147483647

instance (n : Int) : Decidable (InI32 n) := inferInstanceAs (Decidable (_ ∧ _))

namespace Value

/-- The JSON number of an integer. -/
def int (n : Int) : Value := if 0 ≤ n then .number (.posInt n.toNat) else .number (.negInt n)

/-- Put the three numbers into the `result` of a response. -/
def withNumbers (slot blockTime fee : Int) (v : Value) : Value :=
  modifyField TransactionInfo.fields "slot" (fun _ => int slot) <|
    modifyField TransactionInfo.fields "blockTime" (fun _ => int blockTime) <|
      modifyField TransactionInfo.fields "meta"
        (modifyField Meta.fields "fee" fun _ => int fee) v

theorem int?_int (n : Int) : (int n).int? = some n := by
  unfold int
  split
  · rename_i h
    exact congrArg some (Int.toNat_of_nonneg h)
  · rfl

theorem decodeI32_int (n : Int) :
    (int n).decodeI32 = if InI32 n then some (Int32.ofInt n) else none := by
  unfold decodeI32 decodeInt
  rw [int?_int, Option.filter_some]
  by_cases h : InI32 n
  · have hd : decide (-2147483648 ≤ n ∧ n ≤ 2147483647) = true := decide_eq_true h
    rw [if_pos h, if_pos hd]
    rfl
  · have hd : ¬decide (-2147483648 ≤ n ∧ n ≤ 2147483647) = true := fun hd => h (of_decide_eq_true hd)
    rw [if_neg h, if_neg hd]
    rfl

end Value

theorem toInt_ofInt {n : Int} (h : InI32 n) : (Int32.ofInt n).toInt = n :=
  Int32.toInt_ofInt_of_le h.1 (by have := h.2; omega)

/-! ## Decoding the numbers -/

theorem Meta.decode_fee {v : Value} {s : Meta} (h : Meta.decode v = some s) (fee : Int) :
    Meta.decode (v.modifyField Meta.fields "fee" fun _ => int fee) =
      if InI32 fee then some { s with fee := Int32.ofInt fee } else none := by
  obtain ⟨r, hr, h1, h2, h3, h4, h5, h6, h7⟩ := Meta.decode_eq_some.mp h
  obtain ⟨r', hr', -, hget, hother⟩ :=
    fields_modifyField (show "fee" ∈ Meta.fields by decide) (fun _ => int fee) hr
  obtain ⟨x, hx, -⟩ := Option.bind_eq_some_iff.mp h2
  have hfee : r'.required "fee" decodeI32 = if InI32 fee then some (Int32.ofInt fee) else none := by
    unfold Fields.required
    rw [hget, hx]
    exact decodeI32_int fee
  unfold Meta.decode
  simp only [hr', hfee, Option.bind_eq_bind, Option.bind_some,
    Fields.required_congr (hother "computeUnitsConsumed" (by decide)), h1,
    Fields.orDefault_congr (hother "err" (by decide)), h3,
    Fields.orDefault_congr (hother "loadedAddresses" (by decide)), h4,
    Fields.orDefault_congr (hother "innerInstructions" (by decide)), h5,
    Fields.required_congr (hother "preTokenBalances" (by decide)), h6,
    Fields.required_congr (hother "postTokenBalances" (by decide)), h7]
  split <;> rfl

/-- The decoded transaction with other numbers. -/
def TransactionInfo.setNumbers (slot blockTime fee : Int) (info : TransactionInfo) :
    TransactionInfo :=
  { info with
    slot := Int32.ofInt slot
    blockTime := Int32.ofInt blockTime
    «meta» := { info.meta with fee := Int32.ofInt fee } }

/-- **The decoder takes the numbers** as they are, if they are in the range of an `i32`. -/
theorem decode_withNumbers {v : Value} {info : TransactionInfo}
    (h : TransactionInfo.decode v = some info) (slot blockTime fee : Int) :
    TransactionInfo.decode (v.withNumbers slot blockTime fee) =
      if InI32 slot ∧ InI32 blockTime ∧ InI32 fee then
        some (info.setNumbers slot blockTime fee)
      else none := by
  obtain ⟨r, hr, htime, hmeta, htx, hslot⟩ := TransactionInfo.decode_eq_some.mp h
  obtain ⟨s, hs, -⟩ := Option.bind_eq_some_iff.mp hslot
  obtain ⟨b, hb, -⟩ := Option.bind_eq_some_iff.mp htime
  obtain ⟨m, hm, hmd⟩ := Option.bind_eq_some_iff.mp hmeta
  obtain ⟨r1, hr1, -, hget1, hother1⟩ := fields_modifyField
    (show "meta" ∈ TransactionInfo.fields by decide)
      (modifyField Meta.fields "fee" fun _ => int fee) hr
  obtain ⟨r2, hr2, -, hget2, hother2⟩ := fields_modifyField
    (show "blockTime" ∈ TransactionInfo.fields by decide) (fun _ => int blockTime) hr1
  obtain ⟨r3, hr3, -, hget3, hother3⟩ := fields_modifyField
    (show "slot" ∈ TransactionInfo.fields by decide) (fun _ => int slot) hr2
  have hslot3 : r3.required "slot" decodeI32 =
      if InI32 slot then some (Int32.ofInt slot) else none := by
    unfold Fields.required
    rw [hget3, hother2 _ (by decide), hother1 _ (by decide), hs]
    exact decodeI32_int slot
  have htime3 : r3.required "blockTime" decodeI32 =
      if InI32 blockTime then some (Int32.ofInt blockTime) else none := by
    unfold Fields.required
    rw [hother3 _ (by decide), hget2, hother1 _ (by decide), hb]
    exact decodeI32_int blockTime
  have hmeta3 : r3.required "meta" Meta.decode =
      if InI32 fee then some { info.meta with fee := Int32.ofInt fee } else none := by
    unfold Fields.required
    rw [hother3 _ (by decide), hother2 _ (by decide), hget1, hm]
    exact Meta.decode_fee hmd fee
  have htx3 : r3.required "transaction" Transaction.decode = some info.transaction := by
    rw [Fields.required_congr (hother3 _ (by decide)), Fields.required_congr (hother2 _ (by decide)),
      Fields.required_congr (hother1 _ (by decide)), htx]
  unfold TransactionInfo.decode withNumbers
  simp only [hr3, hslot3, htime3, hmeta3, htx3, Option.bind_eq_bind, Option.bind_some]
  by_cases hs' : InI32 slot <;> by_cases hb' : InI32 blockTime <;> by_cases hf' : InI32 fee <;>
    simp [hs', hb', hf', TransactionInfo.setNumbers]

/-! ## Storing them -/

section Response

variable [External]

/-- The decoder of the client is the one `derive` writes, but for the texts of its errors. -/
def DerivesTransactionInfo : Prop :=
  ∀ v, (External.decodeTransactionInfo v).toOption = TransactionInfo.decode v

/-- The client decodes the response, and after the save of a batch with it there is a row of the
transaction with these numbers. -/
def StoresNumbers (spanEnabled : Bool) (db : Db) (address signature : String)
    (response : RpcHttpResponse) (before after : List TransactionResult) (slot blockTime fee : Int) :
    Prop :=
  ∃ info status, tryFetchTransactionOnce signature (.ok response) = .success info status ∧
    ∃ r ∈ (db.saveTransactionData spanEnabled (before ++ computed info :: after)
        address).2.transactions,
      r.key = (address, TransactionResult.firstSignature info) ∧
        r.slot = slot ∧ r.blockTime = blockTime ∧ r.fee = fee

variable {db : Db} {address signature : String} {response : RpcHttpResponse}
  {before after : List TransactionResult} {v : Value} {info : TransactionInfo}

/-- A response is taken just when its `result` decodes. -/
theorem tryFetch_value (hderive : DerivesTransactionInfo)
    (henvelope : External.decodeEnvelope response.bodyText = .ok ⟨.value v, none⟩) :
    (∃ status, tryFetchTransactionOnce signature (.ok response) = .success info status) ↔
      TransactionInfo.decode v = some info := by
  rw [← hderive v]
  unfold tryFetchTransactionOnce
  simp only [henvelope]
  cases External.decodeTransactionInfo v with
  | error error => simp [Except.toOption]
  | ok info' => simp [Except.toOption]

end Response

/-- The row of a transaction after the INSERT: the first one there was, or the first of the batch. -/
theorem find?_saved (db : Db) (address : String) (before after : List TransactionResult)
    (tx : TransactionResult) :
    (db.transactions.insertAll ((before ++ tx :: after).map (transactionRow address))).find?
        (address, TransactionResult.firstSignature tx.result) =
      ((db.transactions.rows ++ before.map (transactionRow address)).find? fun r =>
        r.key = (address, TransactionResult.firstSignature tx.result)).or
          (some (transactionRow address tx)) := by
  rw [Table.find?_insertAll, List.map_append, List.map_cons, ← List.append_assoc, List.find?_append]
  refine congrArg _ (List.find?_cons_of_pos ?_)
  exact decide_eq_true rfl

section Statement

variable [External] {db : Db} {address signature : String} {response : RpcHttpResponse}
  {before after : List TransactionResult} {v : Value} {info : TransactionInfo}

/-- A row of this key with these numbers is there, after the INSERT of a batch with the transaction,
if and only if the first one there was, or of the batch before it, has them. -/
theorem inserted_numbers_iff {slot blockTime fee : Int}
    (hrange : InI32 slot ∧ InI32 blockTime ∧ InI32 fee) :
    (∃ r ∈ db.transactions.insertAll ((before ++ computed (info.setNumbers slot blockTime fee) ::
          after).map (transactionRow address)),
        r.key = (address, TransactionResult.firstSignature info) ∧
          r.slot = slot ∧ r.blockTime = blockTime ∧ r.fee = fee) ↔
      ∀ r ∈ (db.transactions.rows ++ before.map (transactionRow address)).find? (fun r =>
          r.key = (address, TransactionResult.firstSignature info)),
        r.slot = slot ∧ r.blockTime = blockTime ∧ r.fee = fee := by
  have hfound := find?_saved db address before after (computed (info.setNumbers slot blockTime fee))
  rw [show TransactionResult.firstSignature (computed (info.setNumbers slot blockTime fee)).result =
    TransactionResult.firstSignature info from rfl] at hfound
  constructor
  · rintro ⟨r, hr, hkey, hnumbers⟩ r' hr'
    rw [Table.find?_eq_some.mpr ⟨hr, hkey⟩, Option.mem_def.mp hr', Option.some_or] at hfound
    rwa [← Option.some.inj hfound]
  · intro hfirst
    cases hold : (db.transactions.rows ++ before.map (transactionRow address)).find? fun r =>
        r.key = (address, TransactionResult.firstSignature info) with
    | none =>
      have hmem := Table.find?_eq_some.mp (hfound.trans (congrArg (Option.or · _) hold))
      exact ⟨_, hmem.1, hmem.2, toInt_ofInt hrange.1, toInt_ofInt hrange.2.1, toInt_ofInt hrange.2.2⟩
    | some r =>
      have hmem := Table.find?_eq_some.mp (hfound.trans (congrArg (Option.or · _) hold))
      exact ⟨r, hmem.1, hmem.2, hfirst r hold⟩

/-- **The numbers are stored** if and only if all three are in the range of an `i32`, and a row with
them is there already, or the INSERT of the batch is taken and the row that is there already, or
comes first in the batch, has the same ones. -/
theorem numbers_stored_iff (hderive : DerivesTransactionInfo)
    (htemplate : TransactionInfo.decode v = some info) (slot blockTime fee : Int)
    (henvelope : External.decodeEnvelope response.bodyText =
      .ok ⟨.value (v.withNumbers slot blockTime fee), none⟩) (spanEnabled : Bool) :
    StoresNumbers spanEnabled db address signature response before after slot blockTime fee ↔
      (InI32 slot ∧ InI32 blockTime ∧ InI32 fee) ∧
      ((∃ r ∈ db.transactions, r.key = (address, TransactionResult.firstSignature info) ∧
          r.slot = slot ∧ r.blockTime = blockTime ∧ r.fee = fee) ∨
        Db.takesInfo spanEnabled (before ++ computed (info.setNumbers slot blockTime fee) :: after)
            address = true ∧
          ∀ r ∈ (db.transactions.rows ++ before.map (transactionRow address)).find? (fun r =>
              r.key = (address, TransactionResult.firstSignature info)),
            r.slot = slot ∧ r.blockTime = blockTime ∧ r.fee = fee) := by
  have hfetched : ∀ info', (∃ status,
      tryFetchTransactionOnce signature (.ok response) = .success info' status) ↔
        (InI32 slot ∧ InI32 blockTime ∧ InI32 fee) ∧ info' = info.setNumbers slot blockTime fee := by
    intro info'
    rw [tryFetch_value hderive henvelope, decode_withNumbers htemplate]
    split
    · rename_i hrange
      rw [and_iff_right hrange, Option.some.injEq, eq_comm]
    · rename_i hrange
      simp [hrange]
  have hstores : StoresNumbers spanEnabled db address signature response before after slot blockTime
      fee ↔ (InI32 slot ∧ InI32 blockTime ∧ InI32 fee) ∧
        ∃ r ∈ (db.saveTransactionData spanEnabled
          (before ++ computed (info.setNumbers slot blockTime fee) :: after) address).2.transactions,
          r.key = (address, TransactionResult.firstSignature info) ∧
            r.slot = slot ∧ r.blockTime = blockTime ∧ r.fee = fee := by
    constructor
    · rintro ⟨info', status, hfetch, hrow⟩
      obtain ⟨hrange, rfl⟩ := (hfetched info').mp ⟨status, hfetch⟩
      exact ⟨hrange, hrow⟩
    · rintro ⟨hrange, hrow⟩
      obtain ⟨status, hfetch⟩ := (hfetched _).mpr ⟨hrange, rfl⟩
      exact ⟨_, status, hfetch, hrow⟩
  rw [hstores, Db.saveTransactionData_transactions]
  refine and_congr_right fun hrange => ?_
  cases Db.takesInfo spanEnabled (before ++ computed (info.setNumbers slot blockTime fee) :: after)
      address with
  | false => simp
  | true =>
    -- a row that is there already comes first
    exact ⟨fun h => Or.inr ⟨rfl, (inserted_numbers_iff hrange).mp h⟩, fun h => h.elim
      (fun ⟨r, hr, hrow⟩ => ⟨r, Table.mem_insertAll_of_mem _ hr, hrow⟩)
      fun h => (inserted_numbers_iff hrange).mpr h.2⟩

end Statement

/-! ## A fee of three SOL -/

/-- The `result` of a response with the given numbers. -/
def numbersValue (slot blockTime fee : Int) : Value :=
  .object [("blockTime", int blockTime),
    ("meta", .object [("computeUnitsConsumed", .number (.posInt 150)), ("fee", int fee),
      ("preTokenBalances", .array []), ("postTokenBalances", .array [])]),
    ("transaction", .object [("signatures", .array [.string "s1"]),
      ("message", .object [("accountKeys", .array [])])]),
    ("slot", int slot)]

/-- Its body. -/
def numbersText (slot blockTime fee : Int) : String :=
  "\x7b\"result\":\x7b\"blockTime\":" ++ toString blockTime ++ ",\"meta\":\x7b" ++
  "\"computeUnitsConsumed\":150,\"fee\":" ++ toString fee ++ ",\"preTokenBalances\":[]," ++
  "\"postTokenBalances\":[]\x7d,\"transaction\":\x7b\"signatures\":[\"s1\"],\"message\":\x7b" ++
  "\"accountKeys\":[]\x7d\x7d,\"slot\":" ++ toString slot ++ "\x7d\x7d"

/-- The decoders of a network that answers so, with the derived one for a transaction. -/
@[reducible]
def numbersNetwork (slot blockTime fee : Int) : External :=
  { smallNetwork [] [] with
    decodeEnvelope := fun body =>
      if body = numbersText slot blockTime fee then
        .ok ⟨.value (numbersValue slot blockTime fee), none⟩
      else .error "expected value at line 1 column 1"
    decodeTransactionInfo := fun v =>
      match TransactionInfo.decode v with
      | some info => .ok info
      | none => .error "invalid type" }

theorem numbersNetwork_derives (slot blockTime fee : Int) :
    letI : External := numbersNetwork slot blockTime fee
    DerivesTransactionInfo := by
  intro v
  simp only [External.decodeTransactionInfo]
  cases TransactionInfo.decode v <;> rfl

/-- A fee of 5000 lamports, second in its batch. -/
theorem numbers_stored_iff_small : letI : External := numbersNetwork 7 100 5000
    StoresNumbers true Db.empty "A" "s1" ⟨200, none, numbersText 7 100 5000⟩
      [computed (transactionInfo "s0")] [computed (transactionInfo "s2")] 7 100 5000 := by
  let : External := numbersNetwork 7 100 5000
  obtain ⟨info, hinfo, hfirst, herr⟩ : ∃ info,
      TransactionInfo.decode (numbersValue 0 0 0) = some info ∧
      TransactionResult.firstSignature info = "s1" ∧ info.meta.err = .null := ⟨_, rfl, rfl, rfl⟩
  refine (numbers_stored_iff (numbersNetwork_derives 7 100 5000) hinfo 7 100 5000 (if_pos rfl)
    true).mpr ⟨by decide, Or.inr ⟨?_, ?_⟩⟩
  · refine Db.takesInfo_iff.mpr ⟨fun _ => Or.inl (by decide), by simp, fun row hrow => ?_,
      fun _ => rfl⟩
    simp only [List.singleton_append, List.map_cons, List.map_nil, List.mem_cons, List.not_mem_nil,
      or_false] at hrow
    rcases hrow with rfl | rfl | rfl
    · decide
    · have hA : hasNul "A" = false := by decide
      have hs1 : hasNul (TransactionResult.firstSignature
          (computed (info.setNumbers 7 100 5000)).result) = false := by
        rw [show TransactionResult.firstSignature (computed (info.setNumbers 7 100 5000)).result =
          TransactionResult.firstSignature info from rfl, hfirst]
        decide
      have hnull : (computed (info.setNumbers 7 100 5000)).result.meta.err.hasNul = false := by
        rw [show (computed (info.setNumbers 7 100 5000)).result.meta.err =
          info.meta.err from rfl, herr]
        rfl
      simp [transactionRow, TransactionRow.bound, Parameter.hasNul, hA, hs1, hnull]
    · decide
  · have hkey : (transactionRow "A" (computed (transactionInfo "s0"))).key ≠ ("A", "s1") := by decide
    intro r hr
    rw [hfirst] at hr
    have hr' := List.find?_some hr
    obtain rfl := List.mem_singleton.mp (List.mem_of_find?_eq_some hr)
    exact absurd (of_decide_eq_true hr') hkey

/-- **A fee that is not stored**: three SOL, which a `bigint` column holds; with a smaller fee the
same response decodes. -/
theorem not_storesNumbers_fee : letI : External := numbersNetwork 7 100 3000000000
    (∃ info, TransactionInfo.decode (numbersValue 7 100 5000) = some info) ∧
      ¬StoresNumbers true Db.empty "A" "s1" ⟨200, none, numbersText 7 100 3000000000⟩ [] [] 7 100
        3000000000 := by
  let : External := numbersNetwork 7 100 3000000000
  refine ⟨⟨_, rfl⟩, ?_⟩
  rintro ⟨info, status, hfetch, -⟩
  have hdecode := (tryFetch_value (numbersNetwork_derives 7 100 3000000000)
    (v := numbersValue 7 100 3000000000) (if_pos rfl)).mp ⟨status, hfetch⟩
  have hnone : TransactionInfo.decode (numbersValue 7 100 3000000000) = none := rfl
  exact absurd (hnone.symm.trans hdecode) (by simp)

end OnChainEventIndexer
