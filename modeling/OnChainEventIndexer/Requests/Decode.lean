import OnChainEventIndexer.Requests.Types
import Mathlib.Data.List.Basic

/-!
# Decoding a JSON value

Model of the `Deserialize` implementations of `requests/types.rs` as `serde_json::from_value` runs
them: what `derive` makes of each struct with its attributes, the untagged `AccountKey`, and
`deserialize_parsed_instruction_opt`. A decoder returns `none` where the code returns an error; the
texts of the errors are left open.

* A struct is read from an object by the names of its fields, or from an array by their order; an
  array may end early where the rest has defaults, and may not be longer (`Value.fields`).
* A field without `#[serde(default)]` has to be there, but an `Option` may be missing in an object.
  Fields with other names are ignored.
* An integer is read from an integral JSON number in the range of its type, never from a float.
* Keys of an object are distinct in a `serde_json::Value`; of a list that repeats one the first
  counts.

`decode_eq_some` says of each struct on the way to an instruction what a successful decoding has
read. `modifyField` edits a value: `fields_modifyField` says that no other field reads differently.
-/

namespace OnChainEventIndexer

namespace Value

/-! ## Scalars -/

/-- An integral JSON number. -/
def int? : Value → Option Int
  | .number (.posInt n) => some n
  | .number (.negInt n) => some n
  | _ => none

/-- An integer from `lo` to `hi`. -/
def decodeInt (lo hi : Int) (v : Value) : Option Int :=
  v.int?.filter fun n => lo ≤ n ∧ n ≤ hi

/-- `i16` -/
def decodeI16 (v : Value) : Option Int16 := (v.decodeInt (-32768) 32767).map Int16.ofInt

/-- `i32` -/
def decodeI32 (v : Value) : Option Int32 := (v.decodeInt (-2147483648) 2147483647).map Int32.ofInt

/-- `u8` -/
def decodeU8 (v : Value) : Option UInt8 := (v.decodeInt 0 255).map fun n => UInt8.ofNat n.toNat

/-- `u16` -/
def decodeU16 (v : Value) : Option UInt16 := (v.decodeInt 0 65535).map fun n => UInt16.ofNat n.toNat

/-- `u64` -/
def decodeU64 (v : Value) : Option UInt64 :=
  (v.decodeInt 0 18446744073709551615).map fun n => UInt64.ofNat n.toNat

/-- `f64` -/
def decodeF64 : Value → Option Float
  | .number (.posInt n) => some (Float.ofNat n)
  | .number (.negInt n) => some (Float.ofInt n)
  | .number (.float x) => some x
  | _ => none

/-- `bool` -/
def decodeBool : Value → Option Bool
  | .bool b => some b
  | _ => none

/-- `String` -/
def decodeString : Value → Option String
  | .string s => some s
  | _ => none

/-- `Option<T>` -/
def decodeOption {α : Type} (decode : Value → Option α) : Value → Option (Option α)
  | .null => some none
  | v => (decode v).map some

/-- `Vec<T>` -/
def decodeVec {α : Type} (decode : Value → Option α) : Value → Option (List α)
  | .array items => items.mapM decode
  | _ => none

/-! ## Structs -/

/-- The fields of a struct, by name. -/
structure Fields where
  get : String → Option Value
  /-- They were read from an array. -/
  positional : Bool

/-- What a struct with these fields is read from. -/
def fields (names : List String) : Value → Option Fields
  | .object members => some ⟨fun name => members.lookup name, false⟩
  | .array items =>
    if items.length ≤ names.length then some ⟨fun name => items[names.idxOf name]?, true⟩ else none
  | _ => none

namespace Fields

variable {α : Type}

/-- A field without a default. -/
def required (r : Fields) (name : String) (decode : Value → Option α) : Option α :=
  (r.get name).bind decode

/-- A field with `#[serde(default)]`. -/
def orDefault (r : Fields) (name : String) (default : α) (decode : Value → Option α) : Option α :=
  match r.get name with
  | some v => decode v
  | none => some default

/-- An `Option` without `#[serde(default)]`. -/
def optional (r : Fields) (name : String) (decode : Value → Option α) : Option (Option α) :=
  match r.get name with
  | some v => decodeOption decode v
  | none => if r.positional then none else some none

variable {r r' : Fields} {name : String}

theorem required_congr (h : r'.get name = r.get name) (decode : Value → Option α) :
    r'.required name decode = r.required name decode := by
  unfold required
  rw [h]

theorem orDefault_congr {name' : String} (h : r'.get name' = r.get name) (default : α)
    (decode : Value → Option α) :
    r'.orDefault name' default decode = r.orDefault name default decode := by
  unfold orDefault
  rw [h]

end Fields

end Value

open Value

/-! ## The structs of a transaction -/

/-- The members that `UiTokenAmount` names. -/
def UiTokenAmount.fields : List String := ["amount", "decimals", "uiAmount"]

/-- `UiTokenAmount` -/
def UiTokenAmount.decode (v : Value) : Option UiTokenAmount := do
  let r ← v.fields UiTokenAmount.fields
  return {
    amount := ← r.required "amount" decodeString
    decimals := ← r.required "decimals" decodeU8
    uiAmount := ← r.optional "uiAmount" decodeF64 }

/-- The members that `TokenBalance` names. -/
def TokenBalance.fields : List String := ["accountIndex", "mint", "owner", "uiTokenAmount"]

/-- `TokenBalance` -/
def TokenBalance.decode (v : Value) : Option TokenBalance := do
  let r ← v.fields TokenBalance.fields
  return {
    accountIndex := ← r.required "accountIndex" decodeU8
    mint := ← r.required "mint" decodeString
    owner := ← r.required "owner" decodeString
    uiTokenAmount := ← r.required "uiTokenAmount" UiTokenAmount.decode }

/-- The members that `AccountKeyInfo` names. -/
def AccountKeyInfo.fields : List String := ["pubkey", "signer"]

/-- `AccountKeyInfo` -/
def AccountKeyInfo.decode (v : Value) : Option AccountKeyInfo := do
  let r ← v.fields AccountKeyInfo.fields
  return {
    pubkey := ← r.required "pubkey" decodeString
    signer := ← r.optional "signer" decodeBool }

/-- `#[serde(untagged)]`: the first variant that decodes. -/
def AccountKey.decode (v : Value) : Option AccountKey :=
  (v.decodeString.map .pubkey).or ((AccountKeyInfo.decode v).map .info)

/-- The members that `ParsedInfo` names. -/
def ParsedInfo.fields : List String :=
  ["tokenAmount", "amount", "decimals", "uiAmount", "mint", "authority", "lamports", "source",
    "destination", "account"]

/-- `ParsedInfo` -/
def ParsedInfo.decode (v : Value) : Option ParsedInfo := do
  let r ← v.fields ParsedInfo.fields
  return {
    tokenAmount := ← r.orDefault "tokenAmount" none (decodeOption UiTokenAmount.decode)
    amount := ← r.orDefault "amount" none (decodeOption decodeString)
    decimals := ← r.orDefault "decimals" none (decodeOption decodeU8)
    uiAmount := ← r.orDefault "uiAmount" none (decodeOption decodeF64)
    mint := ← r.orDefault "mint" none (decodeOption decodeString)
    authority := ← r.orDefault "authority" none (decodeOption decodeString)
    lamports := ← r.orDefault "lamports" none (decodeOption decodeU64)
    source := ← r.orDefault "source" none (decodeOption decodeString)
    destination := ← r.orDefault "destination" none (decodeOption decodeString)
    account := ← r.orDefault "account" none (decodeOption decodeString) }

/-- The members that `ParsedInstruction` names. -/
def ParsedInstruction.fields : List String := ["info", "type"]

/-- `ParsedInstruction` -/
def ParsedInstruction.decode (v : Value) : Option ParsedInstruction := do
  let r ← v.fields ParsedInstruction.fields
  return {
    info := ← r.required "info" ParsedInfo.decode
    instructionType := ← r.required "type" decodeString }

/-- `deserialize_parsed_instruction_opt`: what does not decode is dropped. -/
def deserializeParsedInstructionOpt : Value → Option ParsedInstruction
  | .object members => ParsedInstruction.decode (.object members)
  | _ => none

/-- The members that `Instruction` names. -/
def Instruction.fields : List String := ["parsed", "program", "programId"]

/-- `Instruction` -/
def Instruction.decode (v : Value) : Option Instruction := do
  let r ← v.fields Instruction.fields
  return {
    parsed := ← r.orDefault "parsed" none fun x => some (deserializeParsedInstructionOpt x)
    program := ← r.orDefault "program" none (decodeOption decodeString)
    programId := ← r.orDefault "programId" none (decodeOption decodeString) }

/-- The members that `InnerInstructions` names. -/
def InnerInstructions.fields : List String := ["index", "instructions"]

/-- `InnerInstructions` -/
def InnerInstructions.decode (v : Value) : Option InnerInstructions := do
  let r ← v.fields InnerInstructions.fields
  return {
    index := ← r.required "index" decodeU16
    instructions := ← r.required "instructions" (decodeVec Instruction.decode) }

/-- The members that `LoadedAddresses` names. -/
def LoadedAddresses.fields : List String := ["writable", "readonly"]

/-- `LoadedAddresses` -/
def LoadedAddresses.decode (v : Value) : Option LoadedAddresses := do
  let r ← v.fields LoadedAddresses.fields
  return {
    writable := ← r.required "writable" (decodeVec decodeString)
    readonly := ← r.required "readonly" (decodeVec decodeString) }

/-- The members that `Meta` names. -/
def Meta.fields : List String :=
  ["computeUnitsConsumed", "fee", "err", "loadedAddresses", "innerInstructions", "preTokenBalances",
    "postTokenBalances"]

/-- `Meta` -/
def Meta.decode (v : Value) : Option Meta := do
  let r ← v.fields Meta.fields
  return {
    computeUnitsConsumed := ← r.required "computeUnitsConsumed" decodeI32
    fee := ← r.required "fee" decodeI32
    err := ← r.orDefault "err" .null some
    loadedAddresses := ← r.orDefault "loadedAddresses" none (decodeOption LoadedAddresses.decode)
    innerInstructions := ← r.orDefault "innerInstructions" [] (decodeVec InnerInstructions.decode)
    preTokenBalances := ← r.required "preTokenBalances" (decodeVec TokenBalance.decode)
    postTokenBalances := ← r.required "postTokenBalances" (decodeVec TokenBalance.decode) }

/-- The members that `MessageHeader` names. -/
def MessageHeader.fields : List String := ["requiredSignatures"]

/-- `MessageHeader` -/
def MessageHeader.decode (v : Value) : Option MessageHeader := do
  let r ← v.fields MessageHeader.fields
  return { requiredSignatures := ← r.required "requiredSignatures" decodeU8 }

/-- The members that `AccountKeys` names. -/
def AccountKeys.fields : List String := ["accountKeys", "instructions", "header"]

/-- `AccountKeys`, the `message` of a transaction -/
def AccountKeys.decode (v : Value) : Option AccountKeys := do
  let r ← v.fields AccountKeys.fields
  return {
    keys := ← r.required "accountKeys" (decodeVec AccountKey.decode)
    instructions := ← r.orDefault "instructions" [] (decodeVec Instruction.decode)
    header := ← r.orDefault "header" none (decodeOption MessageHeader.decode) }

/-- The members that `Transaction` names. -/
def Transaction.fields : List String := ["signatures", "message"]

/-- `Transaction` -/
def Transaction.decode (v : Value) : Option Transaction := do
  let r ← v.fields Transaction.fields
  return {
    signatures := ← r.required "signatures" (decodeVec decodeString)
    message := ← r.required "message" AccountKeys.decode }

/-- The members that `TransactionInfo` names. -/
def TransactionInfo.fields : List String := ["blockTime", "meta", "transaction", "slot"]

/-- `serde_json::from_value::<TransactionInfo>` -/
def TransactionInfo.decode (v : Value) : Option TransactionInfo := do
  let r ← v.fields TransactionInfo.fields
  return {
    blockTime := ← r.required "blockTime" decodeI32
    «meta» := ← r.required "meta" Meta.decode
    transaction := ← r.required "transaction" Transaction.decode
    slot := ← r.required "slot" decodeI32 }

/-! ## What was read

The decoders by their fields: the value is read as `r`, and each field of the result from `r`. -/

theorem Instruction.decode_eq_some {v : Value} {s : Instruction} :
    Instruction.decode v = some s ↔ ∃ r, v.fields Instruction.fields = some r ∧
      (r.get "parsed").bind deserializeParsedInstructionOpt = s.parsed ∧
      r.orDefault "program" none (decodeOption decodeString) = some s.program ∧
      r.orDefault "programId" none (decodeOption decodeString) = some s.programId := by
  have hparsed : ∀ r : Fields, r.orDefault "parsed" none
      (fun x => some (deserializeParsedInstructionOpt x)) =
        some ((r.get "parsed").bind deserializeParsedInstructionOpt) := by
    intro r
    unfold Fields.orDefault
    cases r.get "parsed" <;> rfl
  obtain ⟨parsed, program, programId⟩ := s
  unfold Instruction.decode
  simp only [hparsed, Option.bind_eq_bind, Option.bind_some, Option.bind_eq_some_iff,
    Option.pure_def, Option.some.injEq, Instruction.mk.injEq]
  constructor
  · rintro ⟨r, hr, _, hp, _, hi, rfl, rfl, rfl⟩
    exact ⟨r, hr, rfl, hp, hi⟩
  · rintro ⟨r, hr, rfl, hp, hi⟩
    exact ⟨r, hr, _, hp, _, hi, rfl, rfl, rfl⟩

theorem InnerInstructions.decode_eq_some {v : Value} {s : InnerInstructions} :
    InnerInstructions.decode v = some s ↔ ∃ r, v.fields InnerInstructions.fields = some r ∧
      r.required "index" decodeU16 = some s.index ∧
      r.required "instructions" (decodeVec Instruction.decode) = some s.instructions := by
  obtain ⟨index, instructions⟩ := s
  unfold InnerInstructions.decode
  simp only [Option.bind_eq_bind, Option.bind_eq_some_iff, Option.pure_def, Option.some.injEq,
    InnerInstructions.mk.injEq]
  constructor
  · rintro ⟨r, hr, _, hi, _, hs, rfl, rfl⟩
    exact ⟨r, hr, hi, hs⟩
  · rintro ⟨r, hr, hi, hs⟩
    exact ⟨r, hr, _, hi, _, hs, rfl, rfl⟩

theorem Meta.decode_eq_some {v : Value} {s : Meta} :
    Meta.decode v = some s ↔ ∃ r, v.fields Meta.fields = some r ∧
      r.required "computeUnitsConsumed" decodeI32 = some s.computeUnitsConsumed ∧
      r.required "fee" decodeI32 = some s.fee ∧
      r.orDefault "err" .null some = some s.err ∧
      r.orDefault "loadedAddresses" none (decodeOption LoadedAddresses.decode) =
        some s.loadedAddresses ∧
      r.orDefault "innerInstructions" [] (decodeVec InnerInstructions.decode) =
        some s.innerInstructions ∧
      r.required "preTokenBalances" (decodeVec TokenBalance.decode) = some s.preTokenBalances ∧
      r.required "postTokenBalances" (decodeVec TokenBalance.decode) = some s.postTokenBalances := by
  obtain ⟨units, fee, err, loaded, inner, pre, post⟩ := s
  unfold Meta.decode
  simp only [Option.bind_eq_bind, Option.bind_eq_some_iff, Option.pure_def, Option.some.injEq,
    Meta.mk.injEq]
  constructor
  · rintro ⟨r, hr, _, h1, _, h2, _, h3, _, h4, _, h5, _, h6, _, h7, rfl, rfl, rfl, rfl, rfl, rfl, rfl⟩
    exact ⟨r, hr, h1, h2, h3, h4, h5, h6, h7⟩
  · rintro ⟨r, hr, h1, h2, h3, h4, h5, h6, h7⟩
    exact ⟨r, hr, _, h1, _, h2, _, h3, _, h4, _, h5, _, h6, _, h7, rfl, rfl, rfl, rfl, rfl, rfl, rfl⟩

theorem AccountKeys.decode_eq_some {v : Value} {s : AccountKeys} :
    AccountKeys.decode v = some s ↔ ∃ r, v.fields AccountKeys.fields = some r ∧
      r.required "accountKeys" (decodeVec AccountKey.decode) = some s.keys ∧
      r.orDefault "instructions" [] (decodeVec Instruction.decode) = some s.instructions ∧
      r.orDefault "header" none (decodeOption MessageHeader.decode) = some s.header := by
  obtain ⟨keys, instructions, header⟩ := s
  unfold AccountKeys.decode
  simp only [Option.bind_eq_bind, Option.bind_eq_some_iff, Option.pure_def, Option.some.injEq,
    AccountKeys.mk.injEq]
  constructor
  · rintro ⟨r, hr, _, h1, _, h2, _, h3, rfl, rfl, rfl⟩
    exact ⟨r, hr, h1, h2, h3⟩
  · rintro ⟨r, hr, h1, h2, h3⟩
    exact ⟨r, hr, _, h1, _, h2, _, h3, rfl, rfl, rfl⟩

theorem Transaction.decode_eq_some {v : Value} {s : Transaction} :
    Transaction.decode v = some s ↔ ∃ r, v.fields Transaction.fields = some r ∧
      r.required "signatures" (decodeVec decodeString) = some s.signatures ∧
      r.required "message" AccountKeys.decode = some s.message := by
  obtain ⟨signatures, message⟩ := s
  unfold Transaction.decode
  simp only [Option.bind_eq_bind, Option.bind_eq_some_iff, Option.pure_def, Option.some.injEq,
    Transaction.mk.injEq]
  constructor
  · rintro ⟨r, hr, _, h1, _, h2, rfl, rfl⟩
    exact ⟨r, hr, h1, h2⟩
  · rintro ⟨r, hr, h1, h2⟩
    exact ⟨r, hr, _, h1, _, h2, rfl, rfl⟩

theorem TransactionInfo.decode_eq_some {v : Value} {s : TransactionInfo} :
    TransactionInfo.decode v = some s ↔ ∃ r, v.fields TransactionInfo.fields = some r ∧
      r.required "blockTime" decodeI32 = some s.blockTime ∧
      r.required "meta" Meta.decode = some s.meta ∧
      r.required "transaction" Transaction.decode = some s.transaction ∧
      r.required "slot" decodeI32 = some s.slot := by
  obtain ⟨blockTime, «meta», transaction, slot⟩ := s
  unfold TransactionInfo.decode
  simp only [Option.bind_eq_bind, Option.bind_eq_some_iff, Option.pure_def, Option.some.injEq,
    TransactionInfo.mk.injEq]
  constructor
  · rintro ⟨r, hr, _, h1, _, h2, _, h3, _, h4, rfl, rfl, rfl, rfl⟩
    exact ⟨r, hr, h1, h2, h3, h4⟩
  · rintro ⟨r, hr, h1, h2, h3, h4⟩
    exact ⟨r, hr, _, h1, _, h2, _, h3, _, h4, rfl, rfl, rfl, rfl⟩

/-! ## Editing a value -/

namespace Value

/-- Apply `f` to a field, in an object or at its place in an array. -/
def modifyField (names : List String) (name : String) (f : Value → Value) : Value → Value
  | .object members => .object (members.map fun p => (p.1, if p.1 = name then f p.2 else p.2))
  | .array items => .array (items.modify (names.idxOf name) f)
  | v => v

/-- Apply `f` to an item of an array. -/
def modifyItem (i : Nat) (f : Value → Value) : Value → Value
  | .array items => .array (items.modify i f)
  | v => v

theorem lookup_map_snd (members : List (String × Value)) (name : String) (f : Value → Value)
    (name' : String) :
    (members.map fun p => (p.1, if p.1 = name then f p.2 else p.2)).lookup name' =
      (members.lookup name').map fun x => if name' = name then f x else x := by
  induction members with
  | nil => rfl
  | cons p members ih =>
    obtain ⟨k, x⟩ := p
    simp only [List.map_cons, List.lookup_cons]
    by_cases hk : name' = k
    · subst hk
      simp
    · simp only [beq_eq_false_iff_ne.mpr hk, ih]

/-- **An edited field**: it reads edited, and the others as before. -/
theorem fields_modifyField {names : List String} {name : String} (hname : name ∈ names)
    (f : Value → Value) {v : Value} {r : Fields} (h : v.fields names = some r) :
    ∃ r', (v.modifyField names name f).fields names = some r' ∧ r'.positional = r.positional ∧
      r'.get name = (r.get name).map f ∧ ∀ name', name' ≠ name → r'.get name' = r.get name' := by
  cases v with
  | object members =>
    obtain rfl := Option.some.inj h
    refine ⟨_, rfl, rfl, ?_, fun name' hne => ?_⟩
    · simp [lookup_map_snd]
    · simp [lookup_map_snd, hne]
  | array items =>
    simp only [fields] at h
    split at h
    · rename_i hlen
      obtain rfl := Option.some.inj h
      have hlen' : (items.modify (names.idxOf name) f).length ≤ names.length := by
        rwa [List.length_modify]
      refine ⟨_, if_pos hlen', rfl, ?_, fun name' hne => ?_⟩
      · simp
      · have hidx : names.idxOf name ≠ names.idxOf name' := by
          intro he
          exact hne ((List.idxOf_inj hname).mp he).symm
        simp [hidx]
    · exact absurd h (by simp)
  | _ => exact absurd h (by simp [fields])

end Value

end OnChainEventIndexer
