import OnChainEventIndexer.Requests.Client
import Mathlib.Data.List.Nodup

/-!
# What transfers are extracted from

`located` lists the instructions of a transaction in the order `calculate_token_transfer` visits
them, each with its place and its position: a top-level instruction has its index, an inner one the
`index` of its group and its own index in the group. The changes are those of the list, in order
(`changes_eq`).

* **`positions_kept`**: if the groups have different indices and the lists are shorter than 2^31, a
  change names the position of its instruction, and no two changes name the same one.
* **`transfers_traceable`**: owners, mints and decimals of an SPL change come from the last token
  balance of its accounts (`balanceOf`), wherever the instruction does not carry them.
-/

namespace OnChainEventIndexer

open TransactionResult

/-- Where an instruction is: top-level, or in a group of inner instructions. -/
inductive Place
  | outer (idx : Nat)
  | inner (group innerIdx : Nat)
deriving DecidableEq

/-- An instruction with its place and its position. -/
structure Located where
  place : Place
  index : Nat
  innerIdx : Option Nat
  instruction : Instruction

/-- The position that a change of the instruction should name. -/
def Located.position (l : Located) : Nat × Option Nat := (l.index, l.innerIdx)

namespace TransactionInfo

/-- The top-level instructions. -/
def locatedOuter (info : TransactionInfo) : List Located :=
  info.transaction.message.instructions.zipIdx.map fun (instruction, idx) =>
    ⟨.outer idx, idx, none, instruction⟩

/-- The inner ones, group by group. -/
def locatedInner (info : TransactionInfo) : List Located :=
  info.meta.innerInstructions.zipIdx.flatMap fun (inner, group) =>
    inner.instructions.zipIdx.map fun (instruction, innerIdx) =>
      ⟨.inner group innerIdx, inner.index.toNat, some innerIdx, instruction⟩

/-- The instructions as they are visited. -/
def located (info : TransactionInfo) : List Located := info.locatedOuter ++ info.locatedInner

end TransactionInfo

/-! ## Positions -/

theorem i32OfUsize_of_lt {n : Nat} (h : n < 2147483648) : i32OfUsize n = n := if_pos (by omega)

theorem i32OfUsize_toNat (n : UInt16) : i32OfUsize n.toNat = n.toNat := by
  have := n.toNat_lt
  exact i32OfUsize_of_lt (by omega)

/-- What is assumed of a transaction: the groups of inner instructions have different indices, and
no list of instructions has more than 2^31 - 1. -/
structure TransactionInfo.Numbered (info : TransactionInfo) : Prop where
  groups : (info.meta.innerInstructions.map (·.index)).Nodup
  outer : info.transaction.message.instructions.length < 2147483648
  inner : ∀ inner ∈ info.meta.innerInstructions, inner.instructions.length < 2147483648

theorem TransactionInfo.Numbered.lt {info : TransactionInfo} (h : info.Numbered) {l : Located}
    (hl : l ∈ info.located) : l.index < 2147483648 ∧ ∀ i ∈ l.innerIdx, i < 2147483648 := by
  rcases List.mem_append.mp hl with hl | hl
  · obtain ⟨⟨instruction, idx⟩, hm, rfl⟩ := List.mem_map.mp hl
    have := (List.mem_zipIdx' hm).1
    exact ⟨Nat.lt_trans this h.outer, fun i hi => absurd hi (by simp)⟩
  · obtain ⟨⟨inner, group⟩, hg, hl⟩ := List.mem_flatMap.mp hl
    obtain ⟨⟨instruction, innerIdx⟩, hm, rfl⟩ := List.mem_map.mp hl
    have hmem : inner ∈ info.meta.innerInstructions := List.fst_mem_of_mem_zipIdx hg
    have hlt := (List.mem_zipIdx' hm).1
    have hindex := inner.index.toNat_lt
    refine ⟨by simp only; omega, fun i hi => ?_⟩
    obtain rfl := Option.some.inj hi
    exact Nat.lt_trans hlt (h.inner inner hmem)

/-- **No two instructions have the same position.** -/
theorem TransactionInfo.Numbered.nodup {info : TransactionInfo} (h : info.Numbered) :
    (info.located.map Located.position).Nodup := by
  have houter : info.locatedOuter.map Located.position =
      (List.range' 0 info.transaction.message.instructions.length).map fun i => (i, none) := by
    unfold TransactionInfo.locatedOuter
    rw [List.map_map, ← List.zipIdx_map_snd 0 info.transaction.message.instructions, List.map_map]
    rfl
  have hinner : info.locatedInner.map Located.position =
      info.meta.innerInstructions.flatMap fun inner =>
        (List.range' 0 inner.instructions.length).map fun i => (inner.index.toNat, some i) := by
    unfold TransactionInfo.locatedInner
    have hfst := List.zipIdx_map_fst 0 info.meta.innerInstructions
    conv_rhs => rw [← hfst, List.flatMap_map]
    rw [List.map_flatMap]
    refine congrArg (fun f => List.flatMap f _) (funext fun p => ?_)
    rw [List.map_map, ← List.zipIdx_map_snd 0 p.1.instructions, List.map_map]
    rfl
  unfold TransactionInfo.located
  rw [List.map_append, houter, hinner]
  refine List.Nodup.append ?_ (List.nodup_flatMap.mpr ⟨fun inner _ => ?_, ?_⟩) ?_
  · exact List.Nodup.map (fun _ _ he => (Prod.mk.inj he).1) List.nodup_range'
  · exact List.Nodup.map (fun _ _ he => Option.some.inj (Prod.mk.inj he).2) List.nodup_range'
  · refine (List.pairwise_map.mp h.groups).imp fun hne => ?_
    refine List.disjoint_left.mpr fun p hp hp' => ?_
    obtain ⟨i, -, rfl⟩ := List.mem_map.mp hp
    obtain ⟨i', -, he⟩ := List.mem_map.mp hp'
    exact hne (UInt16.toNat_inj.mp (Prod.mk.inj he).1.symm)
  · refine List.disjoint_left.mpr fun p hp hp' => ?_
    obtain ⟨i, -, rfl⟩ := List.mem_map.mp hp
    obtain ⟨inner, -, hp'⟩ := List.mem_flatMap.mp hp'
    obtain ⟨i', -, he⟩ := List.mem_map.mp hp'
    exact absurd (Prod.mk.inj he).2 (by simp)

theorem forall₂_filterMap {α β : Type} (f : α → Option β) (l : List α) :
    List.Forall₂ (fun a b => a ∈ l ∧ f a = some b) (l.filter fun a => (f a).isSome)
      (l.filterMap f) := by
  induction l with
  | nil => exact .nil
  | cons a l ih =>
    have ih' := ih.imp fun x b hx => (⟨List.mem_cons_of_mem a hx.1, hx.2⟩ : x ∈ a :: l ∧ f x = some b)
    cases h : f a with
    | none => simpa [h] using ih'
    | some b =>
      rw [List.filter_cons_of_pos (by simp [h]), List.filterMap_cons_some h]
      exact .cons ⟨List.mem_cons_self, h⟩ ih'

/-- The change names the position of the instruction. -/
def Names (l : Located) (c : TokenTransferChange) : Prop :=
  c.instructionIdx = some (l.index : Int) ∧ c.innerIdx = l.innerIdx.map Int.ofNat

/-! ## Balances -/

/-- The last token balance, first those before the transaction and then those after it, that points
to the account. -/
def TransactionResult.balanceOf (tx : TransactionResult) (account : String) : Option TokenBalance :=
  ((tx.result.meta.preTokenBalances ++ tx.result.meta.postTokenBalances).filter fun balance =>
    tx.allAccountKeys[balance.accountIndex.toNat]? = some account).getLast?

/-- What the map keeps of a balance. -/
def TokenBalance.accountMeta (b : TokenBalance) : TokenAccountMeta :=
  ⟨b.owner, b.mint, b.uiTokenAmount.decimals⟩

/-- Of the balances that point to an account the last one is found. -/
theorem lookup_foldl_balances (tx : TransactionResult) (account : String)
    (balances : List TokenBalance) (map : TokenAccountMetaMap) :
    (balances.foldl (fun map balance =>
      match tx.allAccountKeys[balance.accountIndex.toNat]? with
      | some tokenAccount =>
        (tokenAccount, ⟨balance.owner, balance.mint, balance.uiTokenAmount.decimals⟩) :: map
      | none => map) map).lookup account =
    (((balances.filter fun balance =>
      tx.allAccountKeys[balance.accountIndex.toNat]? = some account).getLast?).map
        (·.accountMeta)).or (map.lookup account) := by
  induction balances generalizing map with
  | nil => rfl
  | cons balance balances ih =>
    rw [List.foldl_cons, ih]
    cases hkey : tx.allAccountKeys[balance.accountIndex.toNat]? with
    | none => simp [hkey]
    | some tokenAccount =>
      by_cases heq : tokenAccount = account
      · subst heq
        rw [List.filter_cons_of_pos (by simp [hkey]), List.getLast?_cons]
        cases (balances.filter fun balance =>
          tx.allAccountKeys[balance.accountIndex.toNat]? = some tokenAccount).getLast? with
        | none => simp [TokenBalance.accountMeta]
        | some last => simp
      · rw [List.filter_cons_of_neg (by simp [hkey, heq])]
        simp only [List.lookup_cons, beq_eq_false_iff_ne.mpr (Ne.symm heq)]

/-- **The map holds the last balances.** -/
theorem lookup_tokenAccountMetaMap (tx : TransactionResult) (account : String) :
    tx.tokenAccountMetaMap.lookup account = (tx.balanceOf account).map (·.accountMeta) :=
  (lookup_foldl_balances tx account _ []).trans (Option.or_none ..)

/-- The decimals an instruction carries. -/
def ParsedInfo.carriedDecimals (info : ParsedInfo) : Option UInt8 :=
  match info.tokenAmount with
  | some tokenAmount => some tokenAmount.decimals
  | none => info.decimals

theorem splAmount_carried {info : ParsedInfo} {amountRaw : Int} {amountUi : Option Float}
    {decimals : Option UInt8} {mint : Option String}
    (h : splAmount info = some (amountRaw, amountUi, decimals, mint)) :
    decimals = info.carriedDecimals ∧ mint = info.mint := by
  unfold splAmount at h
  unfold ParsedInfo.carriedDecimals
  cases ht : info.tokenAmount with
  | some tokenAmount =>
    simp only [ht] at h ⊢
    obtain ⟨_, -, he⟩ := Option.map_eq_some_iff.mp h
    simp only [Prod.mk.injEq] at he
    exact ⟨he.2.2.1.symm, he.2.2.2.symm⟩
  | none =>
    simp only [ht] at h ⊢
    cases ha : info.amount with
    | none => exact absurd h (by simp [ha])
    | some amount =>
      simp only [ha] at h
      obtain ⟨_, -, he⟩ := Option.map_eq_some_iff.mp h
      simp only [Prod.mk.injEq] at he
      exact ⟨he.2.2.1.symm, he.2.2.2.symm⟩

/-- The balance of the source account, or else of the destination account. -/
def fallback (tx : TransactionResult) (c : TokenTransferChange) : Option TokenBalance :=
  (c.sourceTokenAccount.bind tx.balanceOf).or (c.destinationTokenAccount.bind tx.balanceOf)

/-- `owner` is that of the last balance of the account. -/
def OwnerOf (tx : TransactionResult) (account owner : Option String) : Prop :=
  ∀ o, owner = some o ↔ ∃ a b, account = some a ∧ tx.balanceOf a = some b ∧ b.owner = o

theorem ownerOf_lookup (tx : TransactionResult) (account : Option String) :
    OwnerOf tx account
      ((account.bind fun a => tx.tokenAccountMetaMap.lookup a).map (·.owner)) := by
  intro o
  cases account with
  | none => simp
  | some a =>
    rw [Option.bind_some, lookup_tokenAccountMetaMap]
    simp [TokenBalance.accountMeta]

/-- Where the columns of an SPL change come from. -/
structure Traceable (tx : TransactionResult) (parsed : ParsedInstruction) (c : TokenTransferChange) :
    Prop where
  sourceOwner : OwnerOf tx c.sourceTokenAccount c.sourceOwner
  destinationOwner : OwnerOf tx c.destinationTokenAccount c.destinationOwner
  mint : parsed.info.mint = none → c.tokenMint = (fallback tx c).map (·.mint)
  decimals : parsed.info.carriedDecimals = none →
    c.decimals = (fallback tx c).map (·.uiTokenAmount.decimals)
  minted : parsed.instructionType ∈ ["mintTo", "mintToChecked"] →
    c.sourceTokenAccount = parsed.info.source ∧
      c.destinationTokenAccount = parsed.info.account.or parsed.info.destination
  burned : parsed.instructionType ∈ ["burn", "burnChecked"] →
    c.sourceTokenAccount = parsed.info.account.or parsed.info.source ∧
      c.destinationTokenAccount = parsed.info.destination
  transferred : parsed.instructionType ∈ ["transfer", "transferChecked"] →
    c.sourceTokenAccount = parsed.info.source ∧ c.destinationTokenAccount = parsed.info.destination

/-! ## What is extracted -/

section Network

variable [External]

/-- The change extracted from an instruction. -/
def changeAt (tokenAccountMeta : TokenAccountMetaMap) (l : Located) : Option TokenTransferChange :=
  collectTokenTransfer l.instruction (i32OfUsize l.index) (l.innerIdx.map i32OfUsize) tokenAccountMeta

/-- **The changes of a transaction** are those of its instructions as they are visited. -/
theorem changes_eq (tx : TransactionResult) : tx.calculateTokenTransfer.tokenTransferChanges =
    tx.result.located.filterMap (changeAt tx.tokenAccountMetaMap) := by
  unfold TransactionInfo.located TransactionInfo.locatedOuter TransactionInfo.locatedInner
  rw [List.filterMap_append, List.filterMap_map, List.filterMap_flatMap]
  unfold calculateTokenTransfer
  simp only
  refine congrArg₂ (· ++ ·) rfl ?_
  have hfst := List.zipIdx_map_fst 0 tx.result.meta.innerInstructions
  conv_lhs => rw [← hfst, List.flatMap_map]
  refine congrArg (fun f => List.flatMap f _) (funext fun p => ?_)
  rw [List.filterMap_map]
  refine congrArg (fun f => List.filterMap f _) (funext fun q => ?_)
  simp only [Function.comp, changeAt, i32OfUsize_toNat, Option.map_some]

/-- A change has the numbers it was extracted with. -/
theorem collectTokenTransfer_idx {instruction : Instruction} {instructionIdx : Int}
    {innerIdx : Option Int} {tokenAccountMeta : TokenAccountMetaMap} {c : TokenTransferChange}
    (h : collectTokenTransfer instruction instructionIdx innerIdx tokenAccountMeta = some c) :
    c.instructionIdx = some instructionIdx ∧ c.innerIdx = innerIdx := by
  unfold collectTokenTransfer at h
  cases hp : instruction.parsed with
  | none => exact absurd h (by simp [hp])
  | some parsed =>
    simp only [hp] at h
    split at h
    · exact absurd h (by simp)
    · split at h
      · obtain ⟨-, -, rfl⟩ := Option.map_eq_some_iff.mp h
        exact ⟨rfl, rfl⟩
      · split at h
        · obtain ⟨-, -, rfl⟩ := Option.map_eq_some_iff.mp h
          exact ⟨rfl, rfl⟩
        · exact absurd h (by simp)

theorem names_of_changeAt {info : TransactionInfo} (h : info.Numbered) {l : Located}
    (hl : l ∈ info.located) {tokenAccountMeta : TokenAccountMetaMap} {c : TokenTransferChange}
    (hc : changeAt tokenAccountMeta l = some c) : Names l c := by
  obtain ⟨hidx, hinner⟩ := h.lt hl
  obtain ⟨hi, hj⟩ := collectTokenTransfer_idx hc
  refine ⟨by rw [hi, i32OfUsize_of_lt hidx], ?_⟩
  rw [hj]
  cases hopt : l.innerIdx with
  | none => rfl
  | some i =>
    rw [Option.map_some, i32OfUsize_of_lt (hinner i hopt)]
    rfl

/-- What the numbering of the changes should be: each change of the list is that of an instruction
and names its position, the instructions are in order, and no position is named twice. -/
structure PositionsKept (tx : TransactionResult) : Prop where
  inOrder : ∃ ls, ls.Sublist tx.result.located ∧
    List.Forall₂ (fun l c => changeAt tx.tokenAccountMetaMap l = some c ∧ Names l c) ls
      tx.calculateTokenTransfer.tokenTransferChanges
  distinct : (tx.calculateTokenTransfer.tokenTransferChanges.map fun c =>
    (c.instructionIdx, c.innerIdx)).Nodup

/-- **Positions are kept** by the extraction. -/
theorem positions_kept {tx : TransactionResult} (h : tx.result.Numbered) : PositionsKept tx := by
  have hforall := forall₂_filterMap (changeAt tx.tokenAccountMetaMap) tx.result.located
  rw [← changes_eq] at hforall
  generalize hls : (tx.result.located.filter fun l => (changeAt tx.tokenAccountMetaMap l).isSome) =
    ls at hforall
  have hsub : ls.Sublist tx.result.located := hls ▸ List.filter_sublist
  have hnames : List.Forall₂ (fun l c => changeAt tx.tokenAccountMetaMap l = some c ∧ Names l c) ls
      tx.calculateTokenTransfer.tokenTransferChanges :=
    hforall.imp fun l c hc => ⟨hc.2, names_of_changeAt h hc.1 hc.2⟩
  refine ⟨⟨ls, hsub, hnames⟩, ?_⟩
  have hpairs : (tx.calculateTokenTransfer.tokenTransferChanges.map fun c =>
      (c.instructionIdx, c.innerIdx)) =
        (ls.map Located.position).map fun p => (some (p.1 : Int), p.2.map Int.ofNat) := by
    generalize tx.calculateTokenTransfer.tokenTransferChanges = changes at hnames
    clear hforall hls hsub
    induction hnames with
    | nil => rfl
    | cons hc _ ih =>
      rw [List.map_cons, List.map_cons, List.map_cons, ih, hc.2.1, hc.2.2]
      rfl
  rw [hpairs]
  refine ((hsub.map _).nodup h.nodup).map fun p p' he => ?_
  obtain ⟨h1, h2⟩ := Prod.mk.inj he
  refine Prod.ext (Int.ofNat.inj (Option.some.inj h1)) ?_
  exact Option.map_injective (fun _ _ hi => Int.ofNat.inj hi) h2

/-- An SPL change was parsed as one. -/
theorem collectTokenTransfer_spl {instruction : Instruction} {instructionIdx : Int}
    {innerIdx : Option Int} {tokenAccountMeta : TokenAccountMetaMap} {c : TokenTransferChange}
    (h : collectTokenTransfer instruction instructionIdx innerIdx tokenAccountMeta = some c)
    (hspl : c.assetType = "spl") :
    ∃ parsed, instruction.parsed = some parsed ∧ parseSplTransfer parsed.info
      (normalizedTransferType parsed.instructionType) instruction.programId tokenAccountMeta
      instructionIdx innerIdx = some c := by
  unfold collectTokenTransfer at h
  cases hp : instruction.parsed with
  | none => exact absurd h (by simp [hp])
  | some parsed =>
    simp only [hp] at h
    split at h
    · exact absurd h (by simp)
    · split at h
      · exact ⟨parsed, rfl, h⟩
      · split at h
        · obtain ⟨lamports, -, hc⟩ := Option.map_eq_some_iff.mp h
          rw [← hc] at hspl
          exact absurd hspl (show ("native" : String) ≠ "spl" by decide)
        · exact absurd h (by simp)

/-- **An SPL change is traceable** to its instruction and the last balances of its accounts. -/
theorem parseSplTransfer_traceable {tx : TransactionResult} {parsed : ParsedInstruction}
    {programId : Option String} {instructionIdx : Int} {innerIdx : Option Int}
    {c : TokenTransferChange}
    (h : parseSplTransfer parsed.info (normalizedTransferType parsed.instructionType) programId
      tx.tokenAccountMetaMap instructionIdx innerIdx = some c) : Traceable tx parsed c := by
  obtain ⟨⟨amountRaw, amountUi, decimals, mint⟩, hamount, rfl⟩ := Option.map_eq_some_iff.mp h
  obtain ⟨rfl, rfl⟩ := splAmount_carried hamount
  have hmeta : ∀ account : Option String, (account.bind fun a => tx.tokenAccountMetaMap.lookup a) =
      (account.bind tx.balanceOf).map (·.accountMeta) := by
    intro account
    cases account with
    | none => rfl
    | some a => exact lookup_tokenAccountMetaMap tx a
  refine ⟨ownerOf_lookup tx _, ownerOf_lookup tx _, fun hm => ?_, fun hd => ?_, fun ht => ?_,
    fun ht => ?_, fun ht => ?_⟩
  · simp only [hm, hmeta, Option.none_or, fallback, Option.map_or, Option.map_map]
    rfl
  · simp only [hd, hmeta, Option.none_or, fallback, Option.map_or, Option.map_map]
    rfl
  all_goals
    simp only [List.mem_cons, List.not_mem_nil, or_false] at ht
    rcases ht with ht | ht <;> rw [ht] <;> exact ⟨rfl, rfl⟩

/-- **Transfers are traceable**: every SPL change of a transaction is that of one of its
instructions and takes owners, and what the instruction does not carry, from the last balances. -/
theorem transfers_traceable {tx : TransactionResult} {c : TokenTransferChange}
    (hc : c ∈ tx.calculateTokenTransfer.tokenTransferChanges) (hspl : c.assetType = "spl") :
    ∃ l ∈ tx.result.located, changeAt tx.tokenAccountMetaMap l = some c ∧
      ∃ parsed, l.instruction.parsed = some parsed ∧ Traceable tx parsed c := by
  rw [changes_eq] at hc
  obtain ⟨l, hl, hchange⟩ := List.mem_filterMap.mp hc
  obtain ⟨parsed, hp, hparse⟩ := collectTokenTransfer_spl hchange hspl
  exact ⟨l, hl, hchange, parsed, hp, parseSplTransfer_traceable hparse⟩

end Network

/-- `"B"` sends five units to an account without a balance; its owner changes in the transaction. -/
def tokenInfo : TransactionInfo :=
  { blockTime := 100
    «meta» :=
      { computeUnitsConsumed := 150
        fee := 5000
        loadedAddresses := some ⟨["B"], ["C"]⟩
        preTokenBalances := [⟨1, "M", "O", ⟨"9", 6, none⟩⟩, ⟨7, "M", "nobody", ⟨"9", 6, none⟩⟩]
        postTokenBalances := [⟨1, "M", "P", ⟨"4", 6, none⟩⟩] }
    transaction :=
      { signatures := ["s1"]
        message :=
          { keys := [.pubkey "A"]
            instructions :=
              [{ program := some "spl-token"
                 parsed := some
                   { instructionType := "transfer"
                     info :=
                       { amount := some "5"
                         source := some "B"
                         destination := some "D"
                         account := some "C" } } }] } }
    slot := 7 }

theorem transfers_traceable_token : letI : External := smallNetwork [] []
    let tx : TransactionResult := ⟨tokenInfo, []⟩
    ∃ c ∈ tx.calculateTokenTransfer.tokenTransferChanges, c.sourceOwner = some "P" ∧
      ∃ l ∈ tx.result.located, changeAt tx.tokenAccountMetaMap l = some c ∧
        ∃ parsed, l.instruction.parsed = some parsed ∧ Traceable tx parsed c := by
  let : External := smallNetwork [] []
  intro tx
  obtain ⟨c, hc, hspl, howner⟩ : ∃ c, tx.calculateTokenTransfer.tokenTransferChanges = [c] ∧
      c.assetType = "spl" ∧ c.sourceOwner = some "P" := ⟨_, rfl, rfl, rfl⟩
  have hmem : c ∈ tx.calculateTokenTransfer.tokenTransferChanges := hc ▸ List.mem_singleton_self c
  exact ⟨c, hmem, howner, transfers_traceable hmem hspl⟩

end OnChainEventIndexer
