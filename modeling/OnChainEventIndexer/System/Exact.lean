import OnChainEventIndexer.System.Persisted
import OnChainEventIndexer.System.Provenance

/-!
# The tables hold what the chain says

The other half of `System/Persisted.lean`: nothing is stored that does not belong there, whatever
the workers do and wherever they stop. Both halves are what `System/Provenance.lean` says where the
RPC is honest.

* `Db.FromChain`: a transactions row is that of its signature's transaction, for an address the
  signature is listed for; a transfer is one of its transaction, which has a row already.
* **`tables_exact`**: for a processed signature the two tables hold its transaction and its
  transfers, and nothing else.
-/

namespace OnChainEventIndexer

open Keyed Lts

section HonestRpc

variable [External] (txOf : String → TransactionInfo)

/-- Nothing is stored that the chain does not say. -/
structure Db.FromChain (db : Db) : Prop where
  transactions : ∀ x ∈ db.transactions, x = transactionRow x.ownerAddress (derived txOf x.signature) ∧
    (x.ownerAddress, x.signature) ∈ db.signatures.keys
  transfers : ∀ x ∈ db.tokenTransfers, x ∈ transferRows x.trackedOwner (derived txOf x.signature) ∧
    (x.trackedOwner, x.signature) ∈ db.transactions.keys

/-- The rows of a processed signature. -/
structure TablesExact (db : Db) (r : SignatureRow) : Prop where
  transaction : ∀ x, (x ∈ db.transactions ∧ x.key = r.key) ↔
    x = transactionRow r.ownerAddress (derived txOf r.signature)
  transfers : ∀ x, (x ∈ db.tokenTransfers ∧ x.trackedOwner = r.ownerAddress ∧
      x.signature = r.signature) ↔ x ∈ transferRows r.ownerAddress (derived txOf r.signature)

variable {txOf}

theorem firstSignature_derived (hfirst : ∀ s, (txOf s).transaction.signatures.head? = some s)
    (s : String) : TransactionResult.firstSignature (derived txOf s).result = s := by
  unfold derived TransactionResult.firstSignature
  rw [TransactionResult.calculateTokenTransfer_result, hfirst s, Option.getD_some]

/-! ## Honest sources -/

section HonestSources

variable {src : Sources} {db : Db} (hfirst : ∀ s, (txOf s).transaction.signatures.head? = some s)
  (hhonest : ∀ address s txInfo, src.delivered address s txInfo → txInfo = txOf s)
  (h : db.Sourced src)

include hfirst hhonest h

theorem Db.FromChain.of_sourced : db.FromChain txOf := by
  constructor
  · intro x hx
    obtain ⟨txInfo, ⟨s, hd, hk⟩, he⟩ := h.transactions x hx
    obtain rfl := hhonest _ _ _ hd
    have hs : x.signature = s := (congrArg TransactionRow.signature he).trans
      (firstSignature_derived hfirst s)
    exact ⟨hs ▸ he, hs ▸ hk⟩
  · intro x hx
    obtain ⟨⟨txInfo, ⟨s, hd, -⟩, hmem⟩, hk⟩ := h.transfers x hx
    obtain rfl := hhonest _ _ _ hd
    have hs : x.signature = s :=
      (mem_transferRows_signature hmem).trans (firstSignature_derived hfirst s)
    exact ⟨hs ▸ hmem, hk⟩

theorem Db.Persisted.of_sourced : db.Persisted txOf := by
  intro r hr hp
  obtain ⟨txInfo, hd, hsaved⟩ := (h.signatures r hr).fulfilled hp
  obtain rfl := hhonest _ _ _ hd
  have hsig : TransactionResult.firstSignature (txOf r.signature) = r.signature :=
    firstSignature_derived hfirst r.signature
  rwa [hsig] at hsaved

end HonestSources

/-- For a processed signature both halves meet. -/
theorem TablesExact.of_processed (hfirst : ∀ s, (txOf s).transaction.signatures.head? = some s)
    {db : Db} (hpersisted : db.Persisted txOf) (hchain : db.FromChain txOf) {r : SignatureRow}
    (hr : r ∈ db.signatures) (hp : r.isProcessed = true) : TablesExact txOf db r := by
  obtain ⟨hkey, htransfers⟩ := hpersisted r hr hp
  constructor
  · intro x
    constructor
    · rintro ⟨hx, hk⟩
      obtain ⟨ho, hs⟩ := Prod.mk.inj hk
      have he := (hchain.transactions x hx).1
      rwa [ho, hs] at he
    · -- the row that is there is this one
      rintro rfl
      obtain ⟨x, hx, hk⟩ := Table.mem_keys.mp hkey
      obtain ⟨ho, hs⟩ := Prod.mk.inj hk
      have he := (hchain.transactions x hx).1
      rw [ho, hs] at he
      exact he ▸ ⟨hx, hk⟩
  · intro x
    constructor
    · rintro ⟨hx, ho, hs⟩
      have he := (hchain.transfers x hx).1
      rwa [ho, hs] at he
    · intro hx
      refine ⟨htransfers x hx, Db.transferRows_owner hx, ?_⟩
      exact (mem_transferRows_signature hx).trans (firstSignature_derived hfirst r.signature)

namespace Sys

variable {api : HeliusApi} {s : Sys}

/-- What honest answers deliver. -/
theorem honest_sources {tr : List (Sys × Act)} (hh : ∀ x ∈ tr, Honest txOf x.1 x.2)
    {address signature : String} {txInfo : TransactionInfo}
    (h : (sources api tr).delivered address signature txInfo) : txInfo = txOf signature := by
  obtain ⟨x, hx, @⟨t, w, job, signatures, reply, hw, -, i, hi, hfetch⟩⟩ := h
  rcases fetchTransactionBySignature_spec hfetch with ⟨k, txInfo', status, hk, he⟩ | ⟨e, -, he⟩
  · obtain ⟨-, he⟩ := TransactionFetchOutcome.success.inj he
    obtain ⟨rfl, -⟩ := TransactionResult.mk.inj he
    exact hh _ hx job signatures hw (signature, i) hi k txInfo status hk
  · exact absurd he (by simp)

/-- **The run lemma**: both halves, wherever the answers are honest. -/
theorem exact_run (hfirst : ∀ s, (txOf s).transaction.signatures.head? = some s) {now : Int}
    {tr : List (Sys × Act)} (hrun : Run (Guarded (Step api) (Honest txOf)) (Sys.init now) tr s) :
    s.db.Persisted txOf ∧ s.db.FromChain txOf := by
  obtain ⟨hrun, hh⟩ := Run.guarded_iff.mp hrun
  have hsourced := (sourced_run hrun).rows
  have hdelivered : ∀ address s txInfo, (sources api tr).delivered address s txInfo →
    txInfo = txOf s :=
    fun _ _ _ => honest_sources hh
  exact ⟨.of_sourced hfirst hdelivered hsourced, .of_sourced hfirst hdelivered hsourced⟩

/-- **The tables hold what the chain says**, in every state of every run: for a processed signature
exactly its transaction and its transfers; and a transaction is stored for an address only if its
signature is listed for it, a transfer only after its transaction. -/
theorem tables_exact (hfirst : ∀ s, (txOf s).transaction.signatures.head? = some s) {now : Int}
    {tr : List (Sys × Act)} (hrun : Run (Guarded (Step api) (Honest txOf)) (Sys.init now) tr s) :
    s.db.FromChain txOf ∧ ∀ r ∈ s.db.signatures, r.isProcessed = true → TablesExact txOf s.db r := by
  obtain ⟨hpersisted, hchain⟩ := exact_run hfirst hrun
  exact ⟨hchain, fun r hr hp => .of_processed hfirst hpersisted hchain hr hp⟩

end Sys

end HonestRpc

namespace Sys

/-- Requests for `"s1"` that are answered with its transaction. -/
theorem honest_serve {tr : List (Sys × Act)} (hasks : ∀ x ∈ tr, asksForS1 x = true)
    (hreply : ∀ x ∈ tr, ∀ w reply, x.2 = .call w (.transactions reply) →
      reply = fun _ => serveTransaction "s1") :
    letI : External := smallNetwork [[⟨some 9000, "s1"⟩]] ["s1"]
    ∀ x ∈ tr, Honest transactionInfo x.1 x.2 := by
  let : External := smallNetwork [[⟨some 9000, "s1"⟩]] ["s1"]
  rintro ⟨s, a⟩ hx
  have hask := hasks (s, a) hx
  have hserve := hreply (s, a) hx
  unfold Honest
  split
  · rename_i w reply ha
    obtain rfl : a = .call w (.transactions reply) := ha
    intro job signatures hw p hp k txInfo status hk
    have hw' : s.workers w = .running job (.getTransaction signatures) := hw
    have hs1 : signatures = ["s1"] := by simpa only [asksForS1, hw', decide_eq_true_eq] using hask
    obtain rfl := hserve w reply rfl
    subst hs1
    obtain rfl := List.mem_singleton.mp hp
    have hserved := tryFetch_serveTransaction [[⟨some 9000, "s1"⟩]] (List.mem_singleton_self "s1") k
    exact (FetchAttempt.success.inj (hserved.symm.trans hk)).1.symm
  · trivial

/-- The signature that two workers had in hand. -/
theorem tables_exact_reclaimed :
    letI : External := smallNetwork [[⟨some 9000, "s1"⟩]] ["s1"]
    ∃ tr t, Run (Guarded (Step sampleApi) (Honest transactionInfo)) (Sys.init 10100000000) tr t ∧
      tr.map Prod.snd = reclaimed ∧ (∃ r ∈ t.db.signatures, r.isProcessed = true) ∧
      t.db.FromChain transactionInfo ∧
      ∀ r ∈ t.db.signatures, r.isProcessed = true → TablesExact transactionInfo t.db r := by
  let : External := smallNetwork [[⟨some 9000, "s1"⟩]] ["s1"]
  obtain ⟨tr, t, hrun, hlab, htest⟩ := exists_run_of_exec (step sampleApi) (Sys.init 10100000000)
    reclaimed (fun tr t => tr.all asksForS1 && decide (∃ r ∈ t.db.signatures, r.isProcessed = true))
    (by decide +kernel)
  simp only [Bool.and_eq_true, decide_eq_true_eq, List.all_eq_true] at htest
  have hhonest := honest_serve htest.1 fun x hx w reply hxa => by
    have hmem : x.2 ∈ reclaimed := hlab ▸ List.mem_map_of_mem hx
    rw [hxa] at hmem
    simp only [reclaimed, List.mem_cons, List.not_mem_nil, or_false, reduceCtorEq,
      Act.call.injEq, Answer.transactions.injEq, and_false, false_or] at hmem
    tauto
  have hrun := Run.guarded_iff.mpr ⟨hrun, hhonest⟩
  have hexact := tables_exact (fun _ => rfl) hrun
  exact ⟨tr, t, hrun, hlab, htest.2, hexact.1, hexact.2⟩

end Sys

end OnChainEventIndexer
