import OnChainEventIndexer.Indexer.Outcome

/-!
# Recovery

A job run after any number of broken ones: signatures rows of the address may be unclaimed, claimed
long ago, saved but not marked. `recovers_iff`: if every call succeeds and nobody else is at the
address, the run ends, ready, with every row of the address processed, just when the address can
be masked; `mask_addr` panics on the others before the first call.

That the run ends is shown by a measure (`remaining`) that every step lowers: each page takes
entries off the finite history, each batch takes rows out of the unprocessed ones.
-/

namespace OnChainEventIndexer

open Keyed Lts Paging

/-! ## The rows a run has to deal with -/

/-- The unprocessed rows of the address. -/
def SignatureRow.unprocessed (address : String) (r : SignatureRow) : Bool :=
  r.ownerAddress = address && !r.isProcessed

theorem SignatureRow.unprocessed_eq_true {address : String} {r : SignatureRow} :
    r.unprocessed address = true ↔ r.ownerAddress = address ∧ r.isProcessed = false := by
  unfold SignatureRow.unprocessed
  rw [Bool.and_eq_true, decide_eq_true_eq, Bool.not_eq_true']

namespace Db

/-- The unprocessed rows of the address. -/
def unprocessedCount (db : Db) (address : String) : Nat :=
  db.signatures.rows.countP (·.unprocessed address)

/-- Only the signatures in `sigs` may be claimed since five minutes before `start`. -/
def InFlightOnly (db : Db) (address : String) (start : Int) (sigs : List String) : Prop :=
  ∀ r ∈ db.signatures, r.ownerAddress = address → r.isProcessed = false →
    r.signature ∈ sigs ∨ ∀ started ∈ r.processingStartedAt, started < start - fiveMinutes

/-- There are none. -/
def AllProcessed (db : Db) (address : String) : Prop :=
  ∀ r ∈ db.signatures, r.ownerAddress = address → r.isProcessed = true

variable {db db' : Db} {address : String} {start now : Int} {sigs : List String}

theorem unprocessedCount_same (h : Db.SameRows address db db') :
    db'.unprocessedCount address = db.unprocessedCount address :=
  Table.countP_congr fun r hr => (h.sigs r (SignatureRow.unprocessed_eq_true.mp hr).1).symm

theorem InFlightOnly.of_same (h : db.InFlightOnly address start sigs)
    (hs : Db.SameRows address db db') : db'.InFlightOnly address start sigs :=
  fun r hr ha => h r ((hs.sigs r ha).mpr hr) ha

theorem AllProcessed.of_same (h : db.AllProcessed address) (hs : Db.SameRows address db db') :
    db'.AllProcessed address := fun r hr ha => h r ((hs.sigs r ha).mpr hr) ha

/-! ## What the statements do to them -/

theorem unprocessedCount_write (db : Db) (address : String) (signatures : RpcResponse) :
    (db.writeSignatures signatures address).2.unprocessedCount address ≤
      db.unprocessedCount address + signatures.result.length := by
  unfold unprocessedCount
  rw [writeSignatures_signatures]
  have := Table.countP_insertAll_le db.signatures (signatures.result.map (signatureRow address))
    (·.unprocessed address)
  rwa [List.length_map] at this

theorem InFlightOnly.write (h : db.InFlightOnly address start sigs) (signatures : RpcResponse) :
    (db.writeSignatures signatures address).2.InFlightOnly address start sigs := by
  intro r hr ha hp
  rcases write_cases hr with hr | ⟨s, -, rfl⟩
  · exact h r hr ha hp
  · exact Or.inr fun started hst => absurd hst (by simp [signatureRow])

theorem unprocessedCount_claim (db : Db) (address : String) (now : Int) (chosen : List String) :
    (db.getUnprocessedSignatures address now chosen).2.unprocessedCount address ≤
      db.unprocessedCount address := by
  refine Table.countP_update_le (SignatureRow.claim_key now) fun r hr => ?_
  split at hr
  · exact hr
  · exact hr

theorem InFlightOnly.claim (h : db.InFlightOnly address start []) (chosen : List String) :
    (db.getUnprocessedSignatures address now chosen).2.InFlightOnly address start chosen := by
  intro r hr ha hp
  obtain ⟨x, hx, rfl⟩ := mem_getUnprocessedSignatures.mp hr
  by_cases hc : ownedIn address chosen x = true
  · rw [if_pos hc]
    exact Or.inl (ownedIn_eq_true.mp hc).2
  · rw [if_neg hc] at ha hp ⊢
    exact Or.inr ((h x hx ha hp).resolve_left List.not_mem_nil)

/-- With nothing in flight, an unprocessed row can be claimed. -/
theorem InFlightOnly.claimable (h : db.InFlightOnly address start []) (hnow : start ≤ now)
    {r : SignatureRow} (hr : r ∈ db.signatures) (ha : r.ownerAddress = address)
    (hp : r.isProcessed = false) : r.claimable address now = true := by
  refine SignatureRow.claimable_eq_true.mpr ⟨ha, hp, Or.inr fun started hst => ?_⟩
  have := (h r hr ha hp).resolve_left List.not_mem_nil started hst
  omega

/-- A claimed row is unprocessed. -/
theorem unprocessed_claim {chosen : List String} (h : db.IsClaim address 100 now chosen) {s : String}
    (hs : s ∈ chosen) :
    (db.getUnprocessedSignatures address now chosen).2.Unprocessed address s := by
  obtain ⟨r, hr, hc, rfl⟩ := mem_claimableSignatures.mp (h.2.1 s hs)
  obtain ⟨ha, hp, -⟩ := SignatureRow.claimable_eq_true.mp hc
  refine ⟨r.claim now, mem_getUnprocessedSignatures.mpr ⟨r, hr, ?_⟩, ?_, hp⟩
  · rw [if_pos (ownedIn_eq_true.mpr ⟨ha, hs⟩)]
  · rw [SignatureRow.claim_key]
    exact Prod.ext ha rfl

/-- There is always a choice. -/
theorem exists_isClaim (db : Db) (address : String) (limit : Nat) (now : Int) :
    ∃ chosen, db.IsClaim address limit now chosen :=
  ⟨(db.claimableSignatures address now).take limit,
    (List.take_sublist _ _).nodup (claimableSignatures_nodup db address now),
    fun _ hs => List.mem_of_mem_take hs, List.length_take⟩

theorem InFlightOnly.mark (h : db.InFlightOnly address start sigs) :
    (db.markSignaturesProcessed address sigs).2.InFlightOnly address start [] := by
  intro r hr ha hp
  obtain ⟨x, hx, rfl⟩ := mem_markSignaturesProcessed.mp hr
  by_cases hw : (ownedIn address sigs x && !x.isProcessed) = true
  · rw [if_pos hw] at hp
    exact absurd hp (by simp [SignatureRow.mark])
  · rw [if_neg hw] at ha hp ⊢
    refine Or.inr ((h x hx ha hp).resolve_left fun hs => hw ?_)
    rw [Bool.and_eq_true, ownedIn_eq_true, hp]
    exact ⟨⟨ha, hs⟩, rfl⟩

/-- Marking an unprocessed row takes it out of the count. -/
theorem unprocessedCount_mark {s : String} (hs : s ∈ sigs) (hun : db.Unprocessed address s) :
    (db.markSignaturesProcessed address sigs).2.unprocessedCount address <
      db.unprocessedCount address := by
  obtain ⟨r, hr, hk, hp⟩ := hun
  obtain ⟨ha, rfl⟩ := Prod.mk.inj hk
  unfold markSignaturesProcessed
  have hne : sigs.isEmpty = false := by
    cases sigs with
    | nil => exact absurd hs List.not_mem_nil
    | cons x xs => rfl
  rw [hne]
  refine Table.countP_update_lt SignatureRow.mark_key (fun x hx => ?_) hr
    (SignatureRow.unprocessed_eq_true.mpr ⟨ha, hp⟩) ?_
  · split at hx
    · exact absurd hx (by simp [SignatureRow.unprocessed, SignatureRow.mark])
    · exact hx
  · have hw : (ownedIn address sigs r && !r.isProcessed) = true := by
      rw [Bool.and_eq_true, ownedIn_eq_true, hp]
      exact ⟨⟨ha, hs⟩, rfl⟩
    rw [if_pos hw]
    simp [SignatureRow.unprocessed, SignatureRow.mark]

theorem AllProcessed.window {j : ProcessingData} (h : db.AllProcessed j.address) :
    db.unprocessedInWindow j = false :=
  unprocessedInWindow_eq_false.mpr fun r hr ha _ => h r hr ha

end Db

/-! ## The invariant of a run -/

section Invariant

variable {job : ClaimedJob} {history : List Signature}

/-- The batch in hand: without errors, its signatures unprocessed and the only ones in flight. -/
structure SmoothBatch (address : String) (start : Int) (db : Db) (batch : TransactionBatch) :
    Prop where
  inFlight : db.InFlightOnly address start batch.processedSignatures
  errors : batch.errors = []
  nonempty : batch.processedSignatures ≠ []
  unprocessed : ∀ s ∈ batch.processedSignatures, db.Unprocessed address s

theorem SmoothBatch.of_same {address : String} {start : Int} {db db' : Db} {batch : TransactionBatch}
    (h : SmoothBatch address start db batch) (hs : Db.SameRows address db db') :
    SmoothBatch address start db' batch :=
  ⟨h.inFlight.of_same hs, h.errors, h.nonempty, fun s hs' => (h.unprocessed s hs').of_same hs⟩

theorem SmoothBatch.of_signatures {address : String} {start : Int} {db db' : Db}
    {batch : TransactionBatch} (h : SmoothBatch address start db batch)
    (hs : db'.signatures = db.signatures) : SmoothBatch address start db' batch := by
  refine ⟨fun r hr => h.inFlight r (hs ▸ hr), h.errors, h.nonempty, fun s hm => ?_⟩
  unfold Db.Unprocessed
  rw [hs]
  exact h.unprocessed s hm

/-- What holds at each call of such a run. -/
def Recovering (address : String) (start : Int) (db : Db) (j : ProcessingData) : Pc → Prop
  | .fetchPage _ _ | .writeSignatures _ _ | .claimBatch =>
    j.status = .indexing ∧ db.InFlightOnly address start []
  | .getTransaction signatures =>
    j.status = .indexing ∧ db.InFlightOnly address start signatures ∧ signatures ≠ [] ∧
      ∀ s ∈ signatures, db.Unprocessed address s
  | .writeTransactionInfo batch | .writeTokenTransfers batch | .markProcessed batch =>
    j.status = .indexing ∧ SmoothBatch address start db batch
  | .updateReady => j.status = .indexing ∧ db.AllProcessed address
  | .returned => j.status = .ready ∧ db.AllProcessed address
  | .updateError | .panicked => False

theorem Recovering.of_same {address : String} {start : Int} {db db' : Db} {j : ProcessingData}
    {pc : Pc} (h : Recovering address start db j pc) (hs : Db.SameRows address db db') :
    Recovering address start db' j pc := by
  cases pc with
  | fetchPage cur sum => exact ⟨h.1, h.2.of_same hs⟩
  | writeSignatures page sum => exact ⟨h.1, h.2.of_same hs⟩
  | claimBatch => exact ⟨h.1, h.2.of_same hs⟩
  | getTransaction signatures =>
    exact ⟨h.1, h.2.1.of_same hs, h.2.2.1, fun s hm => (h.2.2.2 s hm).of_same hs⟩
  | writeTransactionInfo batch => exact ⟨h.1, h.2.of_same hs⟩
  | writeTokenTransfers batch => exact ⟨h.1, h.2.of_same hs⟩
  | markProcessed batch => exact ⟨h.1, h.2.of_same hs⟩
  | updateReady => exact ⟨h.1, h.2.of_same hs⟩
  | updateError => exact h
  | returned => exact ⟨h.1, h.2.of_same hs⟩
  | panicked => exact h

/-- A bound on the steps left. -/
def remaining (history : List Signature) (job : ClaimedJob) (db : Db) : Pc → Nat
  | .fetchPage cur _ =>
    6 * (db.unprocessedCount job.address + (behind history cur).length) +
      2 * (behind history cur).length + 7
  | .writeSignatures page sum =>
    let written := db.unprocessedCount job.address + page.response.result.length
    if stopsPaging job page sum then 6 * written + 6
    else
      6 * (written + (behind history page.lastSignature).length) +
        2 * (behind history page.lastSignature).length + 8
  | .claimBatch => 6 * db.unprocessedCount job.address + 5
  | .getTransaction _ => 6 * db.unprocessedCount job.address + 4
  | .writeTransactionInfo _ => 6 * db.unprocessedCount job.address + 3
  | .writeTokenTransfers _ => 6 * db.unprocessedCount job.address + 2
  | .markProcessed _ => 6 * db.unprocessedCount job.address + 1
  | .updateReady => 2
  | .updateError => 1
  | .returned | .panicked => 0

theorem remaining_same {db db' : Db} (hs : Db.SameRows job.address db db') (pc : Pc) :
    remaining history job db' pc = remaining history job db pc := by
  cases pc <;> simp only [remaining, Db.unprocessedCount_same hs]

/-- What holds in each state of such a run. -/
def Smooth (job : ClaimedJob) (start : Int) (s : Local) : Prop :=
  start ≤ s.now ∧ ∃ j ∈ s.db.processingData, j.claimed = job ∧
    Recovering job.address start s.db j s.pc

theorem smooth_start {s0 : Local} (hstart : s0.pc = Pc.start job)
    (hjob : ∃ j ∈ s0.db.processingData, j.claimed = job ∧ j.status = .indexing)
    (hstale : s0.db.InFlightOnly job.address s0.now []) (hmask : maskAddr job.address ≠ none) :
    Smooth job s0.now s0 := by
  obtain ⟨j, hj, hcl, hs⟩ := hjob
  refine ⟨Int.le_refl _, j, hj, hcl, ?_⟩
  rw [hstart]
  unfold Pc.start
  split
  · rename_i hnone
    exact absurd hnone hmask
  · exact ⟨hs, hstale⟩

end Invariant

/-! ## Runs in which every call succeeds -/

section Network

variable [External]

/-- The answer to the call is a success: the page that is asked for, the transactions of the batch,
a statement that is executed. -/
def Succeeds (api : HeliusApi) (job : ClaimedJob) (history : List Signature) : Pc → Answer → Prop
  | .fetchPage cur _, .signatures reply nowTs =>
    PageOk api job (cur, reply, nowTs) ∧ ∀ k result, signaturesOf (reply k) = some result →
      Page 1000 (behind history cur) result
  | .getTransaction signatures, .transactions reply => BatchOk api (signatures, reply)
  | .fetchPage _ _, .done _ => False
  | .getTransaction _, .done _ => False
  | _, .done _ => True
  | _, _ => False

/-- A step with nobody else at the address and a call that succeeds. -/
def SmoothStep (api : HeliusApi) (job : ClaimedJob) (history : List Signature) :
    Local → Event → Local → Prop :=
  Guarded (LocalStep api job (Db.SameAddress job.address)) fun s e =>
    Succeeds api job history s.pc e.2

/-- **Recovery**: such runs are bounded, none gets stuck before its end, and at the end the job is
ready and every row of the address processed. -/
structure Recovers (api : HeliusApi) (job : ClaimedJob) (history : List Signature) (s0 : Local) :
    Prop where
  ends : ∃ n, ∀ tr t, Run (SmoothStep api job history) s0 tr t → tr.length ≤ n
  goesOn : ∀ tr t, Run (SmoothStep api job history) s0 tr t → t.pc.final = false →
    ∀ now, t.now ≤ now →
      (t.pc ≠ .claimBatch → ∀ a, Succeeds api job history t.pc a →
        ∃ t', SmoothStep api job history t (now, a) t') ∧
      (t.pc = .claimBatch → ∃ chosen t', SmoothStep api job history t (now, .done chosen) t')
  ready : ∀ tr t, Run (SmoothStep api job history) s0 tr t → t.pc.final = true →
    t.pc = .returned ∧ (∃ j ∈ t.db.processingData, j.claimed = job ∧ j.status = .ready) ∧
      t.db.AllProcessed job.address

variable {api : HeliusApi} {job : ClaimedJob} {history : List Signature}

/-- A batch whose requests all succeeded. -/
theorem smoothBatch_of_fetched {start : Int} {db : Db} {address : String} {signatures : List String}
    {reply : Nat → Replies} {batch : TransactionBatch}
    (hget : getTransaction api reply signatures = some batch) (hok : BatchOk api (signatures, reply))
    (hflight : db.InFlightOnly address start signatures) (hne : signatures ≠ [])
    (hun : ∀ s ∈ signatures, db.Unprocessed address s) : SmoothBatch address start db batch := by
  have herrors := (getTransaction_errors hget).mpr hok
  have hin : ∀ s, s ∈ batch.processedSignatures ↔ s ∈ signatures := fun s =>
    mem_processed_iff hget herrors
  refine ⟨fun r hr ha hp => (hflight r hr ha hp).imp_left (hin _).mpr, herrors, fun he => ?_,
    fun s hs => hun s ((hin s).mp hs)⟩
  obtain ⟨s, hs⟩ := List.exists_mem_of_ne_nil _ hne
  have hmem := (hin s).mpr hs
  rw [he] at hmem
  exact absurd hmem List.not_mem_nil

/-! ## One step -/

/-- **The step lemma.** -/
theorem recovering_next {start : Int} {db db' : Db} {now : Int} {j : ProcessingData} {pc pc' : Pc}
    {a : Answer} (hnow : start ≤ now) (hj : j ∈ db.processingData) (hcl : j.claimed = job)
    (h : Recovering job.address start db j pc) (hs : Succeeds api job history pc a)
    (hn : Next api job now db pc a db' pc') :
    ∃ j' ∈ db'.processingData, j'.claimed = job ∧ Recovering job.address start db' j' pc' := by
  have hid : job.jobId = j.id := hcl ▸ rfl
  have hadd : j.address = job.address := hcl ▸ rfl
  cases hn with
  | pageFetched hpage => exact ⟨j, hj, hcl, h⟩
  | pageFailed herr =>
    obtain ⟨⟨page, hpage⟩, -⟩ := hs
    exact absurd (herr.symm.trans hpage) (by simp)
  | signaturesWritten =>
    refine ⟨j, by simpa using hj, hcl, ?_⟩
    unfold Pc.afterPage
    split
    · exact ⟨h.1, h.2.write _⟩
    · exact ⟨h.1, h.2.write _⟩
  | nothingClaimed hc =>
    refine ⟨j, hj, hcl, h.1, fun r hr ha => ?_⟩
    obtain ⟨x, hx, rfl⟩ := Db.mem_getUnprocessedSignatures.mp hr
    have hno : Db.ownedIn job.address [] x = false := by simp [Db.ownedIn]
    rw [if_neg (by simp [hno])] at ha ⊢
    by_contra hp
    have hx' : x.signature ∈ db.claimableSignatures job.address now :=
      Db.mem_claimableSignatures.mpr ⟨x, hx, h.2.claimable hnow hx ha (by simpa using hp), rfl⟩
    rw [hc.nil (by decide)] at hx'
    exact absurd hx' List.not_mem_nil
  | batchClaimed hc hne =>
    exact ⟨j, hj, hcl, h.1, h.2.claim _, hne, fun s hs => Db.unprocessed_claim hc hs⟩
  | batchFetched hb =>
    exact ⟨j, hj, hcl, h.1, smoothBatch_of_fetched hb hs h.2.1 h.2.2.1 h.2.2.2⟩
  | batchPanicked hb =>
    obtain ⟨batch, hbatch⟩ := getTransaction_some hs
    exact absurd (hb.symm.trans hbatch) (by simp)
  | infoWritten =>
    exact ⟨j, by simpa using hj, hcl, h.1, h.2.of_signatures (by simp)⟩
  | transfersWritten =>
    exact ⟨j, by simpa using hj, hcl, h.1, h.2.of_signatures (by simp)⟩
  | @batchMarked batch chosen =>
    refine ⟨j, by simpa using hj, hcl, ?_⟩
    unfold Pc.afterBatch
    rw [h.2.errors]
    exact ⟨h.1, h.2.inFlight.mark⟩
  | readyUpdated hone =>
    rw [hid] at hone ⊢
    have hmay := (Db.updateStatus_eq_one hj).mp hone
    exact ⟨_, Db.mem_updateStatus_of_may hj hmay, hcl, rfl, h.2⟩
  | readyBlocked hzero =>
    rw [hid] at hzero
    have hmay := (Db.updateStatus_eq_zero hj).mp hzero
    have hall : db.AllProcessed j.address := hadd ▸ h.2
    rw [Db.mayUpdateStatus_ready db h.1, hall.window] at hmay
    exact absurd hmay (by simp)
  | errorUpdated => exact h.elim
  | dbFailed hi => exact absurd hs (by cases pc <;> simp [Succeeds])

/-- **Every step gets closer to the end.** -/
theorem remaining_lt (hnd : (history.map (·.signature)).Nodup) {start : Int} {db db' : Db} {now : Int}
    {j : ProcessingData} {pc pc' : Pc} {a : Answer} (h : Recovering job.address start db j pc)
    (hs : Succeeds api job history pc a) (hn : Next api job now db pc a db' pc') :
    remaining history job db' pc' < remaining history job db pc := by
  cases hn with
  | @pageFetched cur sum reply nowTs page hpage =>
    obtain ⟨k, result, hres, rfl⟩ := getSignatures_ok hpage
    have hp := hs.2 k result hres
    have hrecent : (pageOf result job.requestedHours nowTs).response.result.length ≤ result.length :=
      length_takeRecent_le _ result
    have hfits : result.length ≤ (behind history cur).length := hp.next.length_le
    simp only [remaining]
    split
    · omega
    · rename_i hstop
      obtain ⟨x, hx⟩ : ∃ x, result.getLast? = some x := by
        refine Option.ne_none_iff_exists'.mp fun hnone => hstop ?_
        simp [stopsPaging, pageOf, hnone]
      have hcur : (pageOf result job.requestedHours nowTs).lastSignature = some x.signature := by
        simp [pageOf, hx]
      have hlen : (behind history (some x.signature)).length + result.length =
          (behind history cur).length ∧ 0 < result.length := length_after_lt hnd hp.next hx
      rw [hcur]
      omega
  | pageFailed herr => simp only [remaining]; omega
  | @signaturesWritten page sum chosen =>
    have hcount := Db.unprocessedCount_write db job.address page.response
    unfold Pc.afterPage
    by_cases hstop : stopsPaging job page sum = true
    · simp only [hstop, if_true, remaining]
      omega
    · simp only [hstop, if_false, remaining, Bool.false_eq_true]
      omega
  | nothingClaimed hc => simp only [remaining]; omega
  | @batchClaimed chosen hc hne =>
    have hcount := Db.unprocessedCount_claim db job.address now chosen
    simp only [remaining]
    omega
  | batchFetched hb => simp only [remaining]; omega
  | batchPanicked hb => simp only [remaining]; omega
  | infoWritten =>
    simp only [remaining, Db.unprocessedCount, Db.writeTransactionInfo_signatures]
    omega
  | transfersWritten =>
    simp only [remaining, Db.unprocessedCount, Db.writeTokenTransfers_signatures]
    omega
  | @batchMarked batch chosen =>
    obtain ⟨s, hs⟩ := List.exists_mem_of_ne_nil _ h.2.nonempty
    have hcount := Db.unprocessedCount_mark hs (h.2.unprocessed s hs)
    unfold Pc.afterBatch
    rw [h.2.errors]
    simp only [List.isEmpty_nil, if_true, remaining]
    omega
  | readyUpdated hone => simp only [remaining]; omega
  | readyBlocked hzero => simp only [remaining]; omega
  | errorUpdated => exact h.elim
  | dbFailed hi => exact absurd hs (by cases pc <;> simp [Succeeds])

/-- **A call that succeeds is followed by the next.** -/
theorem step_of_succeeds {start : Int} {db : Db} {now : Int} {j : ProcessingData} {pc : Pc}
    {a : Answer} (h : Recovering job.address start db j pc) (hf : pc.final = false)
    (hs : Succeeds api job history pc a) (hc : pc ≠ .claimBatch) :
    ∃ p, step api job now db pc a = some p := by
  cases pc with
  | fetchPage cur sum =>
    cases a with
    | signatures reply nowTs =>
      obtain ⟨⟨page, hpage⟩, -⟩ := hs
      simp only [step, hpage]
      exact ⟨_, rfl⟩
    | _ => exact hs.elim
  | getTransaction signatures =>
    cases a with
    | transactions reply =>
      obtain ⟨batch, hb⟩ := getTransaction_some hs
      simp only [step, hb]
      exact ⟨_, rfl⟩
    | _ => exact hs.elim
  | claimBatch => exact absurd rfl hc
  | updateError => exact h.elim
  | returned => exact absurd hf (by simp [Pc.final])
  | panicked => exact absurd hf (by simp [Pc.final])
  | _ =>
    cases a with
    | done chosen => exact ⟨_, rfl⟩
    | _ => exact hs.elim

/-! ## Every run -/

theorem smooth_step {start : Int} {s s' : Local} {e : Event} (h : Smooth job start s)
    (hstep : SmoothStep api job history s e s') : Smooth job start s' := by
  obtain ⟨hnow, j, hj, hcl, hr⟩ := h
  obtain ⟨⟨db, hsame, hle, hnow', hstep⟩, hs⟩ := hstep
  have hadd : j.address = job.address := hcl ▸ rfl
  exact ⟨by omega, recovering_next (by omega) ((hsame.jobs j hadd).mp hj) hcl
    (hr.of_same hsame.toSameRows) hs (step_next hstep)⟩

theorem remaining_step (hnd : (history.map (·.signature)).Nodup) {start : Int} {s s' : Local}
    {e : Event} (h : Smooth job start s) (hstep : SmoothStep api job history s e s') :
    remaining history job s'.db s'.pc < remaining history job s.db s.pc := by
  obtain ⟨-, j, -, -, hr⟩ := h
  obtain ⟨⟨db, hsame, -, -, hstep⟩, hs⟩ := hstep
  rw [← remaining_same hsame.toSameRows]
  exact remaining_lt hnd (hr.of_same hsame.toSameRows) hs (step_next hstep)

/-- A run that panics before its first call does not recover. -/
theorem not_recovers_of_mask {s0 : Local} (hstart : s0.pc = Pc.start job)
    (hnone : maskAddr job.address = none) : ¬Recovers api job history s0 := by
  intro h
  have hpc : s0.pc = .panicked := by
    rw [hstart]
    unfold Pc.start
    rw [hnone]
  have hreturned := (h.ready [] s0 Run.refl (by rw [hpc]; rfl)).1
  rw [hpc] at hreturned
  exact absurd hreturned (by simp)

/-- **Recovery.** From any database in which the job is indexing and no signature of its address
was claimed less than five minutes before its start, and for any finite history: the job recovers
if and only if its address can be masked. -/
theorem recovers_iff (hnd : (history.map (·.signature)).Nodup) {s0 : Local}
    (hstart : s0.pc = Pc.start job)
    (hjob : ∃ j ∈ s0.db.processingData, j.claimed = job ∧ j.status = .indexing)
    (hstale : s0.db.InFlightOnly job.address s0.now []) :
    Recovers api job history s0 ↔ maskAddr job.address ≠ none := by
  constructor
  · exact fun h hnone => not_recovers_of_mask hstart hnone h
  · intro hmask
    have hsmooth := smooth_start hstart hjob hstale hmask
    have hinv : ∀ {tr t}, Run (SmoothStep api job history) s0 tr t → Smooth job s0.now t :=
      fun hrun => hrun.invariant (I := Smooth job s0.now) (fun _ _ _ => smooth_step) hsmooth
    refine ⟨⟨remaining history job s0.db s0.pc, fun tr t hrun => ?_⟩, fun tr t hrun hf now hnow =>
      ⟨fun hc a hs => ?_, fun hc => ?_⟩, fun tr t hrun hf => ?_⟩
    · have hlen := Run.length_add_measure_le (I := Smooth job s0.now)
        (fun s => remaining history job s.db s.pc) (fun _ _ _ => smooth_step)
        (fun _ _ _ => remaining_step hnd) hrun hsmooth
      omega
    · obtain ⟨-, j, -, -, hr⟩ := hinv hrun
      obtain ⟨p, hp⟩ := step_of_succeeds hr hf hs hc
      exact ⟨⟨p.1, now, p.2⟩, ⟨t.db, .refl _ _, hnow, rfl, hp⟩, hs⟩
    · obtain ⟨chosen, hchosen⟩ := Db.exists_isClaim t.db job.address 100 now
      obtain ⟨p, hp⟩ : ∃ p, step api job now t.db t.pc (.done chosen) = some p := by
        rw [hc]
        simp only [step, hchosen, if_true]
        exact ⟨_, rfl⟩
      have hs : Succeeds api job history t.pc (.done chosen) := by
        rw [hc]
        trivial
      exact ⟨chosen, ⟨p.1, now, p.2⟩, ⟨t.db, .refl _ _, hnow, rfl, hp⟩, hs⟩
    · obtain ⟨-, j, hj, hcl, hr⟩ := hinv hrun
      cases hpc : t.pc with
      | returned =>
        rw [hpc] at hr
        exact ⟨rfl, ⟨j, hj, hcl, hr.1⟩, hr.2⟩
      | panicked =>
        rw [hpc] at hr
        exact hr.elim
      | _ =>
        rw [hpc] at hf
        exact absurd hf (by simp [Pc.final])

end Network

/-- A signature that an earlier run claimed 1100 seconds ago and left behind. -/
def leftBehind : Db :=
  (((sampleDb 10100).writeSignatures ⟨[⟨some 9000, "s1"⟩]⟩ "A").2.getUnprocessedSignatures "A"
    9000000000 ["s1"]).2

theorem recovers_leftBehind :
    letI : External := smallNetwork [[⟨some 9000, "s1"⟩]] ["s1"]
    Recovers sampleApi sampleJob [⟨some 9000, "s1"⟩]
      ⟨leftBehind, 10100000000, Pc.start sampleJob⟩ := by
  let : External := smallNetwork [[⟨some 9000, "s1"⟩]] ["s1"]
  refine (recovers_iff (by decide) rfl (sampleDb_job 10100) ?_).mpr (by decide)
  unfold Db.InFlightOnly
  decide +kernel

/-- A job for seven letters `é`, two bytes each: byte 5 is inside a letter. -/
def accentedJob : ProcessingData := ⟨1, "ééééééé", .indexing, 0, 0, some 1, 10, 1⟩

theorem not_recovers_accented :
    letI : External := smallNetwork [[]] []
    let db := (Db.empty.createProcessingJob "ééééééé" 10 1 0).2.setJob accentedJob
    (∃ j ∈ db.processingData, j.claimed = accentedJob.claimed ∧ j.status = .indexing) ∧
      db.InFlightOnly "ééééééé" 0 [] ∧
      ¬Recovers sampleApi accentedJob.claimed [] ⟨db, 0, Pc.start accentedJob.claimed⟩ := by
  let : External := smallNetwork [[]] []
  refine ⟨⟨accentedJob, Db.mem_setJob.mpr (Or.inr ⟨rfl, List.mem_singleton_self 1⟩), rfl, rfl⟩,
    fun r hr => absurd hr (Table.not_mem_empty r), not_recovers_of_mask rfl (by decide)⟩

end OnChainEventIndexer
